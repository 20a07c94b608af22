import FlowAdmission.PathIndex
import FlowAdmission.Proofs.Graph.RankedPaths
import Mathlib.Data.List.SplitBy

/-!
# The tiers of the path index

A pair's tiers hold the loop-free paths of its least lengths, a tier for each length
(`PathIndex.build_describes`). A deeper index has the same tiers and some behind them.

Every edge weighs one, so the enumeration yields the paths by length. Filing them one by one cuts
this list wherever the length changes (`foldUntil_file`), and a path longer than the last tier
kept ends the search with no path of a kept length still to come.
-/
namespace FlowAdmission
namespace PathIndex
variable {g : Graph} {s t : NodeId}

theorem simple_hopQuery {p : Path} : (hopQuery g s t).Simple p ↔ g.SimplePath s p t := by
  rw [PathQuery.simple_iff]
  exact ⟨fun simple => simple.1, fun path => ⟨path, fun _ _ => rfl⟩⟩

theorem sizeSum_hopQuery (p : Path) :
    PathQuery.sizeSum (fun e => (((hopQuery g s t).weight e).getD 0 : ℕ)) p = p.length := by
  simp [PathQuery.sizeSum, hopQuery]

/-- The enumeration by hops yields the loop-free paths by length, and its bound cuts none off. -/
theorem exists_ranked (g : Graph) (s t : NodeId) :
    ∃ paths : List Path, paths.Nodup ∧ (∀ p, p ∈ paths ↔ g.SimplePath s p t) ∧
      (paths.Pairwise fun p p' => p.length ≤ p'.length) ∧
      ∀ {β : Type} (visit : β → Path → ForInStep β) (b : β),
        (hopQuery g s t).explore (fun b item => visit b item.2) (hopQuery g s t).pathBound b
            .fresh =
          foldUntil visit b paths := by
  obtain ⟨items, answers, distinct, mem_iff, -, sorted⟩ :=
    PathQuery.exists_answers (PathQuery.exactSums_nat (hopQuery g s t)).ranks
  have few : items.length ≤ (hopQuery g s t).pathBound := by
    rw [← List.length_map (·.2)]
    exact PathQuery.length_le_pathBound (fun p => (mem_iff p).mp) distinct
  refine ⟨items.map (·.2), distinct, fun p => (mem_iff p).trans simple_hopQuery, ?_,
    fun visit b => ?_⟩
  · rw [List.pairwise_map]
    refine sorted.imp fun shorter => ?_
    rw [sizeSum_hopQuery, sizeSum_hopQuery] at shorter
    exact Nat.cast_le.mp shorter
  · rw [PathQuery.explore_eq_foldUntil answers, List.take_of_length_le few, foldUntil_map]

/-! ### Cutting a list by length -/

section cuts
variable {paths : List Path} {tier : Tier}

def sameLength (p p' : Path) : Bool := p.length == p'.length

/-- The paths in groups, a new one wherever the length changes. -/
def byLength (paths : List Path) : List Tier := paths.splitBy sameLength

theorem prefix_splitBy_loop {α : Type} (r : α → α → Bool) (as : List α) (last : α) (group : List α)
    (done : List (List α)) : done.reverse <+: List.splitBy.loop r as last group done := by
  induction as generalizing last group done with
  | nil =>
    rw [List.splitBy.loop, List.reverse_cons]
    exact List.prefix_append _ _
  | cons a rest ih =>
    rw [List.splitBy.loop]
    split
    · exact ih a _ done
    · refine List.IsPrefix.trans ?_ (ih a [] _)
      have grown := List.prefix_append done.reverse [(last :: group).reverse]
      rwa [← List.reverse_cons] at grown

theorem file_cons (depth : Nat) (p last : Path) (tier : Tier) (older : List Tier) :
    file depth ((last :: tier) :: older) p =
      if p.length = last.length then .yield ((p :: last :: tier) :: older)
      else if older.length + 1 = depth then .done ((last :: tier) :: older)
      else .yield ([p] :: (last :: tier) :: older) := rfl

/-- Filing goes on as the cutting does, until all tiers are there. -/
theorem foldUntil_file {depth : Nat} (rest : List Path) (last : Path) (tier : Tier)
    (older : List Tier) (room : older.length < depth) :
    ((foldUntil (file depth) ((last :: tier) :: older) rest).map List.reverse).reverse =
      (List.splitBy.loop sameLength rest last tier (older.map List.reverse)).take depth := by
  induction rest generalizing last tier older with
  | nil =>
    rw [List.splitBy.loop, List.take_of_length_le (by simp; omega)]
    simp [foldUntil]
  | cons p rest ih =>
    rw [foldUntil, file_cons, List.splitBy.loop]
    by_cases same : p.length = last.length
    · have together : sameLength last p = true := beq_iff_eq.mpr same.symm
      simpa only [if_pos same, together] using ih p (last :: tier) older room
    · have apart : sameLength last p = false := beq_eq_false_iff_ne.mpr (Ne.symm same)
      simp only [if_neg same, apart]
      by_cases full : older.length + 1 = depth
      · -- All that is kept stands before what is still to be cut.
        obtain ⟨more, cut⟩ := prefix_splitBy_loop sameLength rest p []
          ((last :: tier).reverse :: older.map List.reverse)
        simp only [if_pos full]
        rw [← cut, List.take_left' (by simp [full])]
        simp
      · simp only [if_neg full]
        exact ih p [] ((last :: tier) :: older) (by rw [List.length_cons]; omega)

theorem tiersBetween_eq {depth : Nat} (positive : 1 ≤ depth)
    (explored : ∀ {β : Type} (visit : β → Path → ForInStep β) (b : β),
      (hopQuery g s t).explore (fun b item => visit b item.2) (hopQuery g s t).pathBound b .fresh =
        foldUntil visit b paths) :
    tiersBetween g depth s t = (byLength paths).take depth := by
  unfold tiersBetween
  dsimp only
  rw [explored (file depth)]
  cases paths with
  | nil => simp [foldUntil, byLength]
  | cons p rest =>
    have opened : file depth [] p = .yield [[p]] := by
      simp only [file, List.length_nil]
      rw [if_neg (by omega)]
    simp only [foldUntil, opened]
    exact foldUntil_file rest p [] [] positive

/-- The length that the paths of a tier have in common. -/
def tierLength (tier : Tier) : Nat := (tier.headD []).length

theorem length_eq_tierLength (group : tier ∈ byLength paths) {p : Path} (mem : p ∈ tier) :
    p.length = tierLength tier := by
  have linked : (tier.map List.length).IsChain (· = ·) := by
    rw [List.isChain_map]
    exact (List.isChain_of_mem_splitBy group).imp fun _ _ same => beq_iff_eq.mp same
  have equal := linked.pairwise
  cases tier with
  | nil => cases mem
  | cons first rest =>
    rw [List.map_cons, List.pairwise_cons] at equal
    rcases List.mem_cons.mp mem with rfl | later
    · rfl
    · exact (equal.1 p.length (List.mem_map_of_mem later)).symm

/-- Where the paths stand by length, every group has longer ones than the group before. -/
theorem increasing_byLength (sorted : paths.Pairwise fun p p' => p.length ≤ p'.length) :
    ((byLength paths).map tierLength).Pairwise (· < ·) := by
  have apart : (byLength paths).IsChain fun tier tier' =>
      ∃ ends starts, sameLength (tier.getLast ends) (tier'.head starts) = false :=
    List.isChain_getLast_head_splitBy sameLength paths
  have ordered : (byLength paths).Pairwise fun tier tier' =>
      ∀ p ∈ tier, ∀ p' ∈ tier', p.length ≤ p'.length := by
    rw [← List.flatten_splitBy sameLength paths] at sorted
    exact (List.pairwise_flatten.mp sorted).2
  refine List.IsChain.pairwise ?_
  rw [List.isChain_map, List.isChain_iff_getElem]
  intro i inside
  obtain ⟨nonempty, nonempty', different⟩ := List.isChain_iff_getElem.mp apart i inside
  have no_longer := List.pairwise_iff_getElem.mp ordered i (i + 1) (by omega) inside (by omega)
    _ (List.getLast_mem nonempty) _ (List.head_mem nonempty')
  calc tierLength (byLength paths)[i]
    _ = ((byLength paths)[i].getLast nonempty).length :=
      (length_eq_tierLength (List.getElem_mem _) (List.getLast_mem nonempty)).symm
    _ < ((byLength paths)[i + 1].head nonempty').length :=
      Nat.lt_of_le_of_ne no_longer (beq_eq_false_iff_ne.mp different)
    _ = tierLength (byLength paths)[i + 1] :=
      length_eq_tierLength (List.getElem_mem _) (List.head_mem nonempty')

/-- A group holds all paths of its length. -/
theorem mem_group_iff (sorted : paths.Pairwise fun p p' => p.length ≤ p'.length)
    (group : tier ∈ byLength paths) {p : Path} :
    p ∈ tier ↔ p ∈ paths ∧ p.length = tierLength tier := by
  have joined : (byLength paths).flatten = paths := List.flatten_splitBy _ _
  constructor
  · intro mem
    refine ⟨?_, length_eq_tierLength group mem⟩
    rw [← joined]
    exact List.mem_flatten.mpr ⟨tier, group, mem⟩
  · rintro ⟨listed, length⟩
    rw [← joined] at listed
    obtain ⟨tier', group', mem⟩ := List.mem_flatten.mp listed
    have same : tierLength tier' = tierLength tier :=
      (length_eq_tierLength group' mem).symm.trans length
    have distinct : ((byLength paths).map tierLength).Nodup :=
      (increasing_byLength sorted).imp Nat.ne_of_lt
    rwa [← List.inj_on_of_nodup_map distinct group' group same]

theorem mem_lengths_iff {l : Nat} :
    l ∈ (byLength paths).map tierLength ↔ ∃ p ∈ paths, p.length = l := by
  have joined : (byLength paths).flatten = paths := List.flatten_splitBy _ _
  constructor
  · intro listed
    obtain ⟨tier, group, rfl⟩ := List.mem_map.mp listed
    obtain ⟨p, rest, rfl⟩ := List.exists_cons_of_ne_nil (List.ne_nil_of_mem_splitBy group)
    refine ⟨p, ?_, rfl⟩
    rw [← joined]
    exact List.mem_flatten.mpr ⟨_, group, List.mem_cons_self⟩
  · rintro ⟨p, listed, rfl⟩
    rw [← joined] at listed
    obtain ⟨tier, group, mem⟩ := List.mem_flatten.mp listed
    exact List.mem_map.mpr ⟨tier, group, (length_eq_tierLength group mem).symm⟩

end cuts

/-! ### Looking a pair up -/

theorem getElem?_ofList_map {β : Type} {ns : List NodeId} (distinct : ns.Nodup) (f : NodeId → β)
    (n : NodeId) : (Std.ExtTreeMap.ofList (ns.map fun n => (n, f n)))[n]? =
      if n ∈ ns then some (f n) else none := by
  by_cases known : n ∈ ns
  · rw [if_pos known]
    refine Std.ExtTreeMap.getElem?_ofList_of_mem (Nat.compare_eq_eq.mpr rfl) ?_
      (List.mem_map_of_mem known)
    rw [List.pairwise_map]
    exact distinct.imp fun other same => other (Nat.compare_eq_eq.mp same)
  · rw [if_neg known]
    apply Std.ExtTreeMap.getElem?_ofList_of_contains_eq_false
    simpa [List.map_map, Function.comp_def] using known

/-- An index of some depth knows the pairs of two nodes of the graph. -/
theorem tiers?_build (g : Graph) (depth : Nat) (s t : NodeId) :
    (build g depth).tiers? s t =
      if 0 < depth ∧ s ∈ g.nodes ∧ t ∈ g.nodes ∧ t ≠ s then some (tiersBetween g depth s t)
      else none := by
  unfold tiers? build
  rcases Nat.eq_zero_or_pos depth with rfl | positive
  · simp
  · have distinct := nodup_toList g.nodes
    rw [if_neg (by omega), getElem?_ofList_map distinct]
    by_cases source : s ∈ g.nodes
    · rw [if_pos (Std.ExtTreeSet.mem_toList.mpr source), Option.bind_some, table,
        getElem?_ofList_map (distinct.filter _)]
      simp [positive, source]
    · simp [source]

section queries
variable {index : PathIndex} {tiers : List Tier}

theorem queries_unindexed (unknown : index.tiers? s t = none) :
    index.tierCount s t = .error (.unindexed s t 0) ∧
      (∀ level, index.tier s t level = .error (.unindexed s t level)) ∧
      ∀ n, index.firstPaths s t n = .error (.unindexed s t 0) := by
  simp [tierCount, tier, firstPaths, unknown]

theorem tier_of_tiers? (known : index.tiers? s t = some tiers) (level : Nat) :
    index.tier s t level =
      if inside : level < tiers.length then .ok tiers[level]
      else .error (.unindexed s t level) := by
  unfold tier
  rw [known, Option.bind_some]
  split
  · rename_i missing
    rw [dif_neg (Nat.not_lt.mpr (List.getElem?_eq_none_iff.mp missing))]
  · rename_i found
    obtain ⟨inside, rfl⟩ := List.getElem?_eq_some_iff.mp found
    rw [dif_pos inside]

end queries

/-- What an index tells about a pair whose loop-free paths have the given lengths: a tier for each
of the first lengths, and in it all paths of that length, each once. -/
structure Describes (index : PathIndex) (g : Graph) (depth : Nat) (s t : NodeId)
    (lengths : List Nat) : Prop where
  count : index.tierCount s t = .ok (min depth lengths.length)
  exact : ∀ i l, i < depth → lengths[i]? = some l → ∃ tier, index.tier s t i = .ok tier ∧
    tier.Nodup ∧ ∀ p, p ∈ tier ↔ g.SimplePath s p t ∧ p.length = l
  refused : ∀ level, index.tier s t level = .error (.unindexed s t level) ↔
    min depth lengths.length ≤ level
  first : ∀ n, ∃ tiers : List Tier, tiers.length = min n (min depth lengths.length) ∧
    (∀ i (inside : i < tiers.length), index.tier s t i = .ok tiers[i]) ∧
    index.firstPaths s t n = .ok tiers.flatten

/-- The first groups of the ranked paths are tiers as they should be. -/
theorem describes_byLength {index : PathIndex} {paths : List Path} {depth : Nat}
    (distinct : paths.Nodup) (complete : ∀ p, p ∈ paths ↔ g.SimplePath s p t)
    (sorted : paths.Pairwise fun p p' => p.length ≤ p'.length)
    (known : index.tiers? s t = some ((byLength paths).take depth)) :
    index.Describes g depth s t ((byLength paths).map tierLength) := by
  have kept : ((byLength paths).take depth).length = min depth (byLength paths).length :=
    List.length_take
  constructor
  · simp [tierCount, known]
  · intro i l within found
    rw [List.getElem?_map] at found
    obtain ⟨group, listed, rfl⟩ := Option.map_eq_some_iff.mp found
    obtain ⟨inside, same⟩ := List.getElem?_eq_some_iff.mp listed
    have mem : group ∈ byLength paths := List.mem_of_getElem? listed
    refine ⟨group, ?_, ?_, fun p => ?_⟩
    · rw [tier_of_tiers? known, dif_pos (by omega), List.getElem_take, same]
    · have joined : (byLength paths).flatten = paths := List.flatten_splitBy _ _
      exact (joined ▸ List.sublist_flatten_of_mem mem).nodup distinct
    · rw [mem_group_iff sorted mem, complete]
  · intro level
    rw [tier_of_tiers? known, List.length_map, ← kept]
    split <;> simp <;> omega
  · intro n
    refine ⟨((byLength paths).take depth).take n, ?_, fun i inside => ?_, ?_⟩
    · simp
    · have within : i < ((byLength paths).take depth).length :=
        Nat.lt_of_lt_of_le inside (List.length_take_le' _ _)
      simp only [tier_of_tiers? known, dif_pos within, List.getElem_take]
    · simp [firstPaths, known]

/-- A tier of an index holds all loop-free paths of one length. -/
theorem tier_build {depth level : Nat} {tier : Tier}
    (found : (build g depth).tier s t level = .ok tier) :
    ∃ l, ∀ p, p ∈ tier ↔ g.SimplePath s p t ∧ p.length = l := by
  unfold PathIndex.tier at found
  split at found
  · cases found
  · rename_i kept
    cases found
    rw [tiers?_build] at kept
    split at kept
    · rename_i indexed
      obtain ⟨paths, _, complete, sorted, explored⟩ := exists_ranked g s t
      rw [tiersBetween_eq indexed.1 explored] at kept
      have group : tier ∈ byLength paths := List.mem_of_mem_take (List.mem_of_getElem? kept)
      exact ⟨tierLength tier, fun p => by rw [mem_group_iff sorted group, complete]⟩
    · cases kept

/-- Between two different nodes the index has the tiers of the least lengths of loop-free paths;
about other pairs every query is refused. A deeper index begins with the same tiers. -/
theorem build_describes (g : Graph) {depth : Nat} (positive : 1 ≤ depth) :
    (∀ s t, s ∈ g.nodes → t ∈ g.nodes → s ≠ t → ∃ lengths : List Nat,
      lengths.Pairwise (· < ·) ∧
      (∀ l, l ∈ lengths ↔ ∃ p, g.SimplePath s p t ∧ p.length = l) ∧
      (build g depth).Describes g depth s t lengths) ∧
    (∀ s t, s ∉ g.nodes ∨ t ∉ g.nodes ∨ s = t →
      (build g depth).tierCount s t = .error (.unindexed s t 0) ∧
      (∀ level, (build g depth).tier s t level = .error (.unindexed s t level)) ∧
      ∀ n, (build g depth).firstPaths s t n = .error (.unindexed s t 0)) ∧
    ∀ deeper, depth ≤ deeper → ∀ s t,
      (build g depth).tiers? s t = ((build g deeper).tiers? s t).map (·.take depth) := by
  refine ⟨fun s t source target other => ?_, fun s t strange => ?_, fun deeper deep s t => ?_⟩
  · obtain ⟨paths, distinct, complete, sorted, explored⟩ := exists_ranked g s t
    have known : (build g depth).tiers? s t = some ((byLength paths).take depth) := by
      rw [tiers?_build, if_pos ⟨positive, source, target, other.symm⟩,
        tiersBetween_eq positive explored]
    refine ⟨_, increasing_byLength sorted, fun l => ?_,
      describes_byLength distinct complete sorted known⟩
    simp only [mem_lengths_iff, complete]
  · apply queries_unindexed
    rw [tiers?_build, if_neg]
    rintro ⟨_, source, target, other⟩
    rcases strange with no_source | no_target | same
    · exact no_source source
    · exact no_target target
    · exact other same.symm
  · obtain ⟨paths, _, _, _, explored⟩ := exists_ranked g s t
    rw [tiers?_build, tiers?_build, tiersBetween_eq positive explored,
      tiersBetween_eq (Nat.le_trans positive deep) explored]
    have positive' : 0 < deeper := Nat.lt_of_lt_of_le positive deep
    by_cases indexed : s ∈ g.nodes ∧ t ∈ g.nodes ∧ t ≠ s
    · rw [if_pos ⟨positive, indexed⟩, if_pos ⟨positive', indexed⟩, Option.map_some, List.take_take,
        Nat.min_eq_left deep]
    · rw [if_neg fun all => indexed all.2, if_neg fun all => indexed all.2, Option.map_none]

/-- Two ways of two edges and one of three, and an edge further on. -/
def sampleGraph : Graph :=
  .ofEdges [(10, ⟨0, 1⟩), (11, ⟨1, 3⟩), (12, ⟨0, 2⟩), (13, ⟨2, 3⟩), (14, ⟨0, 4⟩), (15, ⟨4, 5⟩),
    (16, ⟨5, 3⟩), (17, ⟨3, 6⟩)]

/-- A single tier is kept of the two. -/
theorem build_describes_sample : ∃ lengths : List Nat,
    lengths.Pairwise (· < ·) ∧
    (∀ l, l ∈ lengths ↔ ∃ p, sampleGraph.SimplePath 0 p 3 ∧ p.length = l) ∧
    (build sampleGraph 1).Describes sampleGraph 1 0 3 lengths ∧
    (build sampleGraph 1).tier 0 3 0 = .ok [[10, 11], [12, 13]] ∧
    (build sampleGraph 1).tier 0 3 1 = .error (.unindexed 0 3 1) := by
  obtain ⟨lengths, increasing, complete, describes⟩ :=
    (build_describes sampleGraph (Nat.le_refl 1)).1 0 3 (by decide +kernel) (by decide +kernel)
      (by decide)
  exact ⟨lengths, increasing, complete, describes, by decide +kernel, by decide +kernel⟩

end PathIndex
end FlowAdmission
