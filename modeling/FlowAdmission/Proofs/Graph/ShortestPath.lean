import FlowAdmission.Proofs.Graph.Labels

/-!
# The search finds a cheapest path

The search answers exactly where some chain of usable edges leads from the source to the target,
and then with a loop-free path and the sum of its weights (`PathQuery.shortest?_correct`). That
holds whatever the weights are. With exact sums no chain is shorter than the answer.

Both are one argument, made for any order of ways that the costs agree with
(`PathQuery.Respects`): ways that are all alike tell what is reached, ways in the order of their
sizes what is shortest. Labels are loop-free paths through settled nodes (`Search.Labelled`). The
invariant is `Search.Sound`: no way to a settled node is better than the one it was settled with,
and its edges have been offered to all nodes that are not settled. So every way to an unsettled node
crosses the frontier at a label that is no worse (`Sound.crossing`), and the nearest label is a best
one (`Sound.nearest_best`).
-/
namespace FlowAdmission
variable {W : Type}

namespace PathQuery
variable [Weight W] {q : PathQuery W} {size : EdgeId → ℚ}

/-- An order of ways, `le p p'` if `p` is no worse than `p'`: a way is no worse than those that go
on from it over a usable edge, and of two loop-free ways the one that costs less is no worse. -/
structure Respects (q : PathQuery W) (le : Path → Path → Prop) : Prop where
  refl (p : Path) : le p p
  trans {p p' p'' : Path} : le p p' → le p' p'' → le p p''
  snoc {p p' : Path} (e : EdgeId) : le p p' → le (p ++ [e]) (p' ++ [e])
  onward (p : Path) {e : EdgeId} : (q.weight e).isSome → le p (p ++ [e])
  cheaper {p p' : Path} {c c' : W} : q.graph.LoopFree p → q.graph.LoopFree p' → q.Costs p c →
    q.Costs p' c' → c < c' → le p p'
  dearer {p p' : Path} {c c' : W} : q.graph.LoopFree p → q.graph.LoopFree p' → q.Costs p c →
    q.Costs p' c' → ¬c < c' → le p' p

/-- Where all ways are alike, the costs do not matter. -/
theorem respects_alike (q : PathQuery W) : q.Respects fun _ _ => True := by
  constructor <;> intros <;> trivial

/-- With exact sums the costs agree with the sizes. -/
theorem ExactOn.respects {ways : Path → Prop} (exact : q.ExactOn ways size)
    (loopFree : ∀ p, q.graph.LoopFree p → (∀ e ∈ p, (q.weight e).isSome) → ways p) :
    q.Respects fun p p' => sizeSum size p ≤ sizeSum size p' where
  refl p := le_refl _
  trans first second := le_trans first second
  snoc e shorter := by simpa using shorter
  onward p e usable := by
    obtain ⟨w, weight⟩ := Option.isSome_iff_exists.mp usable
    simpa using exact.nonneg weight
  cheaper way way' costs costs' less := by
    have compare := exact.lt_iff (loopFree _ way costs.usable) (loopFree _ way' costs'.usable)
      costs costs'
    exact le_of_lt (compare.mp less)
  dearer way way' costs costs' not_less := by
    have compare := exact.lt_iff (loopFree _ way costs.usable) (loopFree _ way' costs'.usable)
      costs costs'
    exact not_lt.mp (mt compare.mpr not_less)

/-- Going on over usable edges makes no way better. -/
theorem Respects.append {le : Path → Path → Prop} (respects : q.Respects le) (p : Path)
    {p' : Path} (usable : ∀ e ∈ p', (q.weight e).isSome) : le p (p ++ p') := by
  induction p' generalizing p with
  | nil =>
    rw [List.append_nil]
    exact respects.refl p
  | cons e rest ih =>
    obtain ⟨first, later⟩ := List.forall_mem_cons.mp usable
    have onward := ih (p ++ [e]) later
    rw [List.append_assoc, List.singleton_append] at onward
    exact respects.trans (respects.onward p first) onward

end PathQuery

namespace Search
open PathQuery
variable [Weight W]

/-- Labels are kept or replaced by no worse ones. -/
structure Improves (le : Path → Path → Prop) (s s' : Search W) : Prop where
  settled : s'.settled = s.settled
  labels : ∀ {n : NodeId} {l : Label W}, s.frontier[n]? = some l →
    ∃ l' : Label W, s'.frontier[n]? = some l' ∧ le l'.path l.path

/-- The end of a usable edge is offered the way over it, unless it is settled. -/
def Offered (q : PathQuery W) (le : Path → Path → Prop) (n : NodeId) (here : Path) (s : Search W)
    (e : EdgeId) : Prop :=
  ∀ {m}, q.graph.edge? e = some ⟨n, m⟩ → (q.weight e).isSome → m ∉ s.settled →
    ∃ l : Label W, s.frontier[m]? = some l ∧ le l.path (here ++ [e])

section improving
variable {q : PathQuery W} {le : Path → Path → Prop} {s s' s'' : Search W}

theorem Improves.refl (respects : q.Respects le) (s : Search W) : Improves le s s :=
  ⟨rfl, fun found => ⟨_, found, respects.refl _⟩⟩

theorem Improves.trans (respects : q.Respects le) (first : Improves le s s')
    (second : Improves le s' s'') : Improves le s s'' := by
  refine ⟨second.settled.trans first.settled, fun found => ?_⟩
  obtain ⟨l', found', better⟩ := first.labels found
  obtain ⟨l'', found'', better'⟩ := second.labels found'
  exact ⟨l'', found'', respects.trans better' better⟩

theorem Offered.improves (respects : q.Respects le) {n : NodeId} {here : Path} {e : EdgeId}
    (offered : Offered q le n here s e) (improves : Improves le s s') :
    Offered q le n here s' e := by
  intro m edge usable unsettled
  rw [improves.settled] at unsettled
  obtain ⟨l, found, better⟩ := offered edge usable unsettled
  obtain ⟨l', found', better'⟩ := improves.labels found
  exact ⟨l', found', respects.trans better' better⟩

end improving

/-- The nearest entry is no worse than any other. -/
theorem nearest_le {q : PathQuery W} {le : Path → Path → Prop} (respects : q.Respects le)
    {xs : List (NodeId × Label W)} {x : NodeId × Label W}
    (ways : ∀ y ∈ xs, q.graph.LoopFree y.2.path ∧ q.Costs y.2.path y.2.cost)
    (found : nearest xs = some x) : ∀ y ∈ xs, le x.2.path y.2.path := by
  induction xs generalizing x with
  | nil => nofun
  | cons first rest ih =>
    obtain ⟨⟨way, costs⟩, later⟩ := List.forall_mem_cons.mp ways
    unfold nearest at found
    split at found
    · rename_i missing
      cases found
      rw [nearest_eq_none missing]
      exact List.forall_mem_singleton.mpr (respects.refl _)
    · rename_i best among
      have least := ih later among
      obtain ⟨way', costs'⟩ := later best (nearest_mem among)
      split at found
      · rename_i cheaper
        cases found
        exact List.forall_mem_cons.mpr ⟨respects.cheaper way' way costs' costs cheaper, least⟩
      · rename_i no_cheaper
        cases found
        have first_le := respects.dearer way' way costs' costs no_cheaper
        exact List.forall_mem_cons.mpr
          ⟨respects.refl _, fun y mem => respects.trans first_le (least y mem)⟩

section relaxing
variable {q : PathQuery W} {le : Path → Path → Prop} {s : Search W} {n m : NodeId}
  {label : Label W}

/-- An offered label of the right kind improves the frontier. -/
theorem offer_improves (respects : q.Respects le) (labelled : Labelled q s)
    (reached : Reached q s.settled m label) :
    Improves le s (s.offer m label) ∧
      ∃ l, (s.offer m label).frontier[m]? = some l ∧ le l.path label.path := by
  have settled := s.settled_offer m label
  rcases s.offer_self m label with ⟨now, cheaper⟩ | ⟨known, before, no_cheaper, now⟩
  · refine ⟨⟨settled, fun {n l} found => ?_⟩, label, now, respects.refl _⟩
    by_cases same : m = n
    · subst same
      have old := labelled found
      exact ⟨label, now, respects.cheaper reached.loopFree old.loopFree reached.costs old.costs
        (cheaper l found)⟩
    · exact ⟨l, (s.offer_other label same).trans found, respects.refl _⟩
  · have old := labelled before
    have better := respects.dearer reached.loopFree old.loopFree reached.costs old.costs no_cheaper
    refine ⟨⟨settled, fun {n l} found => ?_⟩, known, now, better⟩
    by_cases same : m = n
    · subst same
      rw [before] at found
      cases found
      exact ⟨known, now, respects.refl _⟩
    · exact ⟨l, (s.offer_other label same).trans found, respects.refl _⟩

variable {settled : Std.ExtTreeSet NodeId} {here : Label W}

/-- Following an edge out of the node just settled. -/
theorem relax_improves (respects : q.Respects le) (reached : Reached q settled n here)
    (now : s.settled = settled.insert n) (labelled : Labelled q s) {e : EdgeId}
    (out : e ∈ q.graph.outEdges n) :
    Improves le s (relax q here s e) ∧ Offered q le n here.path (relax q here s e) e := by
  obtain ⟨⟨source, target⟩, edge, rfl⟩ := Graph.mem_outEdges.mp out
  unfold relax
  cases weight : q.weight e with
  | none =>
    refine ⟨.refl respects s, fun _ usable => ?_⟩
    rw [weight] at usable
    cases usable
  | some w =>
    simp only [edge]
    by_cases old : target ∈ s.settled
    · rw [if_pos (by simpa using old)]
      refine ⟨.refl respects s, fun edge' _ unsettled => ?_⟩
      rw [edge] at edge'
      cases edge'
      exact absurd old unsettled
    · rw [if_neg (by simpa using old)]
      have extended := reached.extend edge weight (now ▸ old)
      rw [← now] at extended
      obtain ⟨improves, l, found, better⟩ := offer_improves respects labelled extended
      refine ⟨improves, fun edge' _ _ => ?_⟩
      rw [edge] at edge'
      cases edge'
      have path : (⟨here.cost + w, e :: here.trail⟩ : Label W).path = here.path ++ [e] := by
        simp [Label.path]
      exact ⟨l, found, path ▸ better⟩

/-- Following several edges out of it. -/
theorem relaxAll_improves (respects : q.Respects le) (reached : Reached q settled n here)
    {edges : List EdgeId} (out : ∀ e ∈ edges, e ∈ q.graph.outEdges n)
    (now : s.settled = settled.insert n) (labelled : Labelled q s) :
    Improves le s (edges.foldl (relax q here) s) ∧
      ∀ e ∈ edges, Offered q le n here.path (edges.foldl (relax q here) s) e := by
  induction edges generalizing s with
  | nil => exact ⟨.refl respects s, nofun⟩
  | cons e rest ih =>
    obtain ⟨first, later⟩ := List.forall_mem_cons.mp out
    obtain ⟨improves, offered⟩ := relax_improves respects reached now labelled first
    obtain ⟨improves', offered'⟩ :=
      ih later (improves.settled.trans now) (labelled.relax reached now first)
    exact ⟨improves.trans respects improves',
      List.forall_mem_cons.mpr ⟨offered.improves respects improves', offered'⟩⟩

end relaxing

/-- What the search knows at every turn. -/
structure Sound (q : PathQuery W) (le : Path → Path → Prop) (s : Search W) : Prop where
  labelled : Labelled q s
  known : ∀ n ∈ s.settled, n ∈ q.graph.nodes
  begun : q.source ∈ s.settled ∨ ∃ l : Label W, s.frontier[q.source]? = some l
  /-- No way to a settled node is better than the one it was settled with, and from there its edges
  have been offered. -/
  spread : ∀ n ∈ s.settled, ∃ here : Path,
    (∀ p, q.graph.Leads q.source p n → (∀ e ∈ p, (q.weight e).isSome) → le here p) ∧
    ∀ e, Offered q le n here s e

theorem sound_start (q : PathQuery W) (le : Path → Path → Prop) :
    Sound q le (start q.source : Search W) :=
  ⟨labelled_start q, by simp [start], .inr ⟨⟨0, []⟩, by simp [start]⟩, by simp [start]⟩

namespace Sound
variable {q : PathQuery W} {le : Path → Path → Prop} {s : Search W} {n : NodeId} {here : Label W}

/-- A way that goes on from a settled node to an unsettled one crosses the frontier. -/
theorem crossing_from (sound : Sound q le s) (respects : q.Respects le) {a b : NodeId}
    {p p' : Path} (leads : q.graph.Leads q.source p a) (usable : ∀ e ∈ p, (q.weight e).isSome)
    (settled : a ∈ s.settled) (leads' : q.graph.Leads a p' b)
    (usable' : ∀ e ∈ p', (q.weight e).isSome) (unsettled : b ∉ s.settled) :
    ∃ (x : NodeId) (l : Label W), s.frontier[x]? = some l ∧ le l.path (p ++ p') := by
  induction p' generalizing p a with
  | nil =>
    obtain rfl : a = b := leads'
    exact absurd settled unsettled
  | cons e rest ih =>
    obtain ⟨t, edge, leads'⟩ := leads'
    obtain ⟨first, later⟩ := List.forall_mem_cons.mp usable'
    have split : p ++ e :: rest = p ++ [e] ++ rest := by simp
    rw [split]
    by_cases old : t ∈ s.settled
    · have leads := Graph.leads_append.mpr ⟨a, leads, Graph.leads_singleton.mpr edge⟩
      refine ih leads (fun i mem => ?_) old leads' later
      rcases List.mem_append.mp mem with before | now
      · exact usable i before
      · obtain rfl := List.mem_singleton.mp now
        exact first
    · obtain ⟨here, best, offered⟩ := sound.spread a settled
      obtain ⟨l, found, better⟩ := offered e edge first old
      have onward := respects.trans better (respects.snoc e (best p leads usable))
      exact ⟨t, l, found, respects.trans onward (respects.append (p ++ [e]) later)⟩

/-- Every way to an unsettled node crosses the frontier at a label that is no worse. -/
theorem crossing (sound : Sound q le s) (respects : q.Respects le) {b : NodeId} {p : Path}
    (leads : q.graph.Leads q.source p b) (usable : ∀ e ∈ p, (q.weight e).isSome)
    (unsettled : b ∉ s.settled) :
    ∃ (x : NodeId) (l : Label W), s.frontier[x]? = some l ∧ le l.path p := by
  rcases sound.begun with settled | ⟨l, found⟩
  · exact sound.crossing_from respects (p := []) rfl nofun settled leads usable unsettled
  · refine ⟨q.source, l, found, ?_⟩
    rw [(sound.labelled found).path_eq_nil]
    exact respects.append [] usable

/-- No way to the nearest node is better than its label. -/
theorem nearest_best (sound : Sound q le s) (respects : q.Respects le)
    (nearest : nearest s.frontier.toList = some (n, here)) {p : Path}
    (leads : q.graph.Leads q.source p n) (usable : ∀ e ∈ p, (q.weight e).isSome) :
    le here.path p := by
  have reached := sound.labelled (frontier_nearest nearest)
  obtain ⟨x, l, found, better⟩ := sound.crossing respects leads usable reached.outside
  have ways : ∀ y ∈ s.frontier.toList, q.graph.LoopFree y.2.path ∧ q.Costs y.2.path y.2.cost := by
    intro y mem
    have label := sound.labelled (Std.ExtTreeMap.mem_toList_iff_getElem?_eq_some.mp mem)
    exact ⟨label.loopFree, label.costs⟩
  have least := nearest_le respects ways nearest (x, l)
    (Std.ExtTreeMap.mem_toList_iff_getElem?_eq_some.mpr found)
  exact respects.trans least better

/-- Settling the nearest node keeps what is known. -/
theorem settle (sound : Sound q le s) (respects : q.Respects le)
    (source : q.source ∈ q.graph.nodes)
    (nearest : nearest s.frontier.toList = some (n, here)) :
    Sound q le (s.settle q n here) ∧ (s.settle q n here).settled = s.settled.insert n := by
  have reached := sound.labelled (frontier_nearest nearest)
  have kept : ∀ {m : NodeId} {l : Label W}, n ≠ m → s.frontier[m]? = some l →
      (s.frontier.erase n)[m]? = some l := by
    intro m l other found
    rw [Std.ExtTreeMap.getElem?_erase, if_neg (by simpa using other), found]
  obtain ⟨improves, offered⟩ := relaxAll_improves respects reached
    (fun e out => (out : e ∈ q.graph.outEdges n)) rfl (Labelled.erase sound.labelled n)
  have settled : (s.settle q n here).settled = s.settled.insert n := improves.settled
  refine ⟨⟨Labelled.settle sound.labelled (frontier_nearest nearest), ?_, ?_, ?_⟩, settled⟩
  · intro m mem
    rw [settled, Std.ExtTreeSet.mem_insert] at mem
    rcases mem with same | old
    · obtain rfl : n = m := by simpa using same
      exact reached.leads.end_mem_nodes source
    · exact sound.known m old
  · rw [settled]
    rcases sound.begun with old | ⟨l, found⟩
    · exact .inl (by simp [old])
    · by_cases same : n = q.source
      · exact .inl (by simp [same])
      · obtain ⟨l', found', _⟩ := improves.labels (kept same found)
        exact .inr ⟨l', found'⟩
  · intro a mem
    rw [settled, Std.ExtTreeSet.mem_insert] at mem
    by_cases same : n = a
    · subst same
      refine ⟨here.path, fun p => sound.nearest_best respects nearest, fun e => ?_⟩
      intro m edge
      exact offered e (Graph.mem_outEdges.mpr ⟨_, edge, rfl⟩) edge
    · obtain ⟨known, best, spread⟩ := sound.spread a (mem.resolve_left (by simpa using same))
      refine ⟨known, best, fun e m edge usable unsettled => ?_⟩
      rw [settled] at unsettled
      have outside : n ≠ m ∧ m ∉ s.settled := by simpa using unsettled
      obtain ⟨l, found, better⟩ := spread e edge usable outside.2
      obtain ⟨l', found', better'⟩ := improves.labels (kept outside.1 found)
      exact ⟨l', found', respects.trans better' better⟩

/-- Settled nodes are fewer than all nodes as long as one is missing. -/
theorem settled_lt (sound : Sound q le s) {b : NodeId} (node : b ∈ q.graph.nodes)
    (unsettled : b ∉ s.settled) : s.settled.size < q.graph.nodes.size := by
  have distinct : (b :: s.settled.toList).Nodup := by
    exact List.nodup_cons.mpr ⟨by simpa using unsettled, nodup_toList s.settled⟩
  have shorter := q.graph.length_le_nodes distinct <| List.forall_mem_cons.mpr
    ⟨node, fun x mem => sound.known x (Std.ExtTreeSet.mem_toList.mp mem)⟩
  simp only [List.length_cons, Std.ExtTreeSet.length_toList] at shorter
  omega

/-- The search answers with a best label, and with none only if no path leads to the target. Each
turn settles one more node, so the turns do not run out. -/
theorem run (sound : Sound q le s) (respects : q.Respects le)
    (source : q.source ∈ q.graph.nodes) (target : q.target ∈ q.graph.nodes)
    (unsettled : q.target ∉ s.settled) {limit : Nat}
    (enough : q.graph.nodes.size ≤ s.settled.size + limit) :
    match Search.run q limit s with
    | some l => ∀ p, q.Joins p → le l.path p
    | none => ∀ p, ¬q.Joins p := by
  induction limit generalizing s with
  | zero =>
    have fewer := sound.settled_lt target unsettled
    omega
  | succ limit ih =>
    unfold Search.run
    cases found : Search.nearest s.frontier.toList with
    | none =>
      rintro p ⟨leads, usable⟩
      obtain ⟨x, l, label, _⟩ := sound.crossing respects leads usable unsettled
      have listed := Std.ExtTreeMap.mem_toList_iff_getElem?_eq_some.mpr label
      rw [nearest_eq_none found] at listed
      cases listed
    | some entry =>
      obtain ⟨n, here⟩ := entry
      dsimp only
      by_cases arrived : n = q.target
      · subst arrived
        rw [if_pos rfl]
        exact fun p joins => sound.nearest_best respects found joins.leads joins.usable
      · rw [if_neg arrived]
        obtain ⟨sound', settled⟩ := sound.settle respects source found
        have outside := (sound.labelled (frontier_nearest found)).outside
        refine ih sound' ?_ ?_
        · rw [settled]
          simp [unsettled, arrived]
        · rw [settled, Std.ExtTreeSet.size_insert, if_neg (by simpa using outside)]
          omega

end Sound
end Search

namespace PathQuery
open Search
variable [Weight W] {q : PathQuery W} {size : EdgeId → ℚ}

/-- No chain of usable edges is better than the answer, in any order that the costs agree with. -/
theorem shortest?_best {le : Path → Path → Prop} (respects : q.Respects le) {c : W} {p : Path}
    (found : q.shortest? = some (c, p)) {p' : Path} (joins : q.Joins p') : le p p' := by
  unfold shortest? at found
  split at found
  · cases found
  · rename_i askable
    simp only [not_or, not_not] at askable
    obtain ⟨apart, source, target⟩ := askable
    have run := (sound_start q le).run respects source target (by simp [start])
      (Nat.le_add_left _ _)
    obtain ⟨l, label, same⟩ := Option.map_eq_some_iff.mp found
    rw [label] at run
    cases same
    exact run p' joins

/-- There is an answer wherever something can be asked and some chain leads to the target. -/
theorem shortest?_isSome (apart : q.source ≠ q.target) (source : q.source ∈ q.graph.nodes)
    (target : q.target ∈ q.graph.nodes) {p : Path} (joins : q.Joins p) : q.shortest?.isSome := by
  have run := (sound_start q _).run (respects_alike q) source target (by simp [start])
    (Nat.le_add_left _ _)
  have askable : ¬(q.source = q.target ∨ q.source ∉ q.graph.nodes ∨ q.target ∉ q.graph.nodes) := by
    tauto
  unfold shortest?
  rw [if_neg askable, Option.isSome_map]
  cases answer : Search.run q q.graph.nodes.size (start q.source) with
  | some l => rfl
  | none =>
    rw [answer] at run
    exact absurd joins (run p)

/-- Without an answer there is no loop-free path. -/
theorem shortest?_eq_none (missing : q.shortest? = none) (p : Path) : ¬q.Simple p := by
  intro simple
  obtain ⟨source, target⟩ := simple.ends_mem
  have found := shortest?_isSome simple.source_ne_target source target simple.joins
  rw [missing] at found
  cases found

/-- For every graph and all weights there is an answer exactly when the source and the target are
two nodes of the graph and some chain of usable edges leads from the one to the other. The answer
is such a chain that comes to no node twice, with the sum of its weights from the left. If the sums
along the loop-free ways are exact, no chain is shorter, and none with an exact sum costs less. -/
theorem shortest?_correct (q : PathQuery W) :
    (q.shortest?.isSome ↔ q.source ≠ q.target ∧ q.source ∈ q.graph.nodes ∧
      q.target ∈ q.graph.nodes ∧ ∃ p, q.Joins p) ∧
    ∀ c p, q.shortest? = some (c, p) →
      q.Joins p ∧ (q.source :: q.graph.stops p).Nodup ∧ q.Costs p c ∧
      ∀ (ways : Path → Prop) (size : EdgeId → ℚ), q.ExactOn ways size →
        (∀ p', q.graph.LoopFree p' → (∀ e ∈ p', (q.weight e).isSome) → ways p') →
        ∀ p', q.Joins p' → sizeSum size p ≤ sizeSum size p' ∧
          (ways p' → ∀ c', q.Costs p' c' → ¬c' < c) := by
  refine ⟨⟨fun found => ?_, fun ⟨apart, source, target, p, joins⟩ =>
    shortest?_isSome apart source target joins⟩, fun c p found => ?_⟩
  · obtain ⟨⟨c, p⟩, found⟩ := Option.isSome_iff_exists.mp found
    have simple := (simple_of_shortest? found).1
    exact ⟨simple.source_ne_target, simple.ends_mem.1, simple.ends_mem.2, p, simple.joins⟩
  · obtain ⟨simple, costs⟩ := simple_of_shortest? found
    refine ⟨simple.joins, simple.distinct, costs, fun ways size exact loopFree p' joins => ?_⟩
    have shorter := shortest?_best (exact.respects loopFree) found joins
    refine ⟨shorter, fun way' c' costs' cheaper => ?_⟩
    have way := loopFree p simple.loopFree simple.usable
    exact not_lt.mpr shorter ((exact.lt_iff way' way costs' costs).mp cheaper)

/-- Two edges side by side and a third that goes on from them, a dear one past them, a loop, and a
way back that may not be used. -/
def sideStreets : PathQuery ℚ where
  graph := .ofEdges [(0, ⟨0, 1⟩), (1, ⟨0, 1⟩), (2, ⟨1, 2⟩), (3, ⟨0, 2⟩), (4, ⟨1, 1⟩), (5, ⟨2, 0⟩)]
  weight e := ([3, 1, 1, 5, 0][e]?).map ((↑) : ℕ → ℚ)
  source := 0
  target := 2

/-- The cheaper one of the parallel edges is taken. No chain sums up to less, however often it goes
through the loop, and no chain leads back. -/
theorem shortest?_correct_sideStreets :
    let n : EdgeId → ℕ := fun e => ([3, 1, 1, 5, 0][e]?).getD 0
    sideStreets.shortest? = some (2, [1, 2]) ∧
      (∀ p, sideStreets.Joins p → 2 ≤ (p.map n).sum ∧
        ((p.map n).sum ≤ 2 ^ 53 → ∀ c, sideStreets.Costs p c → ¬c < 2)) ∧
      ¬∃ p, { sideStreets with source := 2, target := 0 }.Joins p := by
  intro n
  have found : sideStreets.shortest? = some (2, [1, 2]) := by decide +kernel
  have small : ∀ e, n e ≤ 5 := getD_listed_le (by decide)
  have exact : sideStreets.ExactOn (fun p => (p.map n).sum ≤ 2 ^ 53) fun e => n e := by
    refine exactOn_whole (Exact.wholeUpTo _) fun {e w} weight => ?_
    obtain ⟨k, listed, rfl⟩ := Option.map_eq_some_iff.mp weight
    exact ⟨Nat.le_trans (small e) (by decide), by simp [n, listed]⟩
  have within : ∀ p, sideStreets.graph.LoopFree p → (∀ e ∈ p, (sideStreets.weight e).isSome) →
      (p.map n).sum ≤ 2 ^ 53 := by
    intro p loopFree _
    have short : p.length ≤ sideStreets.graph.nodes.size - 1 := loopFree.length_le
    have nodes : sideStreets.graph.nodes.size = 3 := by decide +kernel
    have sum_le : (p.map n).sum ≤ p.length * 5 := sum_map_le fun e _ => small e
    omega
  obtain ⟨-, -, -, best⟩ := (shortest?_correct sideStreets).2 2 [1, 2] found
  refine ⟨found, fun p joins => ?_, fun chain => ?_⟩
  · obtain ⟨shorter, dearer⟩ := best _ _ exact within p joins
    rw [sizeSum_natCast, sizeSum_natCast] at shorter
    exact ⟨by exact_mod_cast shorter, dearer⟩
  · have back := (shortest?_correct { sideStreets with source := 2, target := 0 }).1.mpr
      ⟨by decide, by decide +kernel, by decide +kernel, chain⟩
    revert back
    decide +kernel

end PathQuery
end FlowAdmission
