import FlowAdmission.Proofs.Graph.Detours
import FlowAdmission.Proofs.WholeDoubles
import Mathlib.Data.Fintype.BigOperators
import Mathlib.Data.Fintype.Pi

/-!
# The enumeration ranks all paths

The calls for a next path answer with every loop-free path once, and with nothing from then on. With
exact sums they come by cost (`PathQuery.answers_ranked`). Which paths there are does not depend on
the weights, and in what order they come only as far as the costs agree with an order
(`PathQuery.exists_answers`).

Before a call all roots of the yielded paths are covered, except perhaps those of the latest: a best
detour from the root waits (`PathQuery.Reaches`). The call covers the latest path's roots too
(`expand_covers`). Since every path left is a detour from a covered root, the first that waits is a
best of all paths left.
-/
namespace FlowAdmission
namespace PathQuery
variable {W : Type} {q : PathQuery W} {pays : Path → W → Prop} {le : Path → Path → Prop}
  {yielded : List Path}

/-- A loop-free path has fewer edges than there are nodes. -/
theorem Simple.length_lt {p : Path} (simple : q.Simple p) : p.length < q.graph.nodes.size :=
  simple.loopFree.length_lt simple.nonempty

/-- Loop-free paths are told apart by their first edges, one for each node. -/
theorem length_le_pathBound (simple : ∀ y ∈ yielded, q.Simple y) (distinct : yielded.Nodup) :
    yielded.length ≤ q.pathBound := by
  let edges : Finset EdgeId := q.graph.edges.keys.toFinset
  let places : Finset (Fin q.graph.nodes.size → Option EdgeId) :=
    Fintype.piFinset fun _ => insert none (edges.image some)
  have places_card : places.card ≤ q.pathBound := by
    have edges_card : edges.card ≤ q.graph.edges.size := by
      rw [← Std.ExtTreeMap.length_keys]
      exact List.toFinset_card_le _
    have choices : (insert none (edges.image some)).card ≤ q.graph.edges.size + 1 := by
      refine (Finset.card_insert_le _ _).trans (Nat.succ_le_succ ?_)
      exact Finset.card_image_le.trans edges_card
    rw [Fintype.card_piFinset_const]
    exact Nat.pow_le_pow_left choices _
  have placed : ∀ p ∈ yielded.toFinset, (fun i : Fin _ => p[i.val]?) ∈ places := by
    intro p mem
    have simple := simple p (List.mem_toFinset.mp mem)
    refine Fintype.mem_piFinset.mpr fun i => ?_
    cases found : p[i.val]? with
    | none => exact Finset.mem_insert_self _ _
    | some e =>
      obtain ⟨edge, known, _⟩ := simple.leads.edge_of_mem (List.mem_of_getElem? found)
      have key : e ∈ q.graph.edges.keys := by
        rw [Std.ExtTreeMap.mem_keys, ← Std.ExtTreeMap.isSome_getElem?_iff_mem]
        exact Option.isSome_iff_exists.mpr ⟨edge, known⟩
      exact Finset.mem_insert_of_mem (Finset.mem_image_of_mem _ (List.mem_toFinset.mpr key))
  have apart : ∀ p ∈ yielded.toFinset, ∀ p' ∈ yielded.toFinset,
      (fun i : Fin q.graph.nodes.size => p[i.val]?) = (fun i => p'[i.val]?) → p = p' := by
    intro p mem p' mem' same
    have short := (simple p (List.mem_toFinset.mp mem)).length_lt
    have short' := (simple p' (List.mem_toFinset.mp mem')).length_lt
    refine List.ext_getElem? fun n => ?_
    by_cases inside : n < q.graph.nodes.size
    · exact congrFun same ⟨n, inside⟩
    · rw [List.getElem?_eq_none (by omega), List.getElem?_eq_none (by omega)]
  rw [← List.toFinset_card_of_nodup distinct]
  exact (Finset.card_le_card_of_injOn _ placed apart).trans places_card

/-! ### What waits -/

section waiting
variable [Weight W] {latest root : Path} {earlier : List Path} {waiting : List (W × Path)}

/-- Loop-free paths with what they pay wait in their order, none twice and none that was yielded. -/
structure Waiting (q : PathQuery W) (pays : Path → W → Prop) (le : Path → Path → Prop)
    (yielded : List Path) (waiting : List (W × Path)) : Prop where
  simple : ∀ item ∈ waiting, q.Simple item.2
  pay : ∀ item ∈ waiting, pays item.2 item.1
  fresh : ∀ item ∈ waiting, item.2 ∉ yielded
  distinct : (waiting.map (·.2)).Nodup
  sorted : waiting.Pairwise fun a b => le a.2 b.2

/-- If detours leave the root, a best of them waits. -/
def Covers (q : PathQuery W) (le : Path → Path → Prop) (yielded : List Path)
    (waiting : List (W × Path)) (root : Path) : Prop :=
  ∀ p, q.Detour yielded root p →
    ∃ item ∈ waiting, q.Detour yielded root item.2 ∧ le item.2 p

omit [Weight W] in
theorem Covers.mono {waiting' : List (W × Path)} (covers : q.Covers le yielded waiting root)
    (subset : waiting ⊆ waiting') : q.Covers le yielded waiting' root := by
  intro p detour
  obtain ⟨item, mem, detour', better⟩ := covers p detour
  exact ⟨item, subset mem, detour', better⟩

theorem mem_enqueue {item other : W × Path} :
    other ∈ enqueue item waiting ↔ other = item ∨ other ∈ waiting := by
  unfold enqueue
  rw [(insertStable_perm _ item waiting).mem_iff, List.mem_cons]

theorem Waiting.enqueue (ranks : q.Ranks pays le) (waits : Waiting q pays le yielded waiting)
    {item : W × Path} (simple : q.Simple item.2) (pay : pays item.2 item.1)
    (fresh : item.2 ∉ yielded) (new : item.2 ∉ waiting.map (·.2)) :
    Waiting q pays le yielded (enqueue item waiting) := by
  have perm := insertStable_perm (fun a b => decide (a.1 < b.1)) item waiting
  constructor
  · intro other mem
    rcases mem_enqueue.mp mem with rfl | old
    · exact simple
    · exact waits.simple other old
  · intro other mem
    rcases mem_enqueue.mp mem with rfl | old
    · exact pay
    · exact waits.pay other old
  · intro other mem
    rcases mem_enqueue.mp mem with rfl | old
    · exact fresh
    · exact waits.fresh other old
  · apply (perm.map _).nodup_iff.mpr
    exact List.nodup_cons.mpr ⟨new, waits.distinct⟩
  · refine insertStable_pairwise ranks.respects.trans ?_ ?_ waits.sorted
    · intro other mem cheaper
      exact ranks.cheaper simple (waits.simple other mem) pay (waits.pay other mem)
        (by simpa using cheaper)
    · intro other mem no_cheaper
      exact ranks.dearer simple (waits.simple other mem) pay (waits.pay other mem)
        (by simpa using no_cheaper)

/-- Queueing a detour covers its root. -/
theorem queueDetour_covers (ranks : q.Ranks pays le)
    (simple : ∀ y ∈ latest :: earlier, q.Simple y) {i : Nat} (within : i < latest.length)
    (waits : Waiting q pays le (latest :: earlier) waiting) :
    let after := q.queueDetour latest earlier (q.source :: q.graph.stops latest) waiting i
    Waiting q pays le (latest :: earlier) after ∧ waiting ⊆ after ∧
      q.Covers le (latest :: earlier) after (latest.take i) := by
  have simple_latest := simple latest List.mem_cons_self
  unfold queueDetour
  cases found : q.detour? (latest :: earlier) latest (q.source :: q.graph.stops latest) i with
  | none =>
    refine ⟨waits, List.Subset.refl _, fun p detour => ?_⟩
    exact absurd detour (detour?_none simple simple_latest within found p)
  | some item =>
    obtain ⟨detour, pay, best⟩ := detour?_some ranks simple simple_latest within found
    dsimp only
    by_cases known : item.2 ∈ latest :: earlier ∨ item.2 ∈ waiting.map (·.2)
    · rw [if_pos known]
      refine ⟨waits, List.Subset.refl _, fun p other => ?_⟩
      obtain ⟨same, mem, path⟩ := List.mem_map.mp (known.resolve_left detour.not_mem)
      have path : same.2 = item.2 := path
      exact ⟨same, mem, path ▸ detour, path ▸ best p other⟩
    · rw [if_neg known]
      rw [not_or] at known
      refine ⟨waits.enqueue ranks detour.simple pay known.1 known.2,
        fun other old => mem_enqueue.mpr (.inr old), fun p other => ?_⟩
      exact ⟨item, mem_enqueue.mpr (.inl rfl), detour, best p other⟩

/-- After the expansion every root of the latest path is covered. -/
theorem expand_covers (ranks : q.Ranks pays le)
    (simple : ∀ y ∈ latest :: earlier, q.Simple y)
    (waits : Waiting q pays le (latest :: earlier) waiting) :
    Waiting q pays le (latest :: earlier) (q.expand latest earlier waiting) ∧
      waiting ⊆ q.expand latest earlier waiting ∧
      ∀ root e, root ++ [e] <+: latest →
        q.Covers le (latest :: earlier) (q.expand latest earlier waiting) root := by
  have simple_latest := simple latest List.mem_cons_self
  let nodes := q.source :: q.graph.stops latest
  have turns : ∀ n ≤ latest.length,
      let after := (List.range n).foldl (queueDetour q latest earlier nodes) waiting
      Waiting q pays le (latest :: earlier) after ∧ waiting ⊆ after ∧
        ∀ i < n, q.Covers le (latest :: earlier) after (latest.take i) := by
    intro n bound
    induction n with
    | zero => exact ⟨waits, List.Subset.refl _, by omega⟩
    | succ n ih =>
      obtain ⟨waits, kept, covers⟩ := ih (by omega)
      obtain ⟨waits', kept', covers'⟩ := queueDetour_covers ranks simple bound waits
      rw [List.range_succ, List.foldl_append]
      refine ⟨waits', List.Subset.trans kept kept', fun i turn => ?_⟩
      rcases Nat.lt_succ_iff_lt_or_eq.mp turn with before | rfl
      · exact (covers i before).mono kept'
      · exact covers'
  obtain ⟨waits', kept, covers⟩ := turns latest.length (by omega)
  have expanded : q.expand latest earlier waiting =
      (List.range latest.length).foldl (queueDetour q latest earlier nodes) waiting := by
    unfold expand
    rw [simple_latest.leads.pathNodes? simple_latest.nonempty]
  rw [expanded]
  refine ⟨waits', kept, fun root e goes_on => ?_⟩
  obtain ⟨more, rfl⟩ := goes_on
  simpa using covers root.length (by simp)

end waiting

/-! ### The calls -/

section calls
variable [Weight W] {state : Enumeration W}

/-- The enumeration has come to `state` when the paths `yielded` are out, the latest first. -/
inductive Reaches (q : PathQuery W) (pays : Path → W → Prop) (le : Path → Path → Prop) :
    List Path → Enumeration W → Prop where
  | fresh : Reaches q pays le [] .fresh
  | active {latest : Path} {earlier : List Path} {waiting : List (W × Path)}
    (simple : ∀ y ∈ latest :: earlier, q.Simple y)
    (waits : Waiting q pays le (latest :: earlier) waiting)
    (covered : ∀ y ∈ latest :: earlier, ∀ root e, root ++ [e] <+: y →
      (∃ e', root ++ [e'] <+: latest) ∨ q.Covers le (latest :: earlier) waiting root) :
    Reaches q pays le (latest :: earlier) (.active latest earlier waiting)
  | exhausted {yielded : List Path} (complete : ∀ p, q.Simple p → p ∈ yielded) :
    Reaches q pays le yielded .exhausted

/-- The next path is a best one of those left. -/
structure Follows (q : PathQuery W) (pays : Path → W → Prop) (le : Path → Path → Prop)
    (yielded : List Path) (item : W × Path) : Prop where
  simple : q.Simple item.2
  pay : pays item.2 item.1
  fresh : item.2 ∉ yielded
  best : ∀ p, q.Simple p → p ∉ yielded → le item.2 p

omit [Weight W] in
/-- After the expansion a path waits that is as good as any of those left. -/
theorem exists_waiting_le {latest : Path} {earlier : List Path} {waiting : List (W × Path)}
    (simple : ∀ y ∈ latest :: earlier, q.Simple y)
    (covered : ∀ y ∈ latest :: earlier, ∀ root e, root ++ [e] <+: y →
      q.Covers le (latest :: earlier) waiting root) {p : Path} (simple_p : q.Simple p)
    (left : p ∉ latest :: earlier) :
    ∃ item ∈ waiting, le item.2 p := by
  obtain ⟨root, ⟨y, old, e, goes_on⟩, detour⟩ :=
    exists_detour simple (List.cons_ne_nil _ _) simple_p left
  obtain ⟨item, mem, _, better⟩ := covered y old root e goes_on p detour
  exact ⟨item, mem, better⟩

/-- The first that waits is next, and the roots that it does not share stay covered. -/
theorem Waiting.pop (ranks : q.Ranks pays le) {item : W × Path} {waiting : List (W × Path)}
    {latest : Path} {earlier : List Path} (simple : ∀ y ∈ latest :: earlier, q.Simple y)
    (waits : Waiting q pays le (latest :: earlier) (item :: waiting))
    (covered : ∀ y ∈ latest :: earlier, ∀ root e, root ++ [e] <+: y →
      q.Covers le (latest :: earlier) (item :: waiting) root) :
    Follows q pays le (latest :: earlier) item ∧
      Reaches q pays le (item.2 :: latest :: earlier)
        (.active item.2 (latest :: earlier) waiting) := by
  obtain ⟨simple_item, simple_rest⟩ := List.forall_mem_cons.mp waits.simple
  obtain ⟨pay_item, pay_rest⟩ := List.forall_mem_cons.mp waits.pay
  obtain ⟨fresh_item, fresh_rest⟩ := List.forall_mem_cons.mp waits.fresh
  obtain ⟨first_once, distinct⟩ := List.nodup_cons.mp waits.distinct
  obtain ⟨first_best, sorted⟩ := List.pairwise_cons.mp waits.sorted
  refine ⟨⟨simple_item, pay_item, fresh_item, fun p simple_p left => ?_⟩, .active ?_ ?_ ?_⟩
  · obtain ⟨other, mem, better⟩ := exists_waiting_le simple covered simple_p left
    rcases List.mem_cons.mp mem with rfl | later
    · exact better
    · exact ranks.respects.trans (first_best other later) better
  · exact List.forall_mem_cons.mpr ⟨simple_item, simple⟩
  · refine ⟨simple_rest, pay_rest, fun other mem again => ?_, distinct, sorted⟩
    rcases List.mem_cons.mp again with same | old
    · exact first_once (List.mem_map.mpr ⟨other, mem, same⟩)
    · exact fresh_rest other mem old
  · intro y old root e goes_on
    by_cases shared : ∃ e', root ++ [e'] <+: item.2
    · exact .inl shared
    · right
      have covers : q.Covers le (latest :: earlier) (item :: waiting) root := by
        rcases List.mem_cons.mp old with rfl | before
        · exact absurd ⟨e, goes_on⟩ shared
        · exact covered y before root e goes_on
      intro p detour
      -- Where the popped path does not share the root, it took no edge away from the detours.
      have same_detours : ∀ {p}, q.Detour (latest :: earlier) root p →
          q.Detour (item.2 :: latest :: earlier) root p := by
        intro p ⟨simple_p, i, on, new⟩
        refine ⟨simple_p, i, on, List.forall_mem_cons.mpr ⟨fun taken => ?_, new⟩⟩
        exact shared ⟨i, taken⟩
      obtain ⟨simple_p, i, on, new⟩ := detour
      obtain ⟨other, mem, detour', better⟩ :=
        covers p ⟨simple_p, i, on, fun y mem => new y (List.mem_cons_of_mem _ mem)⟩
      rcases List.mem_cons.mp mem with rfl | later
      · obtain ⟨i, on, _⟩ := detour'.leaves
        exact absurd ⟨i, on⟩ shared
      · exact ⟨other, later, same_detours detour', better⟩

/-- One call: either all paths are out, or the next one follows. -/
theorem Reaches.next (ranks : q.Ranks pays le) (reaches : Reaches q pays le yielded state) :
    (∃ item, (q.next state).1 = some item ∧ Follows q pays le yielded item ∧
      Reaches q pays le (item.2 :: yielded) (q.next state).2) ∨
    (q.next state = (none, .exhausted) ∧ ∀ p, q.Simple p → p ∈ yielded) := by
  cases reaches with
  | fresh =>
    unfold PathQuery.next
    cases found : q.shortest? with
    | none => exact .inr ⟨rfl, fun p simple => absurd simple (shortest?_eq_none found p)⟩
    | some item =>
      obtain ⟨simple, costs⟩ := simple_of_shortest? found
      refine .inl ⟨item, rfl, ⟨simple, ranks.pays_of_costs costs, List.not_mem_nil, ?_⟩,
        .active ?_ ⟨nofun, nofun, nofun, List.nodup_nil, .nil⟩ ?_⟩
      · exact fun p simple_p _ => shortest?_best ranks.respects found simple_p.joins
      · exact List.forall_mem_singleton.mpr simple
      · intro y mem root e goes_on
        obtain rfl := List.mem_singleton.mp mem
        exact .inl ⟨e, goes_on⟩
  | exhausted complete => exact .inr ⟨rfl, complete⟩
  | active simple waits covered =>
    rename_i latest earlier waiting
    obtain ⟨waits', kept, covers⟩ := expand_covers ranks simple waits
    have covered' : ∀ y ∈ latest :: earlier, ∀ root e, root ++ [e] <+: y →
        q.Covers le (latest :: earlier) (q.expand latest earlier waiting) root := by
      intro y mem root e goes_on
      rcases covered y mem root e goes_on with ⟨e', shared⟩ | before
      · exact covers root e' shared
      · exact before.mono kept
    unfold PathQuery.next
    dsimp only
    cases expanded : q.expand latest earlier waiting with
    | nil =>
      refine .inr ⟨rfl, fun p simple_p => ?_⟩
      by_contra left
      rw [expanded] at covered'
      obtain ⟨item, mem, _⟩ := exists_waiting_le simple covered' simple_p left
      cases mem
    | cons item rest =>
      rw [expanded] at waits' covered'
      obtain ⟨follows, reaches⟩ := waits'.pop ranks simple covered'
      exact .inl ⟨item, rfl, follows, reaches⟩

/-- What the calls from a state on answer, by number. -/
def answers (q : PathQuery W) : Enumeration W → Nat → Option (W × Path)
  | state, 0 => (q.next state).1
  | state, n + 1 => answers q (q.next state).2 n

theorem answers_exhausted (q : PathQuery W) (n : Nat) : q.answers .exhausted n = none := by
  induction n with
  | zero => rfl
  | succ n ih => exact ih

/-- Calls answer with the paths left in their order, and then with nothing. -/
theorem Reaches.answers {yielded : List Path} {state : Enumeration W}
    (ranks : q.Ranks pays le) (reaches : Reaches q pays le yielded state)
    (simple : ∀ y ∈ yielded, q.Simple y) (distinct : yielded.Nodup) :
    ∃ items : List (W × Path), (∀ n, q.answers state n = items[n]?) ∧
      (items.map (·.2) ++ yielded).Nodup ∧
      (∀ item ∈ items, q.Simple item.2 ∧ pays item.2 item.1) ∧
      (∀ p, q.Simple p → p ∈ items.map (·.2) ++ yielded) ∧
      items.Pairwise fun a b => le a.2 b.2 := by
  rcases reaches.next ranks with ⟨item, answer, follows, reaches'⟩ | ⟨ended, complete⟩
  · have simple' := List.forall_mem_cons.mpr ⟨follows.simple, simple⟩
    have distinct' := List.nodup_cons.mpr ⟨follows.fresh, distinct⟩
    -- One path more is out, and the paths that can be out are bounded.
    have bound : yielded.length < q.pathBound := length_le_pathBound simple' distinct'
    obtain ⟨items, answers, apart, right, complete, sorted⟩ :=
      Reaches.answers ranks reaches' simple' distinct'
    refine ⟨item :: items, fun n => ?_, ?_, ?_, fun p simple_p => ?_, ?_⟩
    · cases n with
      | zero => exact answer
      | succ n => exact answers n
    · exact List.perm_middle.nodup_iff.mp apart
    · exact List.forall_mem_cons.mpr ⟨⟨follows.simple, follows.pay⟩, right⟩
    · exact List.perm_middle.mem_iff.mp (complete p simple_p)
    · refine List.pairwise_cons.mpr ⟨fun other mem => ?_, sorted⟩
      refine follows.best other.2 (right other mem).1 fun old => ?_
      have separate := (List.nodup_append.mp apart).2.2
      exact separate _ (List.mem_map_of_mem mem) _ (List.mem_cons_of_mem _ old) rfl
  · refine ⟨[], fun n => ?_, by simpa using distinct, nofun, by simpa using complete, .nil⟩
    cases n with
    | zero => rw [PathQuery.answers, ended, List.getElem?_nil]
    | succ n => rw [PathQuery.answers, ended, answers_exhausted, List.getElem?_nil]
termination_by q.pathBound - yielded.length

/-- The calls of a new enumeration answer with all loop-free paths in their order, each once, and
with nothing from then on. -/
theorem exists_answers (ranks : q.Ranks pays le) :
    ∃ items : List (W × Path), (∀ n, q.answers .fresh n = items[n]?) ∧ (items.map (·.2)).Nodup ∧
      (∀ p, p ∈ items.map (·.2) ↔ q.Simple p) ∧ (∀ item ∈ items, pays item.2 item.1) ∧
      items.Pairwise fun a b => le a.2 b.2 := by
  obtain ⟨items, answers, distinct, right, complete, sorted⟩ :=
    Reaches.fresh.answers ranks nofun List.nodup_nil
  rw [List.append_nil] at distinct
  simp only [List.append_nil] at complete
  refine ⟨items, answers, distinct, fun p => ⟨fun listed => ?_, complete p⟩,
    fun item mem => (right item mem).2, sorted⟩
  obtain ⟨item, mem, rfl⟩ := List.mem_map.mp listed
  exact (right item mem).1

/-- All loop-free paths that a query asks for, each once, with their costs and by cost. -/
structure Ranking (q : PathQuery W) (items : List (W × Path)) : Prop where
  distinct : (items.map (·.2)).Nodup
  mem_iff : ∀ p, p ∈ items.map (·.2) ↔ q.Simple p
  costs : ∀ item ∈ items, q.Costs item.2 item.1
  sorted : items.Pairwise fun a b => ¬b.1 < a.1

/-- The calls of a new enumeration answer with all loop-free paths by cost, and with nothing from
then on. No such path joins a node to itself. -/
theorem answers_ranked {size : EdgeId → ℚ} (exact : q.ExactSums size) :
    ∃ items : List (W × Path), q.Ranking items ∧ (∀ n, q.answers .fresh n = items[n]?) ∧
      (q.source = q.target → items = []) := by
  obtain ⟨items, answers, distinct, mem_iff, costs, sorted⟩ := exists_answers exact.ranks
  have simple : ∀ item ∈ items, q.Simple item.2 :=
    fun item mem => (mem_iff item.2).mp (List.mem_map_of_mem mem)
  refine ⟨items, ⟨distinct, mem_iff, costs, ?_⟩, answers, fun same => ?_⟩
  · refine sorted.imp_of_mem fun {a b} mem_a mem_b shorter cheaper => ?_
    rw [exact.lt_iff (simple b mem_b).loopFree (simple a mem_a).loopFree (costs b mem_b)
      (costs a mem_a)] at cheaper
    exact not_le.mpr cheaper shorter
  · cases items with
    | nil => rfl
    | cons item rest => exact absurd same (simple item List.mem_cons_self).source_ne_target

/-- Two edges side by side and a way around over a node between. -/
def sideBySide : PathQuery Float where
  graph := .ofEdges [(0, ⟨0, 1⟩), (1, ⟨0, 1⟩), (2, ⟨0, 2⟩), (3, ⟨2, 1⟩), (4, ⟨1, 0⟩)]
  weight := fun e => ([2, 1, 0, 1, 0][e]?).map Float.ofNat
  source := 0
  target := 1

theorem answers_ranked_sideBySide :
    ∃ items : List (Float × Path), sideBySide.Ranking items ∧
      (∀ n, sideBySide.answers .fresh n = items[n]?) ∧ items.length = 3 := by
  let n : EdgeId → ℕ := fun e => ([2, 1, 0, 1, 0][e]?).getD 0
  have small : ∀ e, n e ≤ 2 := getD_listed_le (by decide)
  have exact : sideBySide.ExactSums fun e => n e := by
    refine exactSums_whole (Double.wholeUpTo (by decide : 4 ≤ 2 ^ 53)) (fun {e w} weight => ?_)
      fun {p} loopFree _ => ?_
    · obtain ⟨k, listed, rfl⟩ := Option.map_eq_some_iff.mp weight
      refine ⟨Nat.le_trans (small e) (by decide), ?_⟩
      simp only [n, listed]
      rfl
    · have short : p.length ≤ sideBySide.graph.nodes.size - 1 := loopFree.length_le
      have nodes : sideBySide.graph.nodes.size = 3 := by decide +kernel
      have sum_le : (p.map n).sum ≤ p.length * 2 := sum_map_le fun e _ => small e
      omega
  obtain ⟨items, ranking, answers, _⟩ := answers_ranked exact
  refine ⟨items, ranking, answers, ?_⟩
  have last : (sideBySide.answers .fresh 2).map (·.2) = some [0] := by decide +kernel
  have ended : (sideBySide.answers .fresh 3).map (·.2) = none := by decide +kernel
  rw [answers] at last ended
  obtain ⟨item, found, _⟩ := Option.map_eq_some_iff.mp last
  obtain ⟨more, _⟩ := List.getElem?_eq_some_iff.mp found
  have enough := List.getElem?_eq_none_iff.mp (Option.map_eq_none_iff.mp ended)
  omega

end calls
end PathQuery

/-! ### Searches through the answers -/

/-- Runs through a list until `visit` is done. -/
def foldUntil {α β : Type} (visit : β → α → ForInStep β) : β → List α → β
  | b, [] => b
  | b, a :: rest =>
    match visit b a with
    | .done b => b
    | .yield b => foldUntil visit b rest

theorem foldUntil_map {α α' β : Type} (visit : β → α' → ForInStep β) (f : α → α') (xs : List α)
    (b : β) : foldUntil visit b (xs.map f) = foldUntil (fun b a => visit b (f a)) b xs := by
  induction xs generalizing b with
  | nil => rfl
  | cons a rest ih =>
    simp only [List.map_cons, foldUntil]
    split
    · rfl
    · exact ih _

/-- A search that is done at the first item of a kind finds that item. -/
theorem foldUntil_find? {α β : Type} (test : α → Bool) (f : α → β) (xs : List α) :
    foldUntil (fun _ a => if test a then .done (some (f a)) else .yield none) none xs =
      (xs.find? test).map f := by
  induction xs with
  | nil => rfl
  | cons a rest ih => by_cases passed : test a <;> simp [foldUntil, passed, ih]

namespace PathQuery
variable {W β : Type} [Weight W] {q : PathQuery W} {state : Enumeration W}

theorem explore_succ (visit : β → W × Path → ForInStep β) (limit : Nat) (b : β) :
    q.explore visit (limit + 1) b state =
      match (q.next state).1 with
      | none => b
      | some item =>
        match visit b item with
        | .done b => b
        | .yield b => q.explore visit limit b (q.next state).2 := by
  rw [explore]
  rcases q.next state with ⟨_ | item, state⟩ <;> rfl

/-- Exploring runs through the answers. -/
theorem explore_eq_foldUntil {items : List (W × Path)}
    (answers : ∀ n, q.answers state n = items[n]?) (visit : β → W × Path → ForInStep β)
    (limit : Nat) (b : β) :
    q.explore visit limit b state = foldUntil visit b (items.take limit) := by
  induction limit generalizing state items b with
  | zero => rfl
  | succ limit ih =>
    have first : (q.next state).1 = items[0]? := answers 0
    rw [explore_succ, first]
    cases items with
    | nil => rfl
    | cons item rest =>
      have later : ∀ n, q.answers (q.next state).2 n = rest[n]? := fun n => answers (n + 1)
      simp only [List.getElem?_cons_zero, List.take_succ_cons, foldUntil]
      split
      · rfl
      · exact ih later _

end PathQuery
end FlowAdmission
