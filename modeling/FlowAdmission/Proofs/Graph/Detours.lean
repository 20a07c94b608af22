import FlowAdmission.Proofs.Graph.ShortestPath
import Mathlib.Data.Nat.Find
import FlowAdmission.Graph.RankedPaths

/-!
# Detours

A detour from a root goes on after it by an edge that no yielded path took there
(`PathQuery.Detour`). Every loop-free path that has not been yielded is a detour from a root that
some yielded path goes on from (`exists_detour`).

What a detour query closes leaves just the detours from its root (`simple_detourQuery`), so the
search finds a best one (`detour?_some`, `detour?_none`).

Best is meant in any order of paths that the costs agree with (`PathQuery.Ranks`). With exact sums
that is the order of the sizes; where nothing is known of the costs, all paths may be taken as
alike, and then it is only told which detours there are.
-/
namespace FlowAdmission
namespace PathQuery
variable {W : Type} {q : PathQuery W} {yielded : List Path} {root rest p p' : Path} {e : EdgeId}

/-- A loop-free path that goes on after `root` by an edge none of the yielded paths took there. -/
structure Detour (q : PathQuery W) (yielded : List Path) (root p : Path) : Prop where
  simple : q.Simple p
  leaves : ∃ e, root ++ [e] <+: p ∧ ∀ y ∈ yielded, ¬root ++ [e] <+: y

theorem Detour.not_mem (detour : q.Detour yielded root p) : p ∉ yielded := by
  obtain ⟨e, goes_on, new⟩ := detour.leaves
  exact fun old => new p old goes_on

/-- No loop-free path goes on after another has reached the target. -/
theorem Simple.eq_of_extends (simple : q.Simple p) (simple' : q.Simple p') (shared : p <+: p') :
    p = p' := by
  obtain ⟨more, rfl⟩ := shared
  cases more with
  | nil => rw [List.append_nil]
  | cons e rest =>
    obtain ⟨b, first, second⟩ := Graph.leads_append.mp simple'.leads
    obtain rfl := simple.leads.unique first
    have distinct := (List.nodup_cons.mp simple'.distinct).2
    rw [Graph.stops_append] at distinct
    have arrived := simple.leads.end_mem_stops simple.nonempty
    have again := second.end_mem_stops (List.cons_ne_nil e rest)
    exact absurd rfl ((List.nodup_append.mp distinct).2.2 _ arrived _ again)

/-- A loop-free path that is not yielded forks off from a yielded one. -/
theorem exists_detour (simple : ∀ y ∈ yielded, q.Simple y) (nonempty : yielded ≠ [])
    (simple_p : q.Simple p) (new : p ∉ yielded) :
    ∃ root, (∃ y ∈ yielded, ∃ e, root ++ [e] <+: y) ∧ q.Detour yielded root p := by
  have whole : ∀ y ∈ yielded, ¬p.take p.length <+: y := by
    intro y old shared
    rw [List.take_length] at shared
    rw [simple_p.eq_of_extends (simple y old) shared] at new
    exact new old
  have parted : ∃ n, ∀ y ∈ yielded, ¬p.take n <+: y := ⟨p.length, whole⟩
  have parts := Nat.find_spec parted
  have together := fun n => Nat.find_min (m := n) parted
  -- The shortest beginning of the path that no yielded path shares has a last edge.
  generalize Nat.find parted = first at parts together
  cases first with
  | zero =>
    obtain ⟨y, old⟩ := List.exists_mem_of_ne_nil yielded nonempty
    exact absurd (List.nil_prefix (l := y)) (parts y old)
  | succ n =>
    have shared := together n (by omega)
    simp only [not_forall, not_not] at shared
    obtain ⟨y, old, more, rfl⟩ := shared
    have within : n < p.length := by
      by_contra beyond
      rw [List.take_of_length_le (by omega)] at parts
      rw [List.take_of_length_le (by omega)] at old
      exact parts _ old (List.prefix_append p more)
    rw [List.take_succ_eq_append_getElem within] at parts
    refine ⟨p.take n, ⟨_, old, ?_⟩, simple_p, p[n], ?_, parts⟩
    · cases more with
      | nil =>
        have same := (simple _ old).eq_of_extends simple_p (by simpa using p.take_prefix n)
        rw [same] at old
        exact absurd old new
      | cons e rest => exact ⟨e, rest, by simp⟩
    · rw [← List.take_succ_eq_append_getElem within]
      exact p.take_prefix (n + 1)

theorem mem_continuations {paths : List Path} :
    e ∈ continuations paths root ↔ ∃ y ∈ paths, root ++ [e] <+: y := by
  unfold continuations
  rw [List.mem_filterMap]
  refine exists_congr fun y => and_congr_right fun _ => ?_
  constructor
  · intro goes_on
    split at goes_on
    · rename_i same
      rw [List.prefix_iff_eq_take, List.length_append, List.length_singleton, List.take_add_one,
        same, goes_on]
      rfl
    · cases goes_on
  · rintro ⟨more, rfl⟩
    simp

/-! ### The detour query -/

section query
variable {spur : NodeId} {closed : List EdgeId} {before : List NodeId}

theorem usable_detourQuery :
    ((q.detourQuery spur closed before).weight e).isSome ↔
      (q.weight e).isSome ∧ e ∉ closed ∧
        ∃ edge, q.graph.edge? e = some edge ∧ edge.target ∉ before := by
  unfold detourQuery
  by_cases shut : e ∈ closed
  · simp [shut]
  · cases found : q.graph.edge? e with
    | none => simp [shut, found]
    | some edge =>
      by_cases back : edge.target ∈ before <;> simp [shut, found, back]

theorem weight_detourQuery {w : W}
    (weight : (q.detourQuery spur closed before).weight e = some w) : q.weight e = some w := by
  unfold detourQuery at weight
  dsimp only at weight
  split at weight
  · cases weight
  · split at weight
    · cases weight
    · split at weight
      · cases weight
      · exact weight

/-- The edges that lead on from a node come back to no node of the way there. -/
theorem simple_detourQuery (leads : q.graph.Leads q.source root spur)
    (nodes : q.source :: q.graph.stops root = before ++ [spur])
    (distinct : (before ++ [spur]).Nodup) (usable : ∀ e ∈ root, (q.weight e).isSome)
    (leaving : ∀ e ∈ closed, ∃ t, q.graph.edge? e = some ⟨spur, t⟩) :
    (q.detourQuery spur closed before).Simple rest ↔
      q.Simple (root ++ rest) ∧ ∃ e, [e] <+: rest ∧ e ∉ closed := by
  have joined : q.source :: q.graph.stops (root ++ rest) =
      before ++ spur :: q.graph.stops rest := by
    rw [Graph.stops_append, ← List.cons_append, nodes, List.append_assoc, List.singleton_append]
  constructor
  · rintro ⟨nonempty, leads', distinct', usable'⟩
    refine ⟨⟨by simp [nonempty], Graph.leads_append.mpr ⟨spur, leads, leads'⟩, ?_, ?_⟩, ?_⟩
    · rw [joined]
      refine List.nodup_append.mpr ⟨(List.nodup_append.mp distinct).1, distinct', ?_⟩
      rintro n on_root m on_rest rfl
      rcases List.mem_cons.mp on_rest with rfl | stop
      · exact (List.nodup_append.mp distinct).2.2 _ on_root _ (by simp) rfl
      · obtain ⟨e, mem, target⟩ := List.mem_filterMap.mp stop
        obtain ⟨_, _, edge, found, outside⟩ := usable_detourQuery.mp (usable' e mem)
        have target : (q.graph.edge? e).map (·.target) = some n := target
        rw [found] at target
        cases target
        exact outside on_root
    · intro e mem
      rcases List.mem_append.mp mem with first | later
      · exact usable e first
      · exact (usable_detourQuery.mp (usable' e later)).1
    · cases rest with
      | nil => exact absurd rfl nonempty
      | cons e more =>
        exact ⟨e, List.prefix_append [e] more,
          (usable_detourQuery.mp (usable' e List.mem_cons_self)).2.1⟩
  · rintro ⟨simple, e, ⟨more, rfl⟩, fresh⟩
    obtain ⟨b, first, leads'⟩ := Graph.leads_append.mp simple.leads
    obtain rfl := leads.unique first
    have distinct' := simple.distinct
    rw [joined] at distinct'
    obtain ⟨_, distinct', apart⟩ := List.nodup_append.mp distinct'
    refine ⟨by simp, leads', distinct', fun i mem => usable_detourQuery.mpr ⟨?_, ?_, ?_⟩⟩
    · exact simple.usable i (List.mem_append_right root mem)
    · -- The closed edges leave the spur, and the path comes to the spur only once.
      intro shut
      obtain ⟨t, edge⟩ := leaving i shut
      obtain ⟨t', edge', later⟩ := leads'
      rw [List.singleton_append, Graph.stops_cons edge'] at distinct'
      rcases List.mem_cons.mp mem with rfl | further
      · exact fresh shut
      · obtain ⟨edge'', found, source, _⟩ := later.edge_of_mem further
        rw [edge] at found
        cases found
        exact (List.nodup_cons.mp distinct').1 source
    · obtain ⟨edge, found, _, target⟩ := leads'.edge_of_mem mem
      exact ⟨edge, found, fun back => apart _ back _ (List.mem_cons_of_mem _ target) rfl⟩

/-- Closing edges leaves the costs of the paths without them. -/
theorem costs_detourQuery [Weight W] {c : W} :
    (q.detourQuery spur closed before).Costs p c ↔
      q.Costs p c ∧ ∀ e ∈ p, ((q.detourQuery spur closed before).weight e).isSome := by
  have read : (∀ e ∈ p, ((q.detourQuery spur closed before).weight e).isSome) →
      p.mapM (q.detourQuery spur closed before).weight = p.mapM q.weight := by
    refine fun usable => mapM_congr fun e mem => ?_
    obtain ⟨w, weight⟩ := Option.isSome_iff_exists.mp (usable e mem)
    rw [weight, weight_detourQuery weight]
  constructor
  · intro costs
    have usable := costs.usable
    obtain ⟨ws, weights, rfl⟩ := costs
    rw [read usable] at weights
    exact ⟨⟨ws, weights, rfl⟩, usable⟩
  · rintro ⟨⟨ws, weights, rfl⟩, usable⟩
    exact ⟨ws, (read usable).trans weights, rfl⟩

/-- An order that the costs agree with is one for the narrowed query, too. -/
theorem Respects.detourQuery [Weight W] {le : Path → Path → Prop} (respects : q.Respects le) :
    (q.detourQuery spur closed before).Respects le where
  refl := respects.refl
  trans := respects.trans
  snoc := respects.snoc
  onward p _ usable := respects.onward p (usable_detourQuery.mp usable).1
  cheaper way way' costs costs' :=
    respects.cheaper way way' (costs_detourQuery.mp costs).1 (costs_detourQuery.mp costs').1
  dearer way way' costs costs' :=
    respects.dearer way way' (costs_detourQuery.mp costs).1 (costs_detourQuery.mp costs').1

end query

/-! ### The search for a detour -/

/-- An order of paths that an enumeration can keep to, and what is known of their costs: paths are
ordered as what they pay is compared, and so are the ways on from one root. A root and a way on pay
together what they cost. -/
structure Ranks [Weight W] (q : PathQuery W) (pays : Path → W → Prop) (le : Path → Path → Prop) :
    Prop where
  respects : q.Respects le
  prepend (root : Path) {p p' : Path} : le p p' → le (root ++ p) (root ++ p')
  pays_of_costs {p : Path} {c : W} : q.Costs p c → pays p c
  join {p p' : Path} {c c' : W} : q.graph.LoopFree (p ++ p') → q.Costs p c → q.Costs p' c' →
    pays (p ++ p') (c + c')
  cheaper {p p' : Path} {c c' : W} : q.Simple p → q.Simple p' → pays p c → pays p' c' → c < c' →
    le p p'
  dearer {p p' : Path} {c c' : W} : q.Simple p → q.Simple p' → pays p c → pays p' c' → ¬c < c' →
    le p' p

/-- Whatever the costs are, nothing is claimed of them where all paths are alike. -/
theorem ranks_alike [Weight W] (q : PathQuery W) : q.Ranks (fun _ _ => True) fun _ _ => True where
  respects := q.respects_alike
  prepend _ _ _ _ := trivial
  pays_of_costs _ := trivial
  join _ _ _ := trivial
  cheaper _ _ _ _ _ := trivial
  dearer _ _ _ _ _ := trivial

/-- Where two sums make the sum of all, paths are ranked by an order that the costs agree with and
that keeps to the ways on from one root. -/
theorem Respects.ranks [Weight W] {le : Path → Path → Prop} (respects : q.Respects le)
    (prepend : ∀ (root : Path) {p p' : Path}, le p p' → le (root ++ p) (root ++ p'))
    (join : ∀ {p p' : Path} {c c' : W}, q.graph.LoopFree (p ++ p') → q.Costs p c →
      q.Costs p' c' → q.Costs (p ++ p') (c + c')) : q.Ranks q.Costs le where
  respects := respects
  prepend := prepend
  pays_of_costs costs := costs
  join := join
  cheaper simple simple' := respects.cheaper simple.loopFree simple'.loopFree
  dearer simple simple' := respects.dearer simple.loopFree simple'.loopFree

/-- Exact sums rank the paths by size. -/
theorem ExactSums.ranks [Weight W] {size : EdgeId → ℚ} (exact : q.ExactSums size) :
    q.Ranks q.Costs fun p p' => sizeSum size p ≤ sizeSum size p' :=
  (exact.exactOn.respects fun _ loopFree _ => loopFree).ranks
    (fun root _ _ shorter => by simpa using shorter) exact.add

section search
variable [Weight W] {pays : Path → W → Prop} {le : Path → Path → Prop} {latest : Path} {i : Nat}

/-- The search leaves a loop-free path at the node that the root leads to, and closes the nodes
before. -/
theorem detour?_eq (yielded : List Path) (simple : q.Simple latest) (within : i < latest.length) :
    ∃ (before : List NodeId) (spur : NodeId) (c : W),
      q.graph.Leads q.source (latest.take i) spur ∧
      q.source :: q.graph.stops (latest.take i) = before ++ [spur] ∧
      q.Costs (latest.take i) c ∧
      q.detour? yielded latest (q.source :: q.graph.stops latest) i =
        (q.detourQuery spur (continuations yielded (latest.take i)) before).shortest?.map
          fun answer => (c + answer.1, latest.take i ++ answer.2) := by
  have leads := simple.leads
  rw [← List.take_append_drop i latest] at leads
  obtain ⟨spur, leads, _⟩ := Graph.leads_append.mp leads
  obtain ⟨before, nodes⟩ := List.getLast?_eq_some_iff.mp leads.getLast?
  have length : before.length = i := by
    have counted := congrArg List.length nodes
    simp only [List.length_cons, leads.length_stops, List.length_take, List.length_append,
      List.length_nil] at counted
    omega
  have all : q.source :: q.graph.stops latest =
      before ++ spur :: q.graph.stops (latest.drop i) := by
    rw [← List.take_append_drop i latest, Graph.stops_append, ← List.cons_append, nodes,
      List.take_append_drop, List.append_assoc, List.singleton_append]
  obtain ⟨c, ws, weights, total⟩ :=
    costs_of_usable fun e mem => simple.usable e (List.mem_of_mem_take mem)
  refine ⟨before, spur, c, leads, nodes, ⟨ws, weights, total⟩, ?_⟩
  subst length
  unfold detour?
  rw [all, total]
  simp only [weights, List.getElem?_append_right (Nat.le_refl _), Nat.sub_self,
    List.getElem?_cons_zero, List.take_left, Option.bind_eq_bind, Option.bind_some]
  cases (q.detourQuery spur (continuations yielded (latest.take before.length))
    before).shortest? <;> rfl

omit [Weight W] in
/-- Detours from the root are the answers that the search may give. -/
theorem detour_iff {before : List NodeId} {spur : NodeId}
    (simple : ∀ y ∈ yielded, q.Simple y) (simple_latest : q.Simple latest)
    (leads : q.graph.Leads q.source (latest.take i) spur)
    (nodes : q.source :: q.graph.stops (latest.take i) = before ++ [spur]) :
    (q.detourQuery spur (continuations yielded (latest.take i)) before).Simple rest ↔
      q.Detour yielded (latest.take i) (latest.take i ++ rest) := by
  have distinct : (before ++ [spur]).Nodup := by
    have all := simple_latest.distinct
    rw [← List.take_append_drop i latest, Graph.stops_append, ← List.cons_append, nodes] at all
    exact (List.nodup_append.mp all).1
  have leaving : ∀ e ∈ continuations yielded (latest.take i),
      ∃ t, q.graph.edge? e = some ⟨spur, t⟩ := by
    intro e mem
    obtain ⟨y, old, more, rfl⟩ := mem_continuations.mp mem
    have leads' := (simple _ old).leads
    rw [List.append_assoc] at leads'
    obtain ⟨b, first, t, edge, _⟩ := Graph.leads_append.mp leads'
    obtain rfl := leads.unique first
    exact ⟨t, edge⟩
  have usable : ∀ e ∈ latest.take i, (q.weight e).isSome :=
    fun e mem => simple_latest.usable e (List.mem_of_mem_take mem)
  rw [simple_detourQuery leads nodes distinct usable leaving]
  constructor
  · rintro ⟨simple_p, e, goes_on, fresh⟩
    refine ⟨simple_p, e, (List.prefix_append_right_inj _).mpr goes_on, fun y old shared => ?_⟩
    exact fresh (mem_continuations.mpr ⟨y, old, shared⟩)
  · rintro ⟨simple_p, e, goes_on, fresh⟩
    refine ⟨simple_p, e, (List.prefix_append_right_inj _).mp goes_on, fun shut => ?_⟩
    obtain ⟨y, old, shared⟩ := mem_continuations.mp shut
    exact fresh y old shared

/-- What is found is a best detour from the root. -/
theorem detour?_some (ranks : q.Ranks pays le) (simple : ∀ y ∈ yielded, q.Simple y)
    (simple_latest : q.Simple latest) (within : i < latest.length) {c : W}
    (found : q.detour? yielded latest (q.source :: q.graph.stops latest) i = some (c, p)) :
    q.Detour yielded (latest.take i) p ∧ pays p c ∧
      ∀ p', q.Detour yielded (latest.take i) p' → le p p' := by
  obtain ⟨before, spur, root_cost, leads, nodes, costs, answer⟩ :=
    detour?_eq yielded simple_latest within
  rw [answer] at found
  obtain ⟨⟨rest_cost, rest⟩, shortest, same⟩ := Option.map_eq_some_iff.mp found
  cases same
  obtain ⟨simple_rest, rest_costs⟩ := simple_of_shortest? shortest
  have detour := (detour_iff simple simple_latest leads nodes).mp simple_rest
  refine ⟨detour, ?_, ?_⟩
  · exact ranks.join detour.simple.loopFree costs (costs_detourQuery.mp rest_costs).1
  · intro p' other
    obtain ⟨e, ⟨more, rfl⟩, _⟩ := other.leaves
    rw [List.append_assoc] at other ⊢
    have simple_more := (detour_iff simple simple_latest leads nodes).mpr other
    exact ranks.prepend _ (shortest?_best ranks.respects.detourQuery shortest simple_more.joins)

/-- When nothing is found, no detour leaves the root. -/
theorem detour?_none (simple : ∀ y ∈ yielded, q.Simple y) (simple_latest : q.Simple latest)
    (within : i < latest.length)
    (missing : q.detour? yielded latest (q.source :: q.graph.stops latest) i = none) (p : Path) :
    ¬q.Detour yielded (latest.take i) p := by
  intro detour
  obtain ⟨before, spur, c, leads, nodes, _, answer⟩ :=
    detour?_eq yielded simple_latest within
  rw [answer, Option.map_eq_none_iff] at missing
  obtain ⟨e, ⟨more, rfl⟩, _⟩ := detour.leaves
  rw [List.append_assoc] at detour
  exact shortest?_eq_none missing _
    ((detour_iff simple simple_latest leads nodes).mpr detour)

end search
end PathQuery
end FlowAdmission
