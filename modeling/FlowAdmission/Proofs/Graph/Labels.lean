import FlowAdmission.Proofs.Graph.Walk

/-!
# Labels of the search

Every label is the way that gave its cost: a loop-free path from the source through settled nodes to
one that is not settled, with the sum of its weights (`Search.Labelled`). So an answer is a loop-free
path with its cost, whatever the weights are (`PathQuery.simple_of_shortest?`).
-/
namespace FlowAdmission
variable {W : Type}

/-- The edges walked to a label, in travel order. -/
def Label.path (l : Label W) : Path := l.trail.reverse

namespace Search
open PathQuery
variable [Weight W]

theorem nearest_eq_none {xs : List (NodeId × Label W)} (missing : nearest xs = none) :
    xs = [] := by
  cases xs with
  | nil => rfl
  | cons first rest =>
    unfold nearest at missing
    split at missing
    · cases missing
    · split at missing <;> cases missing

theorem nearest_mem {xs : List (NodeId × Label W)} {x : NodeId × Label W}
    (found : nearest xs = some x) : x ∈ xs := by
  induction xs generalizing x with
  | nil => cases found
  | cons first rest ih =>
    unfold nearest at found
    split at found
    · cases found
      exact List.mem_cons_self
    · rename_i best later
      split at found
      · cases found
        exact List.mem_cons_of_mem _ (ih later)
      · cases found
        exact List.mem_cons_self

/-- A label that has come to an unsettled node through settled ones. -/
structure Reached (q : PathQuery W) (settled : Std.ExtTreeSet NodeId) (n : NodeId)
    (l : Label W) : Prop where
  leads : q.graph.Leads q.source l.path n
  costs : q.Costs l.path l.cost
  distinct : (q.source :: q.graph.stops l.path).Nodup
  inside : ∀ x ∈ q.source :: q.graph.stops l.path, x = n ∨ x ∈ settled
  outside : n ∉ settled

namespace Reached
variable {q : PathQuery W} {settled : Std.ExtTreeSet NodeId} {n m : NodeId} {l : Label W}

theorem loopFree (reached : Reached q settled n l) : q.graph.LoopFree l.path :=
  ⟨q.source, n, reached.leads, reached.distinct⟩

/-- No edge leads back to the source. -/
theorem path_eq_nil (reached : Reached q settled q.source l) : l.path = [] := by
  by_contra nonempty
  exact (List.nodup_cons.mp reached.distinct).1 (reached.leads.end_mem_stops nonempty)

/-- Settling another node leaves a label as it is. -/
theorem insert (reached : Reached q settled m l) (other : n ≠ m) :
    Reached q (settled.insert n) m l where
  leads := reached.leads
  costs := reached.costs
  distinct := reached.distinct
  inside x mem := (reached.inside x mem).imp_right fun old => by simp [old]
  outside := by simp [reached.outside, other]

/-- From a node that is settled now, an edge reaches one that is not. -/
theorem extend (reached : Reached q settled n l) {e : EdgeId} {w : W}
    (edge : q.graph.edge? e = some ⟨n, m⟩) (weight : q.weight e = some w)
    (unsettled : m ∉ settled.insert n) :
    Reached q (settled.insert n) m ⟨l.cost + w, e :: l.trail⟩ := by
  have path : (⟨l.cost + w, e :: l.trail⟩ : Label W).path = l.path ++ [e] := by
    simp [Label.path]
  have stops : q.graph.stops (l.path ++ [e]) = q.graph.stops l.path ++ [m] := by
    rw [Graph.stops_append, Graph.stops_cons edge, Graph.stops_nil]
  have inside : ∀ x ∈ q.source :: q.graph.stops l.path, x ∈ settled.insert n := by
    intro x mem
    rcases reached.inside x mem with rfl | old
    · simp
    · simp [old]
  refine ⟨?_, ?_, ?_, ?_, unsettled⟩
  · rw [path]
    exact Graph.leads_append.mpr ⟨n, reached.leads, Graph.leads_singleton.mpr edge⟩
  · rw [path]
    exact reached.costs.snoc weight
  · rw [path, stops, ← List.cons_append]
    refine List.nodup_append.mpr ⟨reached.distinct, by simp, ?_⟩
    rintro x mem y new rfl
    obtain rfl := List.mem_singleton.mp new
    exact unsettled (inside x mem)
  · rw [path, stops, ← List.cons_append]
    intro x mem
    rcases List.mem_append.mp mem with old | new
    · exact .inr (inside x old)
    · exact .inl (List.mem_singleton.mp new)

end Reached

/-- An offer leaves a node with the cheaper one of what was known and what is offered. -/
theorem offer_self (s : Search W) (n : NodeId) (label : Label W) :
    ((s.offer n label).frontier[n]? = some label ∧
      ∀ known, s.frontier[n]? = some known → label.cost < known.cost) ∨
    ∃ known, s.frontier[n]? = some known ∧ ¬label.cost < known.cost ∧
      (s.offer n label).frontier[n]? = some known := by
  unfold offer
  cases found : s.frontier[n]? with
  | none => exact .inl ⟨by simp, nofun⟩
  | some known =>
    by_cases cheaper : label.cost < known.cost
    · refine .inl ⟨by simp [cheaper], fun other same => ?_⟩
      cases same
      exact cheaper
    · exact .inr ⟨known, rfl, cheaper, by simp [cheaper, found]⟩

theorem offer_other (s : Search W) {n m : NodeId} (label : Label W) (other : n ≠ m) :
    (s.offer n label).frontier[m]? = s.frontier[m]? := by
  unfold offer
  split
  · simp [Std.ExtTreeMap.getElem?_insert, other]
  · split
    · simp [Std.ExtTreeMap.getElem?_insert, other]
    · rfl

theorem settled_offer (s : Search W) (n : NodeId) (label : Label W) :
    (s.offer n label).settled = s.settled := by
  unfold offer
  split
  · rfl
  · split <;> rfl

/-- Every label of the frontier has come to its node through settled ones. -/
def Labelled (q : PathQuery W) (s : Search W) : Prop :=
  ∀ {n : NodeId} {l : Label W}, s.frontier[n]? = some l → Reached q s.settled n l

section labels
variable {q : PathQuery W} {s : Search W} {settled : Std.ExtTreeSet NodeId} {n m : NodeId}
  {label here l : Label W}

theorem frontier_nearest (nearest : nearest s.frontier.toList = some (n, here)) :
    s.frontier[n]? = some here :=
  Std.ExtTreeMap.mem_toList_iff_getElem?_eq_some.mp (nearest_mem nearest)

theorem labelled_start (q : PathQuery W) : Labelled q (start q.source : Search W) := by
  intro n l found
  by_cases same : q.source = n
  · subst same
    simp only [start, Std.ExtTreeMap.getElem?_insert_self, Option.some.injEq] at found
    subst found
    exact ⟨rfl, costs_nil, by simp [Label.path], by simp [Label.path], by simp [start]⟩
  · simp [start, same] at found

/-- Of the label that was known and the one that is offered either is kept. -/
theorem Labelled.offer (labelled : Labelled q s) (reached : Reached q s.settled m label) :
    Labelled q (s.offer m label) := by
  intro n l found
  rw [s.settled_offer]
  by_cases same : m = n
  · subst same
    rcases s.offer_self m label with ⟨now, _⟩ | ⟨known, before, _, now⟩ <;> rw [now] at found <;>
      cases found
    · exact reached
    · exact labelled before
  · rw [s.offer_other label same] at found
    exact labelled found

theorem settled_relax (q : PathQuery W) (here : Label W) (s : Search W) (e : EdgeId) :
    (relax q here s e).settled = s.settled := by
  unfold relax
  split
  · split
    · rfl
    · exact s.settled_offer _ _
  · rfl

/-- Following an edge out of the node just settled. -/
theorem Labelled.relax (labelled : Labelled q s) (reached : Reached q settled n here)
    (now : s.settled = settled.insert n) {e : EdgeId} (out : e ∈ q.graph.outEdges n) :
    Labelled q (relax q here s e) := by
  obtain ⟨⟨source, target⟩, edge, rfl⟩ := Graph.mem_outEdges.mp out
  unfold Search.relax
  cases weight : q.weight e with
  | none => exact labelled
  | some w =>
    simp only [edge]
    by_cases old : target ∈ s.settled
    · rw [if_pos (by simpa using old)]
      exact labelled
    · rw [if_neg (by simpa using old)]
      have extended := reached.extend edge weight (now ▸ old)
      rw [← now] at extended
      exact labelled.offer extended

theorem Labelled.relaxAll (labelled : Labelled q s) (reached : Reached q settled n here)
    (now : s.settled = settled.insert n) {edges : List EdgeId}
    (out : ∀ e ∈ edges, e ∈ q.graph.outEdges n) :
    Labelled q (edges.foldl (Search.relax q here) s) := by
  induction edges generalizing s with
  | nil => exact labelled
  | cons e rest ih =>
    obtain ⟨first, later⟩ := List.forall_mem_cons.mp out
    exact ih (labelled.relax reached now first) ((settled_relax q here s e).trans now) later

/-- Settling a node leaves the labels of the others as they are. -/
theorem Labelled.erase (labelled : Labelled q s) (n : NodeId) :
    Labelled q (⟨s.settled.insert n, s.frontier.erase n⟩ : Search W) := by
  intro m l found
  rw [Std.ExtTreeMap.getElem?_erase] at found
  split at found
  · cases found
  · rename_i other
    exact (labelled found).insert fun same => other (by simp [same])

theorem Labelled.settle (labelled : Labelled q s) (found : s.frontier[n]? = some here) :
    Labelled q (s.settle q n here) :=
  Labelled.relaxAll (Labelled.erase labelled n) (labelled found) rfl fun _ out => out

/-- The answer of the search is a label of the target. -/
theorem Labelled.run (labelled : Labelled q s) {limit : Nat}
    (answered : Search.run q limit s = some l) : ∃ settled, Reached q settled q.target l := by
  induction limit generalizing s with
  | zero => cases answered
  | succ limit ih =>
    unfold Search.run at answered
    split at answered
    · cases answered
    · rename_i n here nearest
      have found := frontier_nearest nearest
      split at answered
      · rename_i arrived
        cases answered
        exact ⟨s.settled, arrived ▸ labelled found⟩
      · exact ih (labelled.settle found) answered

end labels

end Search

/-- Whatever the weights are, an answer is a loop-free path with its cost. -/
theorem PathQuery.simple_of_shortest? [Weight W] {q : PathQuery W} {c : W} {p : Path}
    (found : q.shortest? = some (c, p)) : q.Simple p ∧ q.Costs p c := by
  unfold shortest? at found
  split at found
  · cases found
  · rename_i askable
    obtain ⟨l, label, same⟩ := Option.map_eq_some_iff.mp found
    obtain ⟨settled, reached⟩ := Search.Labelled.run (Search.labelled_start q) label
    cases same
    refine ⟨⟨fun empty => ?_, reached.leads, reached.distinct, reached.costs.usable⟩,
      reached.costs⟩
    have leads := reached.leads
    rw [Label.path, empty] at leads
    exact askable (.inl leads)

end FlowAdmission
