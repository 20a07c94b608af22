import FlowAdmission.Graph.Adjacency
import FlowAdmission.Quantity
import FlowAdmission.StableOrder

/-!
# Cheapest path over hash tables

The search runs over the tables themselves. A node gets a turn in the queue each time that it is
reached at a lower cost. Only its first turn counts, so the others are left in the queue and passed
over. Each look-up in a table may miss, and the search ends without an answer then.
-/
namespace FlowAdmission

/-- A place in the queue: a node, and the cost at which it was reached. -/
structure Turn (W : Type) where
  cost : W
  node : NodeId

/-- What a search knows of the nodes that it has reached. -/
structure Sweep (W : Type) where
  distance : Std.HashMap NodeId W := ∅
  /-- The edge over which a node was reached at its distance. -/
  via : Std.HashMap NodeId EdgeId := ∅
  queue : List (Turn W) := []

namespace Sweep
variable {W : Type} [Weight W]

/-- The cheaper turn comes first, of equal ones that of the smaller node. -/
def precedes (t u : Turn W) : Bool :=
  t.cost < u.cost ∨ (¬u.cost < t.cost ∧ t.node < u.node)

def start (source : NodeId) : Sweep W where
  distance := (∅ : Std.HashMap NodeId W).insert source 0
  queue := [⟨0, source⟩]

/-- Offers a node a way that ends with edge `e`. Only a strictly cheaper one replaces what is
known. -/
def offer (s : Sweep W) (n : NodeId) (e : EdgeId) (cost : W) : Sweep W :=
  if s.distance[n]?.all fun known => cost < known then {
    distance := s.distance.insert n cost
    via := s.via.insert n e
    queue := insertStable precedes ⟨cost, n⟩ s.queue }
  else s

end Sweep

namespace Adjacency
variable {W : Type} [Weight W]

/-- Whether a node is settled. A node that is not known has no answer. -/
def settled? (a : Adjacency) (settled : Std.HashSet NodeId) (n : NodeId) : Option Bool :=
  if settled.contains n then some true else if a.stars.contains n then some false else none

/-- Follows one edge out of a node that was settled at cost `here`. -/
def follow (a : Adjacency) (weight : EdgeId → Option W) (settled : Std.HashSet NodeId) (here : W)
    (s : Sweep W) (e : EdgeId) : Option (Sweep W) :=
  match weight e with
  | none => some s
  | some w => do
    let edge ← a.edge? e
    let done ← a.settled? settled edge.target
    return if done then s else s.offer edge.target e (here + w)

/-- The nodes that are still to be settled. -/
def unsettled (a : Adjacency) (settled : Std.HashSet NodeId) : List NodeId :=
  a.stars.keys.filter fun n => !settled.contains n

/-- Settling a node leaves fewer of them. -/
theorem length_unsettled_insert {a : Adjacency} {settled : Std.HashSet NodeId} {n : NodeId}
    (fresh : a.settled? settled n = some false) :
    (a.unsettled (settled.insert n)).length < (a.unsettled settled).length := by
  have unsettled : n ∈ a.unsettled settled := by
    unfold settled? at fresh
    split at fresh
    · cases fresh
    · split at fresh
      · simp_all [Adjacency.unsettled]
      · cases fresh
  have rest : a.unsettled (settled.insert n) = (a.unsettled settled).filter (n != ·) := by
    rw [Adjacency.unsettled, Adjacency.unsettled, List.filter_filter]
    refine List.filter_congr fun m _ => ?_
    rw [Std.HashSet.contains_insert, Bool.not_or]
    rfl
  rw [rest, List.length_filter_lt_length_iff_exists]
  exact ⟨n, unsettled, by simp⟩

/-- Settles nodes by turns until it comes to the target or the queue is empty. -/
def sweep (a : Adjacency) (weight : EdgeId → Option W) (target : NodeId)
    (settled : Std.HashSet NodeId) (s : Sweep W) : Option (Sweep W) :=
  match _ : s.queue with
  | [] => some s
  | turn :: rest =>
    match _ : a.settled? settled turn.node with
    | none => none
    | some true => a.sweep weight target settled { s with queue := rest }
    | some false =>
      if turn.node = target then some s
      else do
        let s ← (a.outEdges turn.node).foldlM
          (a.follow weight (settled.insert turn.node) turn.cost) { s with queue := rest }
        a.sweep weight target (settled.insert turn.node) s
termination_by ((a.unsettled settled).length, s.queue.length)
decreasing_by
  · simp_all [Prod.lex_def]
  · exact Prod.Lex.left _ _ (length_unsettled_insert ‹_›)

/-- Walks back from a node to the source, at most `limit` nodes far. -/
def walkBack (a : Adjacency) (via : Std.HashMap NodeId EdgeId) (source : NodeId) :
    Nat → NodeId → Path → Option Path
  | 0, _, _ => none
  | limit + 1, n, path =>
    if n = source then some path
    else do
      let e ← via[n]?
      let edge ← a.edge? e
      a.walkBack via source limit edge.source (e :: path)

/-- The way to the target that a search has found, with its cost. -/
def wayTo? (a : Adjacency) (source target : NodeId) (s : Sweep W) : Option (W × Path) := do
  let cost ← s.distance[target]?
  let path ← a.walkBack s.via source (s.via.size + 1) target []
  return (cost, path)

/-- A cheapest path with its cost. -/
def shortest? (a : Adjacency) (weight : EdgeId → Option W) (source target : NodeId) :
    Option (W × Path) :=
  if source = target ∨ ¬a.stars.contains source ∨ ¬a.stars.contains target then none
  else (a.sweep weight target ∅ (.start source)).bind (a.wayTo? source target)

end Adjacency
end FlowAdmission
