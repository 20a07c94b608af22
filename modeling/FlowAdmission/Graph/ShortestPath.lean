import FlowAdmission.Graph.Basic
import FlowAdmission.Quantity

/-!
# Cheapest path between two nodes

The search settles reached nodes one at a time, cheapest first and by node id among equals, and
labels their unsettled neighbours. A label keeps the path that gave its cost, so the answer needs
no second pass. Each step settles a new node: the node count bounds the search.
-/
namespace FlowAdmission

/-- What is asked of a graph: paths from `source` to `target` over the edges that have a
weight. -/
structure PathQuery (W : Type) where
  graph : Graph
  weight : EdgeId → Option W
  source : NodeId
  target : NodeId

/-- The best way known to a reached node. -/
structure Label (W : Type) where
  cost : W
  /-- Edges walked so far, the last one first. -/
  trail : List EdgeId

structure Search (W : Type) where
  settled : Std.ExtTreeSet NodeId
  /-- Labels of the nodes that are reached and not yet settled. -/
  frontier : Std.ExtTreeMap NodeId (Label W)

namespace Search
variable {W : Type} [Weight W]

def start (source : NodeId) : Search W :=
  ⟨∅, (∅ : Std.ExtTreeMap NodeId (Label W)).insert source ⟨0, []⟩⟩

/-- The entry of least cost, the earliest among equals. -/
def nearest : List (NodeId × Label W) → Option (NodeId × Label W)
  | [] => none
  | first :: rest =>
    match nearest rest with
    | none => some first
    | some best => if best.2.cost < first.2.cost then some best else some first

/-- Offers a node a label; only a strictly cheaper one replaces what is known. -/
def offer (s : Search W) (n : NodeId) (label : Label W) : Search W :=
  match s.frontier[n]? with
  | none => { s with frontier := s.frontier.insert n label }
  | some known =>
    if label.cost < known.cost then { s with frontier := s.frontier.insert n label } else s

/-- Follows one edge out of a node that has just been settled with label `here`. -/
def relax (q : PathQuery W) (here : Label W) (s : Search W) (e : EdgeId) : Search W :=
  match q.weight e, q.graph.edge? e with
  | some w, some edge =>
    if s.settled.contains edge.target then s
    else s.offer edge.target ⟨here.cost + w, e :: here.trail⟩
  | _, _ => s

/-- Settles a node and follows every edge out of it. -/
def settle (q : PathQuery W) (s : Search W) (n : NodeId) (here : Label W) : Search W :=
  (q.graph.outEdges n).foldl (relax q here) ⟨s.settled.insert n, s.frontier.erase n⟩

/-- Settles up to `limit` nodes on the way to the target. -/
def run (q : PathQuery W) : Nat → Search W → Option (Label W)
  | 0, _ => none
  | limit + 1, s =>
    match nearest s.frontier.toList with
    | none => none
    | some (n, here) => if n = q.target then some here else run q limit (s.settle q n here)

end Search

/-- A cheapest path with its cost. A path has an edge, so none joins a node to itself. -/
def PathQuery.shortest? {W : Type} [Weight W] (q : PathQuery W) : Option (W × Path) :=
  if q.source = q.target ∨ q.source ∉ q.graph.nodes ∨ q.target ∉ q.graph.nodes then none
  else
    (Search.run q q.graph.nodes.size (.start q.source)).map fun label =>
      (label.cost, label.trail.reverse)

end FlowAdmission
