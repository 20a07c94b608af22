import FlowAdmission.Graph.RankedPaths
import FlowAdmission.Graph.TableSearch

/-!
# Paths in order of cost, over hash tables

The enumeration keeps the accepted paths, the candidates and all paths that it has seen. Candidates
are numbered as they are found, so of two that cost the same the one found first comes first.
-/
namespace FlowAdmission

/-- A path that waits to be accepted. -/
structure Ranking.Candidate (W : Type) where
  cost : W
  /-- Its number in the order of discovery. -/
  sequence : Nat
  path : Path

/-- How far an enumeration over tables has come. -/
structure Ranking (W : Type) where
  /-- The last one first. -/
  accepted : List Path := []
  candidates : List (Ranking.Candidate W) := []
  seen : Std.HashSet Path := ∅
  sequence : Nat := 0
  started : Bool := false
  exhausted : Bool := false

namespace Ranking
variable {W : Type} [Weight W]

/-- The cheaper candidate comes first, of equal ones that with the smaller number. -/
def precedes (c d : Candidate W) : Bool :=
  c.cost < d.cost ∨ (¬d.cost < c.cost ∧ c.sequence < d.sequence)

/-- Adds a candidate, unless its path has been seen. -/
def push (r : Ranking W) (cost : W) (path : Path) : Ranking W :=
  if r.seen.contains path then r
  else { r with
    seen := r.seen.insert path
    sequence := r.sequence + 1
    candidates := insertStable precedes ⟨cost, r.sequence + 1, path⟩ r.candidates }

/-- Accepts the first candidate. Without one the enumeration ends. -/
def pop (r : Ranking W) : Option (W × Path) × Ranking W :=
  match r.candidates with
  | [] => (none, { r with exhausted := true })
  | c :: rest =>
    (some (c.cost, c.path), { r with candidates := rest, accepted := c.path :: r.accepted })

end Ranking

namespace Adjacency
variable {W : Type} [Weight W]

/-- Nodes a path visits, its start included. No path of no edges has a start. -/
def pathNodes? (a : Adjacency) : Path → Option (List NodeId)
  | [] => none
  | e :: rest => do
    let first ← a.edge? e
    let stops ← (e :: rest).mapM fun id => (a.edge? id).map (·.target)
    return first.source :: stops

/-- The weights without closed edges and without those that lead to closed nodes. -/
def openWeight (a : Adjacency) (weight : EdgeId → Option W) (closedEdges : Std.HashSet EdgeId)
    (closedNodes : Std.HashSet NodeId) (e : EdgeId) : Option W :=
  if closedEdges.contains e then none
  else do
    let edge ← a.edge? e
    if closedNodes.contains edge.target then none else weight e

/-- The cheapest path that leaves `latest` after `i` edges, by an edge that no accepted path took
there. -/
def deviation? (a : Adjacency) (weight : EdgeId → Option W) (target : NodeId)
    (accepted : List Path) (latest : Path) (nodes : List NodeId) (i : Nat) :
    Option (W × Path) := do
  let root := latest.take i
  let spur ← nodes[i]?
  let rootWeights ← root.mapM weight
  let closedEdges := .ofList (PathQuery.continuations accepted root)
  let closedNodes := .ofList (nodes.take i)
  let (cost, rest) ← a.shortest? (a.openWeight weight closedEdges closedNodes) spur target
  return (Weight.total rootWeights + cost, root ++ rest)

/-- Adds the candidate that leaves `latest` after `i` edges. -/
def deviate (a : Adjacency) (weight : EdgeId → Option W) (target : NodeId) (latest : Path)
    (nodes : List NodeId) (r : Ranking W) (i : Nat) : Ranking W :=
  match a.deviation? weight target r.accepted latest nodes i with
  | none => r
  | some (cost, path) => r.push cost path

/-- Adds the candidates that leave the path accepted last, from its start on. -/
def expandLast (a : Adjacency) (weight : EdgeId → Option W) (target : NodeId) (r : Ranking W) :
    Ranking W :=
  match r.accepted with
  | [] => r
  | latest :: _ =>
    match a.pathNodes? latest with
    | none => r
    | some nodes => (List.range latest.length).foldl (a.deviate weight target latest nodes) r

/-- The next path with its cost, or none when all have been accepted. -/
def nextPath (a : Adjacency) (weight : EdgeId → Option W) (source target : NodeId)
    (r : Ranking W) : Option (W × Path) × Ranking W :=
  if r.exhausted then (none, r)
  else if !r.started then
    match a.shortest? weight source target with
    | none => (none, { r with started := true, exhausted := true })
    | some (cost, path) =>
      (some (cost, path),
        { r with started := true, seen := r.seen.insert path, accepted := path :: r.accepted })
  else (a.expandLast weight target r).pop

/-- The next `count` paths, fewer where the enumeration ends. -/
def takePaths (a : Adjacency) (weight : EdgeId → Option W) (source target : NodeId) :
    Nat → Ranking W → List (W × Path) × Ranking W
  | 0, r => ([], r)
  | count + 1, r =>
    match a.nextPath weight source target r with
    | (none, r) => ([], r)
    | (some item, r) =>
      let (items, r) := a.takePaths weight source target count r
      (item :: items, r)

end Adjacency
end FlowAdmission
