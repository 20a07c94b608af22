import FlowAdmission.Graph.ShortestPath
import FlowAdmission.StableOrder

/-!
# Paths in order of cost

The enumeration yields loop-free paths one by one, cheapest first. After a path has been yielded,
every node on it may be left by a detour: the cheapest way to the target that leaves the shared
part by an edge no yielded path took there and does not come back to the shared part. Detours wait,
ordered by cost and then by discovery, until they are the cheapest left.
-/
namespace FlowAdmission

/-- How far the enumeration has come. -/
inductive Enumeration (W : Type) where
  | fresh
  /-- Some paths have been yielded, `latest` last, and detours from the earlier ones wait. -/
  | active (latest : Path) (earlier : List Path) (waiting : List (W × Path))
  | exhausted

namespace PathQuery
variable {W : Type} [Weight W]

/-- Queues a path behind all that cost no more. -/
def enqueue (item : W × Path) (waiting : List (W × Path)) : List (W × Path) :=
  insertStable (fun a b => a.1 < b.1) item waiting

/-- The edges by which the given paths go on after `root`. -/
def continuations (paths : List Path) (root : Path) : List EdgeId :=
  paths.filterMap fun p => if p.take root.length = root then p[root.length]? else none

/-- The query for the ways from `spur` to the target that use no closed edge and enter no closed
node. -/
def detourQuery (q : PathQuery W) (spur : NodeId) (closedEdges : List EdgeId)
    (closedNodes : List NodeId) : PathQuery W :=
  { q with
    source := spur
    weight := fun e =>
      if e ∈ closedEdges then none
      else match q.graph.edge? e with
        | none => none
        | some edge => if edge.target ∈ closedNodes then none else q.weight e }

/-- The cheapest path that shares the first `i` edges of `latest`, and no further edge after
those with any of `yielded`. -/
def detour? (q : PathQuery W) (yielded : List Path) (latest : Path) (nodes : List NodeId)
    (i : Nat) : Option (W × Path) := do
  let root := latest.take i
  let spur ← nodes[i]?
  let rootWeights ← root.mapM q.weight
  let (cost, rest) ←
    (q.detourQuery spur (continuations yielded root) (nodes.take i)).shortest?
  return (Weight.total rootWeights + cost, root ++ rest)

/-- Queues the detour that leaves `latest` after `i` edges. A path already yielded or waiting keeps
its place. -/
def queueDetour (q : PathQuery W) (latest : Path) (earlier : List Path) (nodes : List NodeId)
    (waiting : List (W × Path)) (i : Nat) : List (W × Path) :=
  match q.detour? (latest :: earlier) latest nodes i with
  | none => waiting
  | some item =>
    if item.2 ∈ latest :: earlier ∨ item.2 ∈ waiting.map (·.2) then waiting
    else enqueue item waiting

/-- Queues the detours from `latest`, from its start on. -/
def expand (q : PathQuery W) (latest : Path) (earlier : List Path)
    (waiting : List (W × Path)) : List (W × Path) :=
  match q.graph.pathNodes? latest with
  | none => waiting
  | some nodes =>
    (List.range latest.length).foldl (queueDetour q latest earlier nodes) waiting

/-- The next path with its cost, or none when all have been yielded. -/
def next (q : PathQuery W) : Enumeration W → Option (W × Path) × Enumeration W
  | .exhausted => (none, .exhausted)
  | .fresh =>
    match q.shortest? with
    | none => (none, .exhausted)
    | some item => (some item, .active item.2 [] [])
  | .active latest earlier waiting =>
    match q.expand latest earlier waiting with
    | [] => (none, .exhausted)
    | item :: rest => (some item, .active item.2 (latest :: earlier) rest)

/-- The next `count` paths, fewer where the enumeration ends. -/
def take (q : PathQuery W) : Nat → Enumeration W → List (W × Path) × Enumeration W
  | 0, state => ([], state)
  | count + 1, state =>
    match q.next state with
    | (none, state) => ([], state)
    | (some item, state) =>
      let (items, state) := take q count state
      (item :: items, state)

/-- Runs through at most `limit` paths until `visit` is done. Paths behind that are never
searched for. -/
def explore {β : Type} (q : PathQuery W) (visit : β → W × Path → ForInStep β) :
    Nat → β → Enumeration W → β
  | 0, b, _ => b
  | limit + 1, b, state =>
    match q.next state with
    | (none, _) => b
    | (some item, state) =>
      match visit b item with
      | .done b => b
      | .yield b => explore q visit limit b state

/-- No query has more loop-free paths than this: such a path has fewer edges than there are
nodes. -/
def pathBound (q : PathQuery W) : Nat := (q.graph.edges.size + 1).pow q.graph.nodes.size

end PathQuery
end FlowAdmission
