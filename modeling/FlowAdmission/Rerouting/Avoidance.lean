import FlowAdmission.PathIndex
import FlowAdmission.Request
import FlowAdmission.Network.Basic
import FlowAdmission.Rerouting.Configuration

/-!
# What a moved flow should avoid

A moved flow should stay away from the links that the blocked request wants and from its own old
path. The first and the last link of a path of the blocked request are spared, and so is the first
hop of the flow's own path: they join hosts to the network and often cannot be avoided.
-/
namespace FlowAdmission.Rerouting

variable {K : Type}

/-- The link paths of the blocked request that a region covers. -/
def Region.paths (region : Region) (index : PathIndex) (blocked : Request K) :
    Except Error (List Path) :=
  let upTo := index.firstPaths blocked.source blocked.destination
  match region with
  | .ownPathOnly => .ok []
  | .shortestPath => (upTo 1).map (·.take 1)
  | .allShortestPaths => upTo 1
  | .allTwoShortestPaths => upTo 2

/-- A path without its first and last edge. -/
def inner (path : Path) : Path := path.tail.dropLast

/-- What is avoided of one hop of the old path. -/
def Granularity.avoided (granularity : Granularity) (net : Network K) (queueEdge : EdgeId) :
    List EdgeId :=
  match granularity with
  | .queueLink => [queueEdge]
  | .physicalLink =>
    match net.linkOf? queueEdge with
    | none => []
    | some linkEdge => net.queueEdges linkEdge

/-- The queues that a flow on `oldPath` should avoid when it is moved for `blocked`. -/
def avoidedEdges (net : Network K) (index : PathIndex) (c : Configuration) (oldPath : Path)
    (blocked : Request K) : Except Error (Std.ExtTreeSet EdgeId) :=
  (c.region.paths index blocked).map fun region =>
    .ofList (((region.flatMap inner).flatMap net.queueEdges) ++
      oldPath.tail.flatMap (c.granularity.avoided net))

end FlowAdmission.Rerouting
