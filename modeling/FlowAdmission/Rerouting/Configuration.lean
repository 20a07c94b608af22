import FlowAdmission.Error

/-!
# Rerouting configurations

A configuration says which flows may be moved for a blocked one, in which order they are tried,
what a moved flow should stay away from, and how many may be tried.
-/
namespace FlowAdmission.Rerouting

/-- Which of the flows that hold a path may be moved. -/
inductive Selection where
  | allFlows
  /-- Those that cross the first shortest path of the blocked request. -/
  | oneShortestPath
  /-- Those that cross any shortest path. -/
  | allShortestPaths
  /-- Those that cross any path of the two shortest tiers. -/
  | allTwoShortestPaths
  deriving DecidableEq

/-- The key by which candidates are tried, largest first. -/
inductive Order where
  | unsorted
  /-- Hops on links of the blocked request's shortest paths. -/
  | commonEdges
  | rate
  | burst
  /-- The flow's own latency bound. -/
  | delay
  deriving DecidableEq

/-- What a moved flow avoids of its old path. -/
inductive Granularity where
  /-- All queues of the links it used. -/
  | physicalLink
  /-- The queues it used. -/
  | queueLink
  deriving DecidableEq

/-- What a moved flow avoids besides its old path: links of paths of the blocked request. -/
inductive Region where
  | ownPathOnly
  | shortestPath
  | allShortestPaths
  | allTwoShortestPaths
  deriving DecidableEq

inductive Limit where
  | absolute (flows : Nat)
  /-- Of the candidates, rounded down, plus one. -/
  | percent (share : Nat)
  deriving DecidableEq

/-- Tiers of the path index that a selection looks at. -/
def Selection.tiers : Selection → Nat
  | .allFlows => 0
  | .oneShortestPath | .allShortestPaths => 1
  | .allTwoShortestPaths => 2

def Order.tiers : Order → Nat
  | .commonEdges => 1
  | _ => 0

def Region.tiers : Region → Nat
  | .ownPathOnly => 0
  | .shortestPath | .allShortestPaths => 1
  | .allTwoShortestPaths => 2

/-- A share is at most all candidates. -/
def Limit.Valid : Limit → Prop
  | .absolute _ => True
  | .percent share => share ≤ 100

structure Configuration where
  selection : Selection
  order : Order
  granularity : Granularity
  region : Region
  limit : Limit
  valid : limit.Valid
  deriving DecidableEq

namespace Configuration

/-- The configuration of the given parts, refused when its limit is not valid. -/
def make (selection : Selection) (order : Order) (granularity : Granularity) (region : Region)
    (limit : Limit) : Except Error Configuration :=
  match limit with
  | .absolute flows => .ok ⟨selection, order, granularity, region, .absolute flows, trivial⟩
  | .percent share =>
    if h : share ≤ 100 then .ok ⟨selection, order, granularity, region, .percent share, h⟩
    else .error (.percentAboveAll share)

/-- How many of so many candidates may be tried. -/
def maxAttempts (c : Configuration) (candidates : Nat) : Nat :=
  match c.limit with
  | .absolute flows => min flows candidates
  | .percent share => min (candidates * share / 100 + 1) candidates

/-- Tiers the path index has to hold for this configuration. -/
def indexDepth (c : Configuration) : Nat :=
  max (max c.selection.tiers c.order.tiers) c.region.tiers

end Configuration
end FlowAdmission.Rerouting
