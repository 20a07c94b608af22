import FlowAdmission.Network.Basic
import FlowAdmission.PathIndex
import FlowAdmission.Rerouting.Configuration
import FlowAdmission.StableOrder
import FlowAdmission.Store.Basic

/-!
# Candidates for a move

Which flows may be moved to make room for a blocked request, and in which order.
-/
namespace FlowAdmission.Rerouting

/-- A set of flows, listed in order of creation. -/
abbrev FlowSet := Std.ExtTreeSet FlowId

variable {K : Type}

/-- The flows of the given requests. -/
def flowsOf (store : Store K) (requests : List RequestId) : FlowSet :=
  .ofList (requests.filterMap fun id => (store.request? id).bind (·.flow))

/-- Flows whose requests run over some queue of the links on the given paths. -/
def crossing (net : Network K) (store : Store K) (paths : List Path) : FlowSet :=
  flowsOf store ((paths.flatten.flatMap net.queueEdges).flatMap store.requestsOn)

/-- Flows that may be moved to make room for `request`. -/
def select (net : Network K) (store : Store K) (index : PathIndex) (request : Request K)
    (selection : Selection) : Except Error FlowSet :=
  let upTo := index.firstPaths request.source request.destination
  match selection with
  | .allFlows => .ok (flowsOf store store.routedRequests)
  | .oneShortestPath => (upTo 1).map fun paths => crossing net store (paths.take 1)
  | .allShortestPaths => (upTo 1).map (crossing net store)
  | .allTwoShortestPaths => (upTo 2).map (crossing net store)

/-- The request of a routed flow and the path it runs over. -/
def routed? (store : Store K) (flow : FlowId) : Option (RequestId × Request K × Path) := do
  let id ← (← store.flow? flow).request
  let booking ← store.request? id
  return (id, booking.request, ← booking.path)

/-- The path a flow is routed over. -/
def flowPath? (store : Store K) (flow : FlowId) : Option Path :=
  (routed? store flow).map (·.2.2)

/-- Hops of a flow's path that run along one of the given links. -/
def sharedHops (net : Network K) (store : Store K) (links : List EdgeId) (flow : FlowId) : Nat :=
  (((flowPath? store flow).getD []).filterMap net.linkOf?).countP (links.contains ·)

variable [Quantity K]

/-- A value of a flow's record, zero for a flow that is not there. -/
def flowKey (store : Store K) (key : Flow K → K) (flow : FlowId) : K :=
  match store.flow? flow with
  | none => 0
  | some record => key record

/-- Larger keys first; of equal keys the one listed first comes first. -/
def byKey (key : FlowId → K) (flows : List FlowId) : List FlowId :=
  sortStable (fun a b => key b < key a) flows

/-- The order in which candidates are tried: by decreasing key, then by increasing id. -/
def rank (net : Network K) (store : Store K) (index : PathIndex) (request : Request K)
    (candidates : FlowSet) (order : Order) : Except Error (List FlowId) :=
  let flows := candidates.toList
  match order with
  | .unsorted => .ok flows
  | .commonEdges =>
    (index.firstPaths request.source request.destination 1).map fun paths =>
      byKey (fun flow => (sharedHops net store paths.flatten flow : K)) flows
  | .rate => .ok (byKey (flowKey store fun record => (record.contract.rate : K)) flows)
  | .burst => .ok (byKey (flowKey store fun record => (record.contract.burst : K)) flows)
  | .delay => .ok (byKey (flowKey store (·.latency)) flows)

end FlowAdmission.Rerouting
