import FlowAdmission.Manager.Tenants

/-!
# Admitting flows

A flow between two hosts becomes a request of its machines' interface nodes. When the request
cannot be embedded and rerouting is configured, other flows are moved to make room for it.
-/
namespace FlowAdmission

/-- What a caller asks for. -/
structure FlowDemand (K : Type) where
  name : String
  source : VmId
  destination : VmId
  matching : Matching
  contract : Contract
  /-- Milliseconds. -/
  latency : K

namespace FlowDemand
variable {K : Type} [Quantity K]

/-- A flow needs a rate, a burst and a latency above zero. -/
def isPositive (d : FlowDemand K) : Bool :=
  0 < d.contract.rate && 0 < d.contract.burst && decide (0 < d.latency)

/-- The request between two nodes that a flow stands for, in bytes and seconds. -/
def request (d : FlowDemand K) (source destination : NodeId) : Request K where
  source
  destination
  rate := d.contract.bytesPerSecond K
  burst := d.contract.burstBytes K
  deadline := d.latency / ((1000 : Nat) : K)

def toFlow (d : FlowDemand K) (request : Option RequestId) (rerouting : Option Rerouting.Record) :
    Flow K :=
  { d with request, rerouting }

end FlowDemand

/-- The only interface of a host. Hosts with several are refused. -/
def Network.singleInterface {K : Type} (net : Network K) (role : Role) (h : HostId) :
    Except Error NodeId :=
  match net.host? h with
  | none => .error (.foreignHost (some role) h)
  | some host =>
    match host.interfaces with
    | [interface] => .ok interface
    | interfaces => .error (.severalInterfaces role host.name interfaces.length)

/-- A machine has to run on a host of the network. -/
def Network.requireHost {K : Type} (net : Network K) (role : Role) (vm : VirtualMachine) :
    Except Error Unit :=
  if net.hasHost vm.host then .ok () else .error (.foreignVm role vm.name)

namespace FlowDemand
variable {K : Type} [Quantity K]

/-- The nodes a flow runs between, once its machines are known. `taken` tells whether the source
has a flow with the same matching already. -/
def endpoints (d : FlowDemand K) (net : Network K) (source destination : VirtualMachine)
    (taken : Bool) : Except Error (NodeId × NodeId) := do
  if source.tenant ≠ destination.tenant then
    throw (.differentTenants source.name destination.name)
  net.requireHost .source source
  net.requireHost .destination destination
  if taken then throw (.duplicateMatching source.name)
  let sourceNode ← net.singleInterface .source source.host
  let destinationNode ← net.singleInterface .destination destination.host
  if !d.isPositive then throw (.emptyDemand d.name)
  return (sourceNode, destinationNode)

/-- Reads the machines of a demand and the flows of its source, and checks it against them. -/
def check (d : FlowDemand K) (net : Network K) (t : Transaction K) :
    Except Error (NodeId × NodeId) × Transaction K :=
  match t.store.vm? d.source, t.store.vm? d.destination with
  | none, _ => (.error (.unknownVm d.source), t)
  | some _, none => (.error (.unknownVm d.destination), t.lock d.source)
  | some source, some destination =>
    let clashes := fun other : Flow K => other.source == d.source && other.matching == d.matching
    let (taken, t) := ((t.lock d.source).lock d.destination).anyRead clashes source.flows
    (d.endpoints net source destination taken, t)

end FlowDemand

/-- Stores a flow, points its request back at it and lists it at both machines. -/
def Transaction.addFlow {K : Type} (flow : Flow K) (t : Transaction K) : FlowId × Transaction K :=
  let (id, t) := t.insert (k := .flow) flow
  let t := flow.request.elim t fun request =>
    t.update request fun booking : Booking K => { booking with flow := some id }
  let t := t.update flow.source (VirtualMachine.addFlow id)
  (id, t.update flow.destination (VirtualMachine.addFlow id))

namespace Manager
variable {R C K : Type} [CostModel C K]

/-- Stores an admitted flow. -/
def insertFlow (m : Manager R C K) (flow : Flow K) : Except Error FlowId × Manager R C K :=
  let (id, m) := m.perform (Transaction.addFlow flow)
  (.ok id, m)

/-- Removes a flow; its path is given back. -/
def deleteFlow (m : Manager R C K) (flow : FlowId) : Manager R C K :=
  m.keep (m.store.begin.removeFlow flow)

/-- The path a flow is routed over, none for a flow that does not leave its host. -/
def flowPath? (m : Manager R C K) (flow : FlowId) : Option Path :=
  Rerouting.flowPath? m.store flow

variable [Quantity K] [Router R C K]

/-- Admits a flow whose request could not be embedded at once, by moving other flows. -/
def createBlockedFlow (m : Manager R C K) (d : FlowDemand K) (request : Request K) :
    Except Error FlowId × Manager R C K :=
  match m.setting? with
  | none => (.error (.infeasible d.name none), m)
  | some env =>
    match Rerouting.makeRoom env m.toEmbedder request with
    | (.error e, x) => (.error e, { m with toEmbedder := x })
    | (.ok ⟨none, record⟩, x) =>
      (.error (.infeasible d.name (some record)), { m with toEmbedder := x })
    | (.ok ⟨some id, record⟩, x) =>
      insertFlow { m with toEmbedder := x } (d.toFlow (some id) (some record))

/-- Admits a flow between two nodes. A flow that stays on its node needs no request. -/
def createBetween (m : Manager R C K) (d : FlowDemand K) (source destination : NodeId) :
    Except Error FlowId × Manager R C K :=
  if source = destination then m.insertFlow (d.toFlow none none)
  else
    let request := d.request source destination
    match m.toEmbedder.embed m.network ∅ request none with
    | (some id, x) =>
      insertFlow { m with toEmbedder := x } (d.toFlow (some id) (m.configuration.map fun _ => {}))
    | (none, x) => createBlockedFlow { m with toEmbedder := x } d request

def createFlow (m : Manager R C K) (d : FlowDemand K) : Except Error FlowId × Manager R C K :=
  if d.name = "" then (.error (.emptyName .flow), m)
  else
    match m.inspect (d.check m.network) with
    | (.error e, m) => (.error e, m)
    | (.ok (source, destination), m) => m.createBetween d source destination

end Manager
end FlowAdmission
