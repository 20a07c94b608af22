import FlowAdmission.Error
import FlowAdmission.Network.Basic

/-!
# Building a network

Networks only grow. A refused call changes nothing, and in particular takes no number.
-/
namespace FlowAdmission
namespace Network
variable {K : Type}

/-- Enters a new node into both graphs. -/
def addNode (net : Network K) (name : String) (host : Option HostId) : NodeId × Network K :=
  let id := net.nextId
  (id, { net with
    linkGraph := net.linkGraph.addNode id
    queueGraph := net.queueGraph.addNode id
    nodes := net.nodes.insert id ⟨id, name, host⟩
    nextId := id + 1 })

/-- A node that belongs to no host. -/
def createNode (net : Network K) (name : String) : NodeId × Network K := net.addNode name none

/-- An interface is named after its host and its place among the host's interfaces. -/
def interfaceName (host : String) (position : Nat) : String := s!"{host}/nic{position}"

/-- A host starts with one interface. -/
def createHost (net : Network K) (name : String) : HostId × Network K :=
  let id : HostId := ⟨net.id, net.hosts.length⟩
  let (interface, net) := net.addNode (interfaceName name 0) (some id)
  (id, { net with hosts := net.hosts ++ [⟨id, name, [interface]⟩] })

def addInterface (net : Network K) (h : HostId) : Except Error (NodeId × Network K) :=
  match net.host? h with
  | none => .error (.foreignHost none h)
  | some host =>
    let (interface, net) := net.addNode (interfaceName host.name host.interfaces.length) (some h)
    let host := { host with interfaces := host.interfaces ++ [interface] }
    .ok (interface, { net with hosts := net.hosts.set h.index host })

variable [Quantity K]

/-- Numbers the queues of a link from `edge` on, one per buffer in order of priority. -/
def queuesFrom (edge : EdgeId) (share : K) (buffers : List K) : List (Queue K) :=
  buffers.mapIdx fun priority buffer => ⟨edge + priority, priority, buffer, share⟩

/-- Enters a queue of a link into the queue graph. -/
def addQueue (link : Link K) (net : Network K) (queue : Queue K) : Network K :=
  { net with
    queueGraph := net.queueGraph.addEdge queue.edge ⟨link.source, link.destination⟩
    queueOwner := net.queueOwner.insert queue.edge link.edge }

/-- Enters a link and its queues. The link takes the next number, its queues the ones behind. -/
def addLink (net : Network K) (source destination : NodeId) (rate propagationDelay : K)
    (buffers : List K) : EdgeId × Network K :=
  let edge := net.nextId
  let queues := queuesFrom (edge + 1) (1 / (buffers.length : K)) buffers
  let link : Link K := ⟨edge, source, destination, rate, propagationDelay, queues⟩
  let net := { net with
    linkGraph := net.linkGraph.addEdge edge ⟨source, destination⟩
    links := net.links.insert edge link
    nextId := edge + 1 + buffers.length }
  (edge, queues.foldl (addQueue link) net)

/-- A link with one queue per buffer; the queues share its rate evenly. The link needs two
different nodes, a positive rate, a delay that is not negative, and positive buffers. -/
def createLink (net : Network K) (source destination : NodeId) (rate propagationDelay : K)
    (buffers : List K) : Except Error (EdgeId × Network K) :=
  if ¬(net.nodes.contains source ∧ net.nodes.contains destination) then
    .error (.linkToUnknownNode source destination)
  else if source = destination then .error (.linkLoop source destination)
  else if ¬(0 < rate) ∨ ¬(0 ≤ propagationDelay) ∨ buffers = [] ∨ ∃ b ∈ buffers, ¬(0 < b) then
    .error (.linkParameters source destination)
  else .ok (net.addLink source destination rate propagationDelay buffers)

/-- Bytes in the only queue of a simple link. -/
def simpleBuffer : K := ((30000 : Nat) : K)

/-- A link of one queue without delay. -/
def createSimpleLink (net : Network K) (source destination : NodeId) (rate : K) :
    Except Error (EdgeId × Network K) :=
  net.createLink source destination rate 0 [simpleBuffer]

end Network

/-- A call that builds a network. -/
inductive BuildingCall (K : Type) where
  | host (name : String)
  | interface (host : HostId)
  | node (name : String)
  | link (source destination : NodeId) (rate propagationDelay : K) (buffers : List K)
  | simpleLink (source destination : NodeId) (rate : K)

/-- What a building call made. -/
inductive Built where
  | host (id : HostId)
  | node (id : NodeId)
  | link (edge : EdgeId)
  deriving DecidableEq

namespace BuildingCall
variable {K : Type} [Quantity K]

/-- Answers one call; after a refusal the network is as it was. -/
def run (net : Network K) : BuildingCall K → Except Error Built × Network K
  | .host name =>
    let (id, net) := net.createHost name
    (.ok (.host id), net)
  | .interface h =>
    match net.addInterface h with
    | .ok (id, net) => (.ok (.node id), net)
    | .error e => (.error e, net)
  | .node name =>
    let (id, net) := net.createNode name
    (.ok (.node id), net)
  | .link source destination rate propagationDelay buffers =>
    match net.createLink source destination rate propagationDelay buffers with
    | .ok (edge, net) => (.ok (.link edge), net)
    | .error e => (.error e, net)
  | .simpleLink source destination rate =>
    match net.createSimpleLink source destination rate with
    | .ok (edge, net) => (.ok (.link edge), net)
    | .error e => (.error e, net)

/-- The network after a list of calls. -/
def runAll (net : Network K) (calls : List (BuildingCall K)) : Network K :=
  calls.foldl (fun net call => (call.run net).2) net

end BuildingCall
end FlowAdmission
