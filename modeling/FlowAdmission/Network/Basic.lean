import FlowAdmission.Identifier
import FlowAdmission.Quantity

/-!
# The network

A link leaves one node for another and has one or more queues, served by priority. Links and
queues span two graphs over the same nodes: a path of queues runs along a path of links. Hosts
take part through interface nodes.
-/
namespace FlowAdmission

structure Host where
  id : HostId
  name : String
  /-- The nodes that stand for the host, oldest first. -/
  interfaces : List NodeId
  deriving DecidableEq

structure Node where
  id : NodeId
  name : String
  host : Option HostId
  deriving DecidableEq

/-- One queue of a link. Priority 0 is served first. -/
structure Queue (K : Type) where
  edge : EdgeId
  priority : Nat
  /-- Bytes the queue holds. -/
  buffer : K
  /-- The part of the link rate that is the queue's own. -/
  rateShare : K

structure Link (K : Type) where
  edge : EdgeId
  source : NodeId
  destination : NodeId
  /-- Bytes per second. -/
  rate : K
  /-- Seconds on the wire. -/
  propagationDelay : K
  /-- By priority. -/
  queues : List (Queue K)

structure Network (K : Type) where
  /-- The network's own number, part of the ids of its hosts. -/
  id : Nat
  linkGraph : Graph
  queueGraph : Graph
  /-- In order of creation. -/
  hosts : List Host
  nodes : Std.ExtTreeMap NodeId Node
  /-- Links by their edge in the link graph. -/
  links : Std.ExtTreeMap EdgeId (Link K)
  /-- The link edge that a queue edge runs along. -/
  queueOwner : Std.ExtTreeMap EdgeId EdgeId
  /-- Nodes and edges draw their numbers from here. -/
  nextId : Nat

namespace Network
variable {K : Type}

def empty (id : Nat) : Network K := ⟨id, .empty, .empty, [], ∅, ∅, ∅, 0⟩

def host? (net : Network K) (h : HostId) : Option Host :=
  if h.network = net.id then net.hosts[h.index]? else none

def hasHost (net : Network K) (h : HostId) : Bool := (net.host? h).isSome

def node? (net : Network K) (n : NodeId) : Option Node := net.nodes[n]?

def link? (net : Network K) (linkEdge : EdgeId) : Option (Link K) := net.links[linkEdge]?

/-- Queue edges of a link by priority; none for any other number. -/
def queueEdges (net : Network K) (linkEdge : EdgeId) : List EdgeId :=
  match net.link? linkEdge with
  | none => []
  | some link => link.queues.map (·.edge)

/-- The link edge a queue edge runs along. -/
def linkOf? (net : Network K) (queueEdge : EdgeId) : Option EdgeId := net.queueOwner[queueEdge]?

/-- A queue with its link. -/
def queue? (net : Network K) (queueEdge : EdgeId) : Option (Link K × Queue K) := do
  let link ← net.link? (← net.linkOf? queueEdge)
  let queue ← link.queues.find? (·.edge == queueEdge)
  return (link, queue)

end Network

/-- The rate a queue may give away. -/
def Queue.capacity {K : Type} [Mul K] (link : Link K) (queue : Queue K) : K :=
  link.rate * queue.rateShare

end FlowAdmission
