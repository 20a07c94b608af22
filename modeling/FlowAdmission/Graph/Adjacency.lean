import FlowAdmission.Graph.Basic
import Std.Data.HashMap
import Std.Data.HashSet

/-!
# Adjacency in hash tables

A graph is kept in two hash tables, and every edge stands there three times: under its id, among
the edges that leave its source, and among those that enter its target. In which order a table
lists depends on how it was filled, so what is read off it is sorted.

`Adjacency.graph` is the graph that the tables describe. Each call on the tables has its counterpart
on graphs (`GraphCall.store`, `GraphCall.draw`).
-/
namespace FlowAdmission

/-- The edges at a node. -/
structure Star where
  leaving : Std.HashSet EdgeId := ∅
  entering : Std.HashSet EdgeId := ∅

namespace Star

def leave (star : Star) (id : EdgeId) : Star := { star with leaving := star.leaving.insert id }

def arrive (star : Star) (id : EdgeId) : Star := { star with entering := star.entering.insert id }

end Star

structure Adjacency where
  stars : Std.HashMap NodeId Star := ∅
  edges : Std.HashMap EdgeId Edge := ∅

namespace Adjacency

def edge? (a : Adjacency) (id : EdgeId) : Option Edge := a.edges[id]?

/-- The star of a node, an empty one where the node is not known. -/
def star (a : Adjacency) (n : NodeId) : Star := a.stars.getD n {}

/-- The nodes, ascending. -/
def nodes (a : Adjacency) : List NodeId := a.stars.keys.mergeSort

/-- Edges leaving a node, ascending. -/
def outEdges (a : Adjacency) (n : NodeId) : List EdgeId := (a.star n).leaving.toList.mergeSort

/-- Changes the star of a node. A node that is not known gets one. -/
def modifyStar (a : Adjacency) (n : NodeId) (change : Star → Star) : Adjacency :=
  { a with stars := a.stars.insert n (change (a.star n)) }

def addNode (a : Adjacency) (n : NodeId) : Adjacency := a.modifyStar n fun star => star

/-- Enters an edge in its three places. -/
def enter (a : Adjacency) (id : EdgeId) (e : Edge) : Adjacency :=
  let joined := (a.modifyStar e.source (·.leave id)).modifyStar e.target (·.arrive id)
  { joined with edges := a.edges.insert id e }

/-- Adds an edge together with its ends, and tells whether it did. A taken id is refused. -/
def addEdge (a : Adjacency) (id : EdgeId) (e : Edge) : Bool × Adjacency :=
  if a.edges.contains id then (false, a) else (true, a.enter id e)

def ofEdges (edges : List (EdgeId × Edge)) : Adjacency :=
  edges.foldl (fun a e => (a.addEdge e.1 e.2).2) {}

/-- The graph that the tables describe, read in the order in which they happen to list. -/
def graph (a : Adjacency) : Graph :=
  a.edges.fold Graph.addEdge (a.stars.fold (fun g n _ => g.addNode n) .empty)

end Adjacency

/-- The calls that make a graph. -/
inductive GraphCall where
  | node (n : NodeId)
  | edge (id : EdgeId) (e : Edge)
  /-- Starts anew, with the edges of a list. -/
  | collect (edges : List (EdgeId × Edge))

namespace GraphCall

/-- A call on the tables. -/
def store (a : Adjacency) : GraphCall → Adjacency
  | .node n => a.addNode n
  | .edge id e => (a.addEdge id e).2
  | .collect edges => .ofEdges edges

/-- The same call on a graph. -/
def draw (g : Graph) : GraphCall → Graph
  | .node n => g.addNode n
  | .edge id e => g.addEdge id e
  | .collect edges => .ofEdges edges

/-- The tables after a list of calls. -/
def storeAll (calls : List GraphCall) : Adjacency := calls.foldl store {}

/-- The graph after a list of calls. -/
def drawAll (calls : List GraphCall) : Graph := calls.foldl draw .empty

end GraphCall
end FlowAdmission
