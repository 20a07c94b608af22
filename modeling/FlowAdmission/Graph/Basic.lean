import Std.Data.ExtTreeMap
import Std.Data.ExtTreeSet

/-!
# Directed graphs with named edges

Two nodes may be joined by several edges, so edges carry ids and paths are lists of edge ids.
The edge table is the only store of adjacency: the edges leaving a node are read off it, and
graphs with the same nodes and edges are equal whatever the order they were built in
(`Graph.ext_edge?`). An id keeps the ends it was first added with (`Graph.edge?_addEdge`).
-/
namespace FlowAdmission

abbrev NodeId := Nat
abbrev EdgeId := Nat

/-- Edge ids in travel order. -/
abbrev Path := List EdgeId

/-- A set lists nothing twice. -/
theorem nodup_toList {α : Type} {cmp : α → α → Ordering} [Std.TransCmp cmp]
    (s : Std.ExtTreeSet α cmp) : s.toList.Nodup := by
  refine s.distinct_toList.imp ?_
  rintro a b apart rfl
  exact apart Std.ReflCmp.compare_self

/-- The two ends of an edge. -/
structure Edge where
  source : NodeId
  target : NodeId
  deriving DecidableEq

/-- Every edge starts and ends at nodes of the graph. -/
structure Graph where
  nodes : Std.ExtTreeSet NodeId
  edges : Std.ExtTreeMap EdgeId Edge
  closed : ∀ (id : EdgeId) (e : Edge), edges[id]? = some e → e.source ∈ nodes ∧ e.target ∈ nodes
  deriving DecidableEq

namespace Graph

def empty : Graph := ⟨∅, ∅, by simp⟩

def addNode (g : Graph) (n : NodeId) : Graph where
  nodes := g.nodes.insert n
  edges := g.edges
  closed id e h := by
    have ends := g.closed id e h
    simp [ends]

/-- Adds an edge together with its ends. A taken id is refused. -/
def addEdge? (g : Graph) (id : EdgeId) (e : Edge) : Option Graph :=
  if g.edges.contains id then none
  else some {
    nodes := (g.nodes.insert e.source).insert e.target
    edges := g.edges.insert id e
    closed := fun i f h => by
      rw [Std.ExtTreeMap.getElem?_insert] at h
      split at h
      · cases h
        simp
      · have ends := g.closed i f h
        simp [ends] }

/-- Adds an edge unless its id is taken. -/
def addEdge (g : Graph) (id : EdgeId) (e : Edge) : Graph := (g.addEdge? id e).getD g

/-- The graph of a list of edges; of several with one id the first counts. -/
def ofEdges (edges : List (EdgeId × Edge)) : Graph :=
  edges.foldl (fun g e => g.addEdge e.1 e.2) empty

def edge? (g : Graph) (id : EdgeId) : Option Edge := g.edges[id]?

/-- Edges leaving a node, ascending. -/
def outEdges (g : Graph) (n : NodeId) : List EdgeId :=
  (g.edges.toList.filter fun e => e.2.source == n).map (·.1)

/-- Nodes a path visits, its start included. No path of no edges has a start. -/
def pathNodes? (g : Graph) : Path → Option (List NodeId)
  | [] => none
  | e :: rest => do
    let first ← g.edge? e
    let stops ← (e :: rest).mapM fun id => (g.edge? id).map (·.target)
    return first.source :: stops

@[simp] theorem edge?_empty (id : EdgeId) : empty.edge? id = none := by
  simp [empty, edge?]

/-- Graphs are equal when they have the same nodes and the same edges. -/
theorem ext_edge? {g h : Graph} (nodes : ∀ n, n ∈ g.nodes ↔ n ∈ h.nodes)
    (edges : ∀ id, g.edge? id = h.edge? id) : g = h := by
  cases g; cases h
  congr
  · exact Std.ExtTreeSet.ext_mem nodes
  · exact Std.ExtTreeMap.ext_getElem? edges

theorem addEdge?_eq_none {g : Graph} {id : EdgeId} {e : Edge} :
    g.addEdge? id e = none ↔ (g.edge? id).isSome := by
  simp [addEdge?, edge?]

/-- An edge keeps the ends it was first added with. -/
theorem edge?_addEdge (g : Graph) (id : EdgeId) (e : Edge) (i : EdgeId) :
    (g.addEdge id e).edge? i = (g.edge? i).or (if id = i then some e else none) := by
  unfold addEdge addEdge? edge?
  by_cases h : g.edges.contains id
  · have found : g.edges[id]?.isSome := by simpa using h
    by_cases hi : id = i
    · subst hi
      cases hg : g.edges[id]? <;> simp_all
    · simp [h, hi]
  · have missing : g.edges[id]? = none := by simpa using h
    by_cases hi : id = i
    · subst hi
      simp [h, missing]
    · simp [h, hi, Std.ExtTreeMap.getElem?_insert]

theorem mem_nodes_addEdge {g : Graph} {id : EdgeId} {e : Edge} {n : NodeId} :
    n ∈ (g.addEdge id e).nodes ↔
      n ∈ g.nodes ∨ (g.edge? id = none ∧ (n = e.source ∨ n = e.target)) := by
  unfold addEdge addEdge? edge?
  by_cases h : g.edges.contains id
  · have found : g.edges[id]? ≠ none := by simpa using h
    simp [h, found]
  · have missing : g.edges[id]? = none := by simpa using h
    simp only [h, missing, Bool.false_eq_true, if_false, Option.getD_some,
      Std.ExtTreeSet.mem_insert, Nat.compare_eq_eq]
    grind

theorem mem_outEdges {g : Graph} {n : NodeId} {id : EdgeId} :
    id ∈ g.outEdges n ↔ ∃ e, g.edge? id = some e ∧ e.source = n := by
  simp [outEdges, edge?, Std.ExtTreeMap.mem_toList_iff_getElem?_eq_some]

/-- Outgoing edges come in increasing order, so none comes twice. -/
theorem pairwise_outEdges (g : Graph) (n : NodeId) : (g.outEdges n).Pairwise (· < ·) := by
  have ordered := g.edges.ordered_keys_toList
  unfold outEdges
  rw [List.pairwise_map]
  exact (ordered.filter _).imp fun h => Nat.compare_eq_lt.mp h

end Graph
end FlowAdmission
