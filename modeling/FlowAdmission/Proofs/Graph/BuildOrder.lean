import FlowAdmission.Proofs.Graph.TableRanking

/-!
# Graphs made in any order

After any calls each id has the ends that it was first given, and the tables hold nothing but the
nodes and edges that were pushed (`Adjacency.Holds`). So the order in which they came in shows
nowhere: not in what is read off the tables, and not in the paths that are found.
-/
namespace FlowAdmission

namespace GraphParts

def record (parts : GraphParts) : GraphCall → GraphParts
  | .node n => { parts with nodes := parts.nodes ++ [n] }
  | .edge id e => { parts with edges := parts.edges ++ [(id, e)] }
  | .collect edges => ⟨[], edges⟩

/-- What was pushed since the graph was last started anew, in the order of the calls. -/
def ofCalls (calls : List GraphCall) : GraphParts := calls.foldl record ⟨[], []⟩

/-- The node was pushed, by itself or with an edge. -/
def Mentions (parts : GraphParts) (n : NodeId) : Prop :=
  n ∈ parts.nodes ∨ ∃ e ∈ parts.edges, n = e.2.source ∨ n = e.2.target

/-- The same nodes, and the same edges in another order, where no id comes twice. -/
structure Reorders (parts parts' : GraphParts) : Prop where
  nodes : ∀ n, parts.Mentions n ↔ parts'.Mentions n
  edges : parts.edges.Perm parts'.edges
  distinct : (parts.edges.map (·.1)).Nodup

end GraphParts

namespace Graph.MadeOf
variable {g g' : Graph} {parts parts' : GraphParts}

/-- A call makes a graph of what it records. -/
theorem draw (made : g.MadeOf parts) (call : GraphCall) :
    (call.draw g).MadeOf (parts.record call) := by
  cases call with
  | node n => exact made.addNode n
  | edge id e => exact made.addEdge id e
  | collect edges => exact madeOf_empty.addEdges edges

theorem drawAll (made : g.MadeOf parts) (calls : List GraphCall) :
    (calls.foldl GraphCall.draw g).MadeOf (calls.foldl GraphParts.record parts) := by
  induction calls generalizing g parts with
  | nil => exact made
  | cons call rest ih => exact ih (made.draw call)

/-- Where no id comes twice, no edge is left out, and so none of its ends. -/
theorem mem_nodes (made : g.MadeOf parts) (distinct : (parts.edges.map (·.1)).Nodup) (n : NodeId) :
    n ∈ g.nodes ↔ parts.Mentions n := by
  rw [made.nodes, Touches, GraphParts.Mentions]
  simp only [made.edges, lookup_eq_some_iff_mem distinct, Prod.exists]

/-- The order of the parts does not matter. -/
theorem eq_of_reorders (made : g.MadeOf parts) (made' : g'.MadeOf parts')
    (reorders : parts.Reorders parts') : g = g' := by
  have distinct' := (reorders.edges.map (·.1)).nodup_iff.mp reorders.distinct
  refine ext_edge? (fun n => ?_) fun id => ?_
  · rw [made.mem_nodes reorders.distinct, made'.mem_nodes distinct', reorders.nodes]
  · refine Option.ext fun e => ?_
    rw [made.edges, made'.edges, lookup_eq_some_iff_mem reorders.distinct,
      lookup_eq_some_iff_mem distinct', reorders.edges.mem_iff]

end Graph.MadeOf

namespace Adjacency
variable {a : Adjacency}

/-- The tables hold what was pushed, and all three places of an edge agree. -/
structure Holds (a : Adjacency) (parts : GraphParts) : Prop where
  /-- An id has the ends that it was first pushed with. -/
  edges : ∀ id, a.edge? id = parts.edges.lookup id
  nodes : ∀ n, n ∈ a.nodes ↔
    n ∈ parts.nodes ∨ ∃ id e, a.edge? id = some e ∧ (n = e.source ∨ n = e.target)
  leaving : ∀ n id, id ∈ a.outEdges n ↔ ∃ e, a.edge? id = some e ∧ e.source = n
  entering : ∀ n id, id ∈ (a.star n).entering ↔ ∃ e, a.edge? id = some e ∧ e.target = n
  ascending : ∀ n, (a.outEdges n).Pairwise (· < ·)

theorem Linked.holds {parts : GraphParts} (linked : a.Linked) (made : a.graph.MadeOf parts) :
    a.Holds parts where
  edges id := by rw [← edge?_graph, made.edges]
  nodes n := by
    rw [← linked.mem_nodes_graph, made.nodes, Graph.Touches]
    simp only [edge?_graph]
  leaving n id := by rw [mem_outEdges, linked.leaving]
  entering := linked.entering
  ascending := a.ascending_outEdges

/-- A push is refused exactly if its id was pushed before, and then it changes nothing. -/
theorem Holds.refuses_iff {parts : GraphParts} (holds : a.Holds parts) (id : EdgeId) (e : Edge) :
    ((a.addEdge id e).1 = false ↔ id ∈ parts.edges.map (·.1)) ∧
      ((a.addEdge id e).1 = false → (a.addEdge id e).2 = a) := by
  have taken : (a.edge? id).isSome ↔ id ∈ parts.edges.map (·.1) := by
    rw [holds.edges, List.lookup_isSome_iff]
    simp only [List.mem_map, beq_iff_eq, eq_comm (a := id)]
  rcases a.addEdge_cases id e with ⟨found, refused⟩ | ⟨fresh, entered⟩
  · rw [refused]
    exact ⟨iff_of_true rfl (taken.mp found), fun _ => rfl⟩
  · rw [entered, ← taken, fresh]
    exact ⟨iff_of_false nofun nofun, nofun⟩

/-- What is read of a graph is read off the tables. Where costs are compared as an order compares
them, searches find the same path and enumerations the same paths in the same order. -/
structure Shows (a : Adjacency) (g : Graph) : Prop where
  nodes : ∀ n, n ∈ g.nodes ↔ n ∈ a.nodes
  edges : ∀ id, g.edge? id = a.edge? id
  outEdges : ∀ n, g.outEdges n = a.outEdges n
  answers : ∀ {W : Type} [Weight W] (q : PathQuery W), q.graph = g → q.OrdersCosts →
    a.shortest? q.weight q.source q.target = q.shortest? ∧
      ∀ count, (a.takePaths q.weight q.source q.target count {}).1 = (q.take count .fresh).1

theorem Linked.shows (linked : a.Linked) : a.Shows a.graph where
  nodes _ := linked.mem_nodes_graph
  edges := a.edge?_graph
  outEdges := linked.outEdges_graph
  answers _ shown orders := Serves.paths ⟨linked, shown, orders⟩

end Adjacency

namespace GraphCall

/-- After any calls the tables hold what was pushed and agree with each other, and they show the
graph that the calls draw. A push is refused exactly if its id is taken, and then nothing changes.
The same nodes and edges in any order give the same graph and tables that are read alike, and
whatever the weights are, any search and any enumeration over them goes the same way. -/
theorem tables_storeAll (calls : List GraphCall) :
    let a := storeAll calls
    let parts := GraphParts.ofCalls calls
    a.Holds parts ∧ a.Shows (drawAll calls) ∧
      (∀ id e, ((a.addEdge id e).1 = false ↔ id ∈ parts.edges.map (·.1)) ∧
        ((a.addEdge id e).1 = false → (a.addEdge id e).2 = a)) ∧
      ∀ calls', parts.Reorders (.ofCalls calls') →
        let a' := storeAll calls'
        drawAll calls' = drawAll calls ∧ a.ReadAlike a' ∧
          ∀ {W : Type} [Weight W] (weight : EdgeId → Option W) (source target : NodeId),
            a'.shortest? weight source target = a.shortest? weight source target ∧
              ∀ count, a'.takePaths weight source target count {} =
                a.takePaths weight source target count {} := by
  intro a parts
  have linked := Adjacency.linked_storeAll calls
  have made : (drawAll calls).MadeOf parts := Graph.madeOf_empty.drawAll calls
  have graph : a.graph = drawAll calls := Adjacency.graph_storeAll calls
  have holds := linked.holds (graph ▸ made)
  refine ⟨holds, graph ▸ linked.shows, holds.refuses_iff, fun calls' reorders => ?_⟩
  have made' : (drawAll calls').MadeOf (.ofCalls calls') := Graph.madeOf_empty.drawAll calls'
  have same : drawAll calls = drawAll calls' := made.eq_of_reorders made' reorders
  have alike : a.ReadAlike (storeAll calls') :=
    linked.readAlike (Adjacency.linked_storeAll calls') <| by
      rw [Adjacency.graph_storeAll, graph, same]
  exact ⟨same.symm, alike, fun weight source target =>
    ⟨alike.shortest? weight source target, fun count =>
      alike.takePaths weight source target count {}⟩⟩

/-- A square with two ways of two edges round it, one of them twice, a loop, and a node apart. -/
def square : List GraphCall :=
  [.edge 1 ⟨0, 1⟩, .edge 2 ⟨0, 2⟩, .edge 3 ⟨1, 3⟩, .edge 4 ⟨2, 3⟩, .edge 5 ⟨1, 3⟩, .edge 6 ⟨2, 2⟩,
    .node 7]

/-- The same parts the other way round, most of them in one list. -/
def squareBackwards : List GraphCall :=
  [.edge 3 ⟨8, 9⟩, .collect [(6, ⟨2, 2⟩), (5, ⟨1, 3⟩), (4, ⟨2, 3⟩), (3, ⟨1, 3⟩)], .node 7,
    .edge 2 ⟨0, 2⟩, .node 3, .edge 1 ⟨0, 1⟩]

/-- Three paths across cost the same, and still come in one order. -/
theorem tables_squareBackwards :
    (GraphParts.ofCalls square).Reorders (.ofCalls squareBackwards) ∧
      (storeAll squareBackwards).outEdges 0 = (storeAll square).outEdges 0 ∧
      (storeAll squareBackwards).shortest? (fun _ => some 1) 0 3 = some (2, [1, 3]) ∧
      ((storeAll squareBackwards).takePaths (fun _ => some 1) 0 3 4 {}).1 =
        [(2, [1, 3]), (2, [2, 4]), (2, [1, 5])] := by
  have reorders : (GraphParts.ofCalls square).Reorders (.ofCalls squareBackwards) := by
    refine ⟨fun n => ?_, by decide, by decide⟩
    simp only [GraphParts.Mentions, GraphParts.ofCalls, GraphParts.record, square, squareBackwards,
      List.foldl, List.nil_append, List.cons_append, List.mem_cons, List.not_mem_nil, or_false,
      exists_eq_or_imp, exists_eq_left]
    tauto
  obtain ⟨-, shows, -, order⟩ := tables_storeAll square
  obtain ⟨-, alike, paths⟩ := order squareBackwards reorders
  obtain ⟨shortest, ranking⟩ := paths (fun _ => some 1) 0 3
  let across : PathQuery Nat := ⟨drawAll square, fun _ => some 1, 0, 3⟩
  have orders : across.OrdersCosts :=
    ⟨fun _ => Nat.lt_irrefl _, fun _ _ _ => Nat.lt_trans, fun _ _ _ less => by omega⟩
  obtain ⟨shortest', ranking'⟩ := shows.answers across rfl orders
  refine ⟨reorders, alike.outEdges 0, ?_, ?_⟩
  · rw [shortest, shortest']
    decide +kernel
  · rw [ranking 4, ranking' 4]
    decide +kernel

end GraphCall
end FlowAdmission
