import FlowAdmission.Graph.Adjacency
import Mathlib.Data.List.Sort

/-!
# The adjacency of a graph

The three places that hold an edge agree after any calls (`Adjacency.linked_storeAll`). Tables that
agree list what the graph lists that they describe (`Linked.mem_nodes_graph`,
`Linked.outEdges_graph`), and each call does to the tables what it does to that graph
(`Adjacency.graph_store`).
-/
namespace FlowAdmission

/-- Nodes and edges to make a graph of. Of several edges with one id the first counts. -/
structure GraphParts where
  nodes : List NodeId
  edges : List (EdgeId × Edge)

/-! ### Graphs and their parts -/

/-- Where no key comes twice, looking one up finds what is listed with it. -/
theorem lookup_eq_some_iff_mem {α β : Type} [DecidableEq α] {pairs : List (α × β)}
    (distinct : (pairs.map (·.1)).Nodup) {a : α} {b : β} :
    pairs.lookup a = some b ↔ (a, b) ∈ pairs := by
  induction pairs with
  | nil => simp
  | cons pair rest ih =>
    obtain ⟨k, v⟩ := pair
    obtain ⟨once, distinct⟩ := List.nodup_cons.mp distinct
    rw [List.lookup_cons, List.mem_cons]
    by_cases same : a = k
    · subst same
      have missing : (a, b) ∉ rest := fun later => once (List.mem_map.mpr ⟨_, later, rfl⟩)
      simp [missing, eq_comm]
    · rw [beq_false_of_ne same]
      simp [same, ih distinct]

namespace Graph
variable {g : Graph} {parts : GraphParts} {n : NodeId}

@[simp] theorem edge?_addNode (g : Graph) (n : NodeId) (id : EdgeId) :
    (g.addNode n).edge? id = g.edge? id := rfl

@[simp] theorem mem_nodes_addNode {m : NodeId} :
    m ∈ (g.addNode n).nodes ↔ n = m ∨ m ∈ g.nodes := by
  simp [addNode]

/-- Some edge starts or ends at the node. -/
def Touches (g : Graph) (n : NodeId) : Prop :=
  ∃ id e, g.edge? id = some e ∧ (n = e.source ∨ n = e.target)

theorem Touches.mem_nodes (touches : g.Touches n) : n ∈ g.nodes := by
  obtain ⟨id, e, edge, rfl | rfl⟩ := touches
  · exact (g.closed id e edge).1
  · exact (g.closed id e edge).2

theorem Touches.addEdge (touches : g.Touches n) (id : EdgeId) (e : Edge) :
    (g.addEdge id e).Touches n := by
  obtain ⟨i, f, edge, ends⟩ := touches
  exact ⟨i, f, by simp [edge?_addEdge, edge], ends⟩

/-- An edge brings no nodes but its ends. -/
theorem mem_nodes_addEdge_iff {id : EdgeId} {e : Edge} :
    n ∈ (g.addEdge id e).nodes ↔ n ∈ g.nodes ∨ (g.addEdge id e).Touches n := by
  constructor
  · rw [mem_nodes_addEdge]
    rintro (old | ⟨fresh, ends⟩)
    · exact .inl old
    · exact .inr ⟨id, e, by simp [edge?_addEdge, fresh], ends⟩
  · rintro (old | touches)
    · exact mem_nodes_addEdge.mpr (.inl old)
    · exact touches.mem_nodes

/-- The edges are the first ones pushed with their ids, the nodes those pushed and the ends of the
edges. -/
structure MadeOf (g : Graph) (parts : GraphParts) : Prop where
  edges : ∀ id, g.edge? id = parts.edges.lookup id
  nodes : ∀ n, n ∈ g.nodes ↔ n ∈ parts.nodes ∨ g.Touches n

theorem madeOf_empty : Graph.empty.MadeOf ⟨[], []⟩ :=
  ⟨fun _ => edge?_empty _, by simp [Graph.empty, Touches, edge?]⟩

namespace MadeOf

theorem addNode (made : g.MadeOf parts) (n : NodeId) :
    (g.addNode n).MadeOf { parts with nodes := parts.nodes ++ [n] } := by
  refine ⟨made.edges, fun m => ?_⟩
  have touches : (g.addNode n).Touches m ↔ g.Touches m := Iff.rfl
  rw [mem_nodes_addNode, made.nodes m, touches, List.mem_append, List.mem_singleton]
  grind

theorem addEdge (made : g.MadeOf parts) (id : EdgeId) (e : Edge) :
    (g.addEdge id e).MadeOf { parts with edges := parts.edges ++ [(id, e)] } := by
  constructor
  · intro i
    rw [edge?_addEdge, made.edges, List.lookup_append]
    by_cases same : id = i
    · simp [same]
    · simp [same, List.lookup_cons, beq_false_of_ne (Ne.symm same)]
  · intro n
    rw [mem_nodes_addEdge_iff, made.nodes n, or_assoc]
    refine or_congr_right (or_iff_right_of_imp fun touches => touches.addEdge id e)

theorem addNodes (made : g.MadeOf parts) (nodes : List NodeId) :
    (nodes.foldl Graph.addNode g).MadeOf { parts with nodes := parts.nodes ++ nodes } := by
  induction nodes generalizing g parts with
  | nil => simpa using made
  | cons n rest ih => simpa using ih (made.addNode n)

theorem addEdges (made : g.MadeOf parts) (edges : List (EdgeId × Edge)) :
    (edges.foldl (fun g e => g.addEdge e.1 e.2) g).MadeOf
      { parts with edges := parts.edges ++ edges } := by
  induction edges generalizing g parts with
  | nil => simpa using made
  | cons e rest ih => simpa using ih (made.addEdge e.1 e.2)

end MadeOf
end Graph

/-! ### What a call does to the tables -/

namespace Adjacency
variable {a : Adjacency} {n m : NodeId} {id i : EdgeId} {e : Edge}

theorem star_modifyStar (a : Adjacency) (n m : NodeId) (change : Star → Star) :
    (a.modifyStar n change).star m = if n = m then change (a.star n) else a.star m := by
  simp [modifyStar, star, Std.HashMap.getD_insert]

@[simp] theorem mem_stars_modifyStar {change : Star → Star} :
    m ∈ (a.modifyStar n change).stars ↔ n = m ∨ m ∈ a.stars := by
  simp [modifyStar]

@[simp] theorem mem_stars_addNode : m ∈ (a.addNode n).stars ↔ n = m ∨ m ∈ a.stars :=
  mem_stars_modifyStar

@[simp] theorem edge?_addNode (a : Adjacency) (n : NodeId) (id : EdgeId) :
    (a.addNode n).edge? id = a.edge? id := rfl

@[simp] theorem star_addNode (a : Adjacency) (n m : NodeId) : (a.addNode n).star m = a.star m := by
  rw [addNode, star_modifyStar]
  split
  · rename_i same
    rw [same]
  · rfl

theorem edge?_enter (a : Adjacency) (id : EdgeId) (e : Edge) (i : EdgeId) :
    (a.enter id e).edge? i = if id = i then some e else a.edge? i := by
  simp [enter, edge?, Std.HashMap.getElem?_insert]

theorem mem_stars_enter :
    n ∈ (a.enter id e).stars ↔ n ∈ a.stars ∨ n = e.source ∨ n = e.target := by
  have stars : n ∈ (a.enter id e).stars ↔ e.target = n ∨ e.source = n ∨ n ∈ a.stars := by
    simp [enter]
  grind

theorem star_enter (a : Adjacency) (id : EdgeId) (e : Edge) (n : NodeId) :
    (a.enter id e).star n =
      ((a.modifyStar e.source (·.leave id)).modifyStar e.target (·.arrive id)).star n := rfl

theorem mem_leaving_enter :
    i ∈ ((a.enter id e).star n).leaving ↔ i ∈ (a.star n).leaving ∨ (id = i ∧ e.source = n) := by
  rw [star_enter, star_modifyStar, star_modifyStar, star_modifyStar]
  by_cases target : e.target = n <;> by_cases source : e.source = n <;>
    simp [target, source, Star.leave, Star.arrive, or_comm]

theorem mem_entering_enter :
    i ∈ ((a.enter id e).star n).entering ↔ i ∈ (a.star n).entering ∨ (id = i ∧ e.target = n) := by
  rw [star_enter, star_modifyStar, star_modifyStar, star_modifyStar]
  by_cases target : e.target = n <;> by_cases source : e.source = n <;>
    simp [target, source, Star.leave, Star.arrive, or_comm]

theorem addEdge_of_taken (taken : (a.edge? id).isSome) : a.addEdge id e = (false, a) := by
  have contains : a.edges.contains id := by simpa [edge?] using taken
  rw [addEdge, if_pos contains]

theorem addEdge_of_fresh (fresh : a.edge? id = none) : a.addEdge id e = (true, a.enter id e) := by
  have missing : ¬a.edges.contains id := by simpa [edge?] using fresh
  rw [addEdge, if_neg missing]

/-- A push either changes nothing, or enters an edge with a new id. -/
theorem addEdge_cases (a : Adjacency) (id : EdgeId) (e : Edge) :
    ((a.edge? id).isSome ∧ a.addEdge id e = (false, a)) ∨
      (a.edge? id = none ∧ a.addEdge id e = (true, a.enter id e)) := by
  cases found : a.edge? id with
  | none => exact .inr ⟨rfl, addEdge_of_fresh found⟩
  | some f => exact .inl ⟨rfl, addEdge_of_taken (by simp [found])⟩

/-! ### The three places agree -/

/-- An edge stands among those that leave its source and those that enter its target, and nowhere
else, and both are nodes. -/
structure Linked (a : Adjacency) : Prop where
  leaving : ∀ n id, id ∈ (a.star n).leaving ↔ ∃ e, a.edge? id = some e ∧ e.source = n
  entering : ∀ n id, id ∈ (a.star n).entering ↔ ∃ e, a.edge? id = some e ∧ e.target = n
  ends : ∀ {id e}, a.edge? id = some e → e.source ∈ a.stars ∧ e.target ∈ a.stars

theorem linked_empty : Linked {} := by
  constructor <;> simp [star, edge?]

namespace Linked

theorem addNode (linked : a.Linked) (n : NodeId) : (a.addNode n).Linked where
  leaving m id := by simpa using linked.leaving m id
  entering m id := by simpa using linked.entering m id
  ends edge := by
    have known := linked.ends edge
    simp [known]

theorem enter (linked : a.Linked) (fresh : a.edge? id = none) (e : Edge) :
    (a.enter id e).Linked := by
  -- The new id leads to the new edge alone, since no star has it yet.
  have edges : ∀ i f, (a.enter id e).edge? i = some f ↔
      a.edge? i = some f ∨ (id = i ∧ e = f) := by
    intro i f
    rw [edge?_enter]
    by_cases same : id = i
    · subst same
      simp [fresh]
    · simp [same]
  constructor
  · intro n i
    simp only [mem_leaving_enter, linked.leaving, edges]
    grind
  · intro n i
    simp only [mem_entering_enter, linked.entering, edges]
    grind
  · intro i f edge
    simp only [mem_stars_enter]
    rcases (edges i f).mp edge with old | ⟨-, rfl⟩
    · have known := linked.ends old
      simp [known]
    · simp

theorem addEdge (linked : a.Linked) (id : EdgeId) (e : Edge) : (a.addEdge id e).2.Linked := by
  rcases a.addEdge_cases id e with ⟨-, refused⟩ | ⟨fresh, entered⟩
  · rw [refused]
    exact linked
  · rw [entered]
    exact linked.enter fresh e

theorem ofEdges (edges : List (EdgeId × Edge)) : (Adjacency.ofEdges edges).Linked := by
  unfold Adjacency.ofEdges
  exact List.foldlRecOn _ _ linked_empty fun a linked e _ => linked.addEdge e.1 e.2

theorem store (linked : a.Linked) (call : GraphCall) : (call.store a).Linked := by
  cases call with
  | node n => exact linked.addNode n
  | edge id e => exact linked.addEdge id e
  | collect edges => exact ofEdges edges

end Linked

theorem linked_storeAll (calls : List GraphCall) : (GraphCall.storeAll calls).Linked := by
  unfold GraphCall.storeAll
  exact List.foldlRecOn _ _ linked_empty fun a linked call _ => linked.store call

/-! ### The graph that the tables describe -/

/-- The graph is made of what the tables list. -/
theorem madeOf_graph (a : Adjacency) : a.graph.MadeOf ⟨a.stars.keys, a.edges.toList⟩ := by
  have nodes : a.stars.fold (fun g n _ => g.addNode n) Graph.empty =
      a.stars.keys.foldl Graph.addNode .empty := by
    rw [Std.HashMap.fold_eq_foldl_toList, ← Std.HashMap.map_fst_toList_eq_keys, List.foldl_map]
  rw [graph, nodes, Std.HashMap.fold_eq_foldl_toList]
  simpa using (Graph.madeOf_empty.addNodes a.stars.keys).addEdges a.edges.toList

theorem edge?_graph (a : Adjacency) (id : EdgeId) : a.graph.edge? id = a.edge? id := by
  have distinct : (a.edges.toList.map (·.1)).Nodup := by
    rw [Std.HashMap.map_fst_toList_eq_keys]
    exact a.edges.nodup_keys
  refine Option.ext fun e => ?_
  rw [a.madeOf_graph.edges, lookup_eq_some_iff_mem distinct,
    Std.HashMap.mem_toList_iff_getElem?_eq_some, edge?]

theorem mem_nodes_graph : n ∈ a.graph.nodes ↔ n ∈ a.stars ∨ a.graph.Touches n := by
  rw [a.madeOf_graph.nodes, Std.HashMap.mem_keys]

theorem graph_empty : ({} : Adjacency).graph = .empty := by
  refine Graph.ext_edge? (fun n => ?_) fun id => ?_
  · simp [mem_nodes_graph, Graph.Touches, edge?_graph, edge?, Graph.empty]
  · rw [edge?_graph, Graph.edge?_empty]
    simp [edge?]

theorem graph_addNode (a : Adjacency) (n : NodeId) : (a.addNode n).graph = a.graph.addNode n := by
  refine Graph.ext_edge? (fun m => ?_) fun id => ?_
  · rw [mem_nodes_graph, Graph.mem_nodes_addNode, mem_nodes_graph, mem_stars_addNode, or_assoc,
      Graph.Touches, Graph.Touches]
    simp only [edge?_graph, edge?_addNode]
  · rw [edge?_graph, edge?_addNode, Graph.edge?_addNode, edge?_graph]

theorem graph_enter (fresh : a.edge? id = none) (e : Edge) :
    (a.enter id e).graph = a.graph.addEdge id e := by
  have edges : ∀ i, (a.enter id e).graph.edge? i = (a.graph.addEdge id e).edge? i := by
    intro i
    rw [edge?_graph, edge?_enter, Graph.edge?_addEdge, edge?_graph]
    by_cases same : id = i
    · subst same
      simp [fresh]
    · simp [same]
  refine Graph.ext_edge? (fun n => ?_) edges
  have touches : (a.enter id e).graph.Touches n ↔ (a.graph.addEdge id e).Touches n := by
    simp only [Graph.Touches, edges]
  have kept : a.graph.Touches n → (a.graph.addEdge id e).Touches n :=
    fun old => old.addEdge id e
  have joined : n = e.source ∨ n = e.target → (a.graph.addEdge id e).Touches n :=
    fun ends => ⟨id, e, by simp [Graph.edge?_addEdge, edge?_graph, fresh], ends⟩
  rw [mem_nodes_graph, mem_stars_enter, touches, Graph.mem_nodes_addEdge_iff, mem_nodes_graph]
  grind

theorem graph_addEdge (a : Adjacency) (id : EdgeId) (e : Edge) :
    (a.addEdge id e).2.graph = a.graph.addEdge id e := by
  rcases a.addEdge_cases id e with ⟨taken, refused⟩ | ⟨fresh, entered⟩
  · have none : a.graph.addEdge? id e = none := by rwa [Graph.addEdge?_eq_none, edge?_graph]
    rw [refused, Graph.addEdge, none, Option.getD_none]
  · rw [entered, graph_enter fresh]

theorem graph_ofEdges (edges : List (EdgeId × Edge)) :
    (Adjacency.ofEdges edges).graph = .ofEdges edges := by
  rw [Adjacency.ofEdges, Graph.ofEdges, ← graph_empty]
  exact (List.foldl_hom graph fun a e => (graph_addEdge a e.1 e.2).symm).symm

theorem graph_store (a : Adjacency) (call : GraphCall) :
    (call.store a).graph = call.draw a.graph := by
  cases call with
  | node n => exact graph_addNode a n
  | edge id e => exact graph_addEdge a id e
  | collect edges => exact graph_ofEdges edges

/-- The calls draw the graph that the tables describe. -/
theorem graph_storeAll (calls : List GraphCall) :
    (GraphCall.storeAll calls).graph = GraphCall.drawAll calls := by
  rw [GraphCall.storeAll, GraphCall.drawAll, ← graph_empty]
  exact (List.foldl_hom graph fun a call => (graph_store a call).symm).symm

/-! ### What is read off the tables -/

theorem ascending_nodes (a : Adjacency) : a.nodes.Pairwise (· < ·) := by
  have distinct := (List.mergeSort_perm a.stars.keys (· ≤ ·)).nodup_iff.mpr a.stars.nodup_keys
  exact (List.sortedLE_mergeSort.sortedLT_of_nodup distinct).pairwise

theorem ascending_outEdges (a : Adjacency) (n : NodeId) : (a.outEdges n).Pairwise (· < ·) := by
  have listed : (a.star n).leaving.toList.Nodup :=
    (a.star n).leaving.distinct_toList.imp fun apart same => by simp [same] at apart
  have distinct := (List.mergeSort_perm _ (· ≤ ·)).nodup_iff.mpr listed
  exact (List.sortedLE_mergeSort.sortedLT_of_nodup distinct).pairwise

theorem mem_nodes : n ∈ a.nodes ↔ n ∈ a.stars := by
  rw [nodes, List.mem_mergeSort, Std.HashMap.mem_keys]

theorem mem_outEdges : id ∈ a.outEdges n ↔ id ∈ (a.star n).leaving := by
  rw [outEdges, List.mem_mergeSort, Std.HashSet.mem_toList]

/-- The ends of edges are nodes already, so the graph has no further ones. -/
theorem Linked.mem_nodes_graph (linked : a.Linked) : n ∈ a.graph.nodes ↔ n ∈ a.nodes := by
  rw [Adjacency.mem_nodes_graph, Adjacency.mem_nodes, or_iff_left_of_imp]
  rintro ⟨id, e, edge, rfl | rfl⟩ <;> rw [edge?_graph] at edge
  · exact (linked.ends edge).1
  · exact (linked.ends edge).2

/-- The star of a node lists the edges that the table of edges lets leave it. -/
theorem Linked.outEdges_graph (linked : a.Linked) (n : NodeId) :
    a.graph.outEdges n = a.outEdges n := by
  refine (a.graph.pairwise_outEdges n).eq_of_mem_iff (a.ascending_outEdges n) fun id => ?_
  rw [Graph.mem_outEdges, mem_outEdges, linked.leaving]
  simp only [edge?_graph]

/-- Two tables from which the same is read. -/
structure ReadAlike (a a' : Adjacency) : Prop where
  nodes : a'.nodes = a.nodes
  edges : ∀ id, a'.edge? id = a.edge? id
  outEdges : ∀ n, a'.outEdges n = a.outEdges n

/-- Tables that agree and describe one graph are read alike. -/
theorem Linked.readAlike {a' : Adjacency} (linked : a.Linked) (linked' : a'.Linked)
    (same : a'.graph = a.graph) : a.ReadAlike a' where
  nodes := by
    refine a'.ascending_nodes.eq_of_mem_iff a.ascending_nodes fun n => ?_
    rw [← linked'.mem_nodes_graph, ← linked.mem_nodes_graph, same]
  edges id := by rw [← edge?_graph, ← edge?_graph, same]
  outEdges n := by rw [← linked'.outEdges_graph, ← linked.outEdges_graph, same]

end Adjacency
end FlowAdmission
