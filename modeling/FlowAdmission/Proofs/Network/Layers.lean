import FlowAdmission.Proofs.Network.Growth
import FlowAdmission.Proofs.Network.Ownership

/-!
# The two graphs of a network agree

A network keeps its links in one graph and its queues in another, and both grow call by call from
one supply of numbers. In a network that was built from nothing they have the same nodes, and every
queue has the ends of the link it runs along (`Network.layered_runAll`).
-/
namespace FlowAdmission

/-- Where a link starts and where it ends. -/
def Link.ends {K : Type} (link : Link K) : Edge := ⟨link.source, link.destination⟩

/-- An edge between nodes of a graph brings no nodes. -/
theorem Graph.mem_nodes_addEdge_of_ends {g : Graph} {ends : Edge} (starts : ends.source ∈ g.nodes)
    (arrives : ends.target ∈ g.nodes) (id : EdgeId) (n : NodeId) :
    n ∈ (g.addEdge id ends).nodes ↔ n ∈ g.nodes := by
  rw [Graph.mem_nodes_addEdge]
  refine or_iff_left_of_imp ?_
  rintro ⟨-, rfl | rfl⟩
  · exact starts
  · exact arrives

namespace Network
variable {K : Type} {net : Network K} {e l : EdgeId}

/-- Both graphs have the nodes of the network, the edges of one are its links and those of the
other their queues. Every link has a queue. -/
structure Layered (net : Network K) : Prop where
  nodes : ∀ n, n ∈ net.linkGraph.nodes ↔ (net.node? n).isSome
  queue_nodes : ∀ n, n ∈ net.queueGraph.nodes ↔ (net.node? n).isSome
  links : ∀ l, net.linkGraph.edge? l = (net.link? l).map Link.ends
  queues : ∀ e, net.queueGraph.edge? e = (net.linkOf? e).bind net.linkGraph.edge?
  owners : ∀ e l, net.linkOf? e = some l ↔ e ∈ net.queueEdges l
  served : ∀ {l link}, net.link? l = some link → net.queueEdges l ≠ []

theorem layered_empty (id : Nat) : (empty id : Network K).Layered := by
  constructor <;> simp [empty, node?, link?, linkOf?, queueEdges, Graph.empty, Graph.edge?]

/-- The queues of a link bring no nodes. -/
theorem mem_nodes_foldl_addEdge (queues : List (Queue K)) {ends : Edge} {g : Graph}
    (starts : ends.source ∈ g.nodes) (arrives : ends.target ∈ g.nodes) (n : NodeId) :
    n ∈ (queues.foldl (fun g queue => g.addEdge queue.edge ends) g).nodes ↔ n ∈ g.nodes := by
  induction queues generalizing g with
  | nil => rfl
  | cons queue rest ih =>
    have same := Graph.mem_nodes_addEdge_of_ends starts arrives queue.edge
    exact (ih ((same _).mpr starts) ((same _).mpr arrives)).trans (same n)

namespace Layered

/-- A queue joins the ends of its link. -/
theorem edge?_of_mem (layered : net.Layered) (mem : e ∈ net.queueEdges l) :
    net.queueGraph.edge? e = net.linkGraph.edge? l := by
  rw [layered.queues, (layered.owners e l).mpr mem]
  rfl

/-- An edge of the link graph has queues. -/
theorem queueEdges_ne_nil (layered : net.Layered) {edge : Edge}
    (found : net.linkGraph.edge? l = some edge) : net.queueEdges l ≠ [] := by
  rw [layered.links] at found
  obtain ⟨link, live, -⟩ := Option.map_eq_some_iff.mp found
  exact layered.served live

/-- The single interface of a host is a node of both graphs. -/
theorem mem_nodes_of_single (layered : net.Layered) (owned : net.Owned) {role : Role} {h : HostId}
    {n : NodeId} (single : net.singleInterface role h = .ok n) : n ∈ net.linkGraph.nodes := by
  obtain ⟨node, live, -⟩ := Option.bind_eq_some_iff.mp (owned.hostOf?_singleInterface single)
  exact (layered.nodes n).mpr (Option.isSome_of_eq_some live)

/-- Hosts have no part in the graphs. -/
theorem withHosts (layered : net.Layered) (hosts : List Host) :
    { net with hosts := hosts }.Layered :=
  ⟨layered.nodes, layered.queue_nodes, layered.links, layered.queues, layered.owners,
    layered.served⟩

/-- A new node enters both graphs. -/
theorem addNode (layered : net.Layered) (name : String) (host : Option HostId) :
    (net.addNode name host).2.Layered := by
  have entered : ∀ {g : Graph}, (∀ n, n ∈ g.nodes ↔ (net.node? n).isSome) →
      ∀ n, n ∈ (g.addNode net.nextId).nodes ↔ ((net.addNode name host).2.node? n).isSome := by
    intro g nodes n
    have before := nodes n
    by_cases new : net.nextId = n
    · simp [Network.addNode, Graph.addNode, node?, new]
    · simpa [Network.addNode, Graph.addNode, node?, new, Std.ExtTreeMap.getElem?_insert]
        using before
  exact ⟨entered layered.nodes, entered layered.queue_nodes, layered.links, layered.queues,
    layered.owners, layered.served⟩

variable [Quantity K]

section addLink
variable {source destination : NodeId} {rate propagationDelay : K} {buffers : List K}

omit [Quantity K] in
/-- Numbers that were not given out are free in the graphs as well. -/
theorem edge?_eq_none (layered : net.Layered) (fresh : net.link? l = none) :
    net.linkGraph.edge? l = none := by
  rw [layered.links, fresh]
  rfl

theorem queueEdges_addLink (l : EdgeId) :
    (net.addLink source destination rate propagationDelay buffers).2.queueEdges l =
      if net.nextId = l then
        (net.nextLink source destination rate propagationDelay buffers).queues.map (·.edge)
      else net.queueEdges l := by
  simp only [queueEdges, link?_addLink]
  by_cases new : net.nextId = l
  · rw [if_pos new, if_pos new]
  · rw [if_neg new, if_neg new]

theorem linkEdge?_addLink (layered : net.Layered) (wired : net.Wired) (l : EdgeId) :
    (net.addLink source destination rate propagationDelay buffers).2.linkGraph.edge? l =
      if net.nextId = l then some ⟨source, destination⟩ else net.linkGraph.edge? l := by
  simp only [Network.addLink, foldl_addQueue, Graph.edge?_addEdge]
  by_cases new : net.nextId = l
  · subst new
    rw [layered.edge?_eq_none (wired.links_fresh _ (Nat.le_refl _))]
    rfl
  · simp [new]

/-- The edges of the queues of a new link are new. -/
theorem linkOf?_nextLink (wired : net.Wired)
    (mem : e ∈ (net.nextLink source destination rate propagationDelay buffers).queues.map
      (·.edge)) : net.linkOf? e = none := by
  obtain ⟨queue, among, rfl⟩ := List.mem_map.mp mem
  exact wired.queues_fresh _ (Nat.le_of_lt (edge_nextLink among).1)

theorem queueEdge?_addLink (layered : net.Layered) (wired : net.Wired) (e : EdgeId) :
    (net.addLink source destination rate propagationDelay buffers).2.queueGraph.edge? e =
      if e ∈ (net.nextLink source destination rate propagationDelay buffers).queues.map (·.edge)
      then some ⟨source, destination⟩ else net.queueGraph.edge? e := by
  have grown : (net.addLink source destination rate propagationDelay
      buffers).2.queueGraph.edge? e = (net.queueGraph.edge? e).or
        (if e ∈ (net.nextLink source destination rate propagationDelay buffers).queues.map
          (·.edge) then some ⟨source, destination⟩ else none) := by
    simp only [Network.addLink, foldl_addQueue, edge?_foldl_addEdge]
    rfl
  rw [grown]
  split
  · rename_i new
    rw [layered.queues, linkOf?_nextLink wired new]
    rfl
  · exact Option.or_none

/-- A new link enters the link graph between its nodes, its queues enter the queue graph. -/
theorem addLink (layered : net.Layered) (wired : net.Wired)
    (starts : (net.node? source).isSome) (arrives : (net.node? destination).isSome)
    (some_queue : buffers ≠ []) :
    (net.addLink source destination rate propagationDelay buffers).2.Layered := by
  have fresh := wired.links_fresh _ (Nat.le_refl _)
  have unowned : ∀ e, e ∉ net.queueEdges net.nextId := by simp [queueEdges, fresh]
  have nodes : ∀ n, (net.addLink source destination rate propagationDelay buffers).2.node? n =
      net.node? n := fun n => by simp only [Network.addLink, foldl_addQueue, node?]
  refine ⟨fun n => ?_, fun n => ?_, fun l => ?_, fun e => ?_, fun e l => ?_,
    fun {l link} live => ?_⟩
  · rw [nodes, ← layered.nodes]
    simp only [Network.addLink, foldl_addQueue]
    exact Graph.mem_nodes_addEdge_of_ends ((layered.nodes _).mpr starts)
      ((layered.nodes _).mpr arrives) _ n
  · rw [nodes, ← layered.queue_nodes]
    simp only [Network.addLink, foldl_addQueue]
    exact mem_nodes_foldl_addEdge _ ((layered.queue_nodes _).mpr starts)
      ((layered.queue_nodes _).mpr arrives) n
  · rw [layered.linkEdge?_addLink wired, link?_addLink]
    split
    · rfl
    · exact layered.links l
  · rw [layered.queueEdge?_addLink wired, linkOf?_addLink]
    split
    · exact ((layered.linkEdge?_addLink wired _).trans (if_pos rfl)).symm
    · rw [layered.queues]
      cases owner : net.linkOf? e with
      | none => rfl
      | some l =>
        have old : net.nextId ≠ l := by
          rintro rfl
          exact unowned e ((layered.owners e _).mp owner)
        exact ((layered.linkEdge?_addLink wired _).trans (if_neg old)).symm
  · rw [linkOf?_addLink, queueEdges_addLink]
    by_cases new : net.nextId = l
    · subst new
      rw [if_pos rfl]
      split
      · rename_i mem
        exact iff_of_true rfl mem
      · rename_i mem
        exact iff_of_false (fun owner => unowned e ((layered.owners e _).mp owner)) mem
    · rw [if_neg new]
      split
      · rename_i mem
        refine iff_of_false (fun same => new (Option.some.inj same)) fun among => ?_
        rw [← layered.owners, linkOf?_nextLink wired mem] at among
        cases among
      · exact layered.owners e l
  · rw [link?_addLink] at live
    rw [queueEdges_addLink]
    split
    · simpa [nextLink, queuesFrom] using some_queue
    · rename_i old
      exact layered.served ((if_neg old).symm.trans live)

theorem createLink (layered : net.Layered) (wired : net.Wired) {made : EdgeId}
    {net' : Network K} (answered : net.createLink source destination rate propagationDelay buffers =
      .ok (made, net')) : net'.Layered := by
  unfold Network.createLink at answered
  split at answered
  · cases answered
  · rename_i ends
    split at answered
    · cases answered
    · split at answered
      · cases answered
      · rename_i right
        cases answered
        simp only [not_or] at right
        rw [Classical.not_not] at ends
        exact layered.addLink wired (by simpa [node?] using ends.1) (by simpa [node?] using ends.2)
          right.2.2.1

end addLink

/-- One call keeps the graphs in step. -/
theorem run (layered : net.Layered) (wired : net.Wired) (call : BuildingCall K) :
    (call.run net).2.Layered := by
  cases call with
  | host name => exact (layered.addNode _ _).withHosts _
  | interface h =>
    cases answered : net.addInterface h with
    | error e => simpa only [BuildingCall.run, answered] using layered
    | ok made =>
      simp only [BuildingCall.run, answered]
      unfold Network.addInterface at answered
      split at answered
      · cases answered
      · cases answered
        exact (layered.addNode _ _).withHosts _
  | node name => exact layered.addNode _ _
  | link source destination rate propagationDelay buffers =>
    cases answered : net.createLink source destination rate propagationDelay buffers with
    | error e => simpa only [BuildingCall.run, answered] using layered
    | ok made => simpa only [BuildingCall.run, answered] using layered.createLink wired answered
  | simpleLink source destination rate =>
    cases answered : net.createSimpleLink source destination rate with
    | error e => simpa only [BuildingCall.run, answered] using layered
    | ok made => simpa only [BuildingCall.run, answered] using layered.createLink wired answered

theorem runAll (layered : net.Layered) (wired : net.Wired) (calls : List (BuildingCall K)) :
    (BuildingCall.runAll net calls).Layered := by
  induction calls generalizing net with
  | nil => exact layered
  | cons call rest ih => exact ih (layered.run wired call) (wired.run call).1

end Layered

/-- Every network that was built from nothing. -/
theorem layered_runAll [Quantity K] (id : Nat) (calls : List (BuildingCall K)) :
    (BuildingCall.runAll (empty id) calls).Layered :=
  (layered_empty id).runAll (wired_empty id) calls

end Network
end FlowAdmission
