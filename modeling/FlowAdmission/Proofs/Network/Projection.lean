import FlowAdmission.Proofs.Graph.Walk
import FlowAdmission.Proofs.Network.Layers

/-!
# Paths of queues and paths of links

A path of queues runs along a path of links. In a network that was built from nothing the two visit
the same nodes, so one of them is free of loops if and only if the other one is, and the paths of
queues along a path of links are exactly the choices of one queue for each of its links.
-/
namespace FlowAdmission

namespace Graph
variable {g h : Graph} {a b : NodeId} {p q : Path}

/-- The edges of two paths have the same ends, one by one. -/
def SameEnds (g h : Graph) (p q : Path) : Prop :=
  List.Forall₂ (fun e e' => g.edge? e = h.edge? e') p q

namespace SameEnds

theorem stops (same : SameEnds g h p q) : g.stops p = h.stops q := by
  induction same with
  | nil => rfl
  | cons edge _ ih =>
    simp only [Graph.stops] at ih
    simp [Graph.stops, List.filterMap_cons, edge, ih]

theorem leads_iff (same : SameEnds g h p q) : g.Leads a p b ↔ h.Leads a q b := by
  induction same generalizing a with
  | nil => rfl
  | cons edge _ ih => simp [Leads, edge, ih]

theorem simplePath_iff (same : SameEnds g h p q) : g.SimplePath a p b ↔ h.SimplePath a q b := by
  have nonempty : p = [] ↔ q = [] := by
    simp [← List.length_eq_zero_iff, List.Forall₂.length_eq same]
  constructor
  · intro simple
    exact ⟨fun none => simple.nonempty (nonempty.mpr none), same.leads_iff.mp simple.leads,
      same.stops ▸ simple.distinct⟩
  · intro simple
    exact ⟨fun none => simple.nonempty (nonempty.mp none), same.leads_iff.mpr simple.leads,
      same.stops ▸ simple.distinct⟩

end SameEnds
end Graph

namespace Network
variable {K : Type} {net : Network K} {a b : NodeId} {p q : Path}

/-- The path `p` uses one queue of each link of `q`. -/
def RunsAlong (net : Network K) (p q : Path) : Prop :=
  List.Forall₂ (fun e l => e ∈ net.queueEdges l) p q

namespace Layered

theorem runsAlong_iff (layered : net.Layered) :
    p.mapM net.linkOf? = some q ↔ net.RunsAlong p q := by
  simp only [mapM_eq_some_iff, layered.owners, RunsAlong]

theorem sameEnds (layered : net.Layered) (along : net.RunsAlong p q) :
    Graph.SameEnds net.queueGraph net.linkGraph p q :=
  List.Forall₂.imp (fun _ _ mem => layered.edge?_of_mem mem) along

/-- Every edge of a path of queues has a link. -/
theorem exists_links (layered : net.Layered) (leads : net.queueGraph.Leads a p b) :
    ∃ q, net.RunsAlong p q := by
  induction p generalizing a with
  | nil => exact ⟨[], .nil⟩
  | cons e rest ih =>
    obtain ⟨t, edge, leads⟩ := leads
    have ⟨q, along⟩ := ih leads
    rw [layered.queues] at edge
    obtain ⟨l, owner, -⟩ := Option.bind_eq_some_iff.mp edge
    exact ⟨l :: q, .cons ((layered.owners e l).mp owner) along⟩

/-- Every link of a path of links has a queue. -/
theorem exists_queues (layered : net.Layered) (leads : net.linkGraph.Leads a q b) :
    ∃ p, net.RunsAlong p q := by
  induction q generalizing a with
  | nil => exact ⟨[], .nil⟩
  | cons l rest ih =>
    obtain ⟨t, edge, leads⟩ := leads
    have ⟨p, along⟩ := ih leads
    have ⟨e, mem⟩ := List.exists_mem_of_ne_nil _ (layered.queueEdges_ne_nil edge)
    exact ⟨e :: p, .cons mem along⟩

/-- A loop-free path of queues runs along a loop-free path of links, with the same nodes. -/
theorem exists_projection (layered : net.Layered) (simple : net.queueGraph.SimplePath a p b) :
    ∃ q, p.mapM net.linkOf? = some q ∧ net.linkGraph.SimplePath a q b ∧
      net.linkGraph.pathNodes? q = net.queueGraph.pathNodes? p ∧ q.length = p.length := by
  have ⟨q, along⟩ := layered.exists_links simple.leads
  have same := layered.sameEnds along
  have simple' := same.simplePath_iff.mp simple
  refine ⟨q, layered.runsAlong_iff.mpr along, simple', ?_, (List.Forall₂.length_eq along).symm⟩
  rw [simple.leads.pathNodes? simple.nonempty, simple'.leads.pathNodes? simple'.nonempty,
    same.stops]

/-- The loop-free paths of queues along a loop-free path of links are the choices of one queue for
each link. -/
theorem fiber_iff (layered : net.Layered) (simple : net.linkGraph.SimplePath a q b) :
    net.queueGraph.SimplePath a p b ∧ p.mapM net.linkOf? = some q ↔ net.RunsAlong p q := by
  rw [layered.runsAlong_iff]
  refine ⟨fun projected => projected.2, fun along => ⟨?_, along⟩⟩
  exact (layered.sameEnds along).simplePath_iff.mpr simple

end Layered
end Network
end FlowAdmission
