import FlowAdmission.Proofs.Manager.Guarantees
import FlowAdmission.Proofs.Manager.Index
import FlowAdmission.Proofs.Network.Projection

/-!
# The paths of flows in the path index

The search for room looks at paths of links, while flows are routed over paths of queues. With the
ranked router the two fit together (`Operation.projection_runAll`): the links that a flow runs along
are a loop-free path between the ends of its request, so they are in the path index wherever that
holds the paths of their length.

The cost model has no part in this. What matters is that the router only answers with loop-free
paths (`Embedder.Holding.stable`) and that they stay what they are when the network grows.
-/
namespace FlowAdmission
variable {R C K : Type} [Quantity K] [CostModel C K] [Router R C K]

namespace Embedder
open Transaction

/-- Every path that is held has the property, together with its request. -/
structure Holding (P : Path × Request K → Prop) (x : Embedder R C K) : Prop where
  numbered : x.store.Numbered
  mirrored : x.store.Mirrored
  held : ∀ item ∈ x.store.outstanding, P item

namespace Holding
variable {P Q : Path × Request K → Prop} {x : Embedder R C K} {t : Transaction K}
  {attached : List (Path × Request K)}

omit [Quantity K] [CostModel C K] [Router R C K] in
theorem mono (holding : x.Holding P) (weaker : ∀ item, P item → Q item) : x.Holding Q :=
  ⟨holding.numbered, holding.mirrored, fun item held => weaker item (holding.held item held)⟩

omit [Quantity K] [CostModel C K] [Router R C K] in
/-- A transaction that is undone leaves what it found. -/
theorem rollback (holding : x.Holding P) (steps : Steps attached x.store.begin t) (router : R) :
    Holding P { x with store := t.rollback, router } := by
  have ⟨follows, same⟩ := steps.follows_rollback holding.numbered holding.mirrored
  refine ⟨follows.numbered, follows.mirrored, ?_⟩
  show ∀ item ∈ t.rollback.outstanding, P item
  rw [same.outstanding]
  exact holding.held

omit [Quantity K] [Router R C K] in
/-- At the end of a transaction nothing is held but what it attached and what was held before. -/
theorem commit (holding : x.Holding P) (steps : Steps attached x.store.begin t)
    (new : ∀ item ∈ attached, P item) (net : Network K) (router : R) (costs : C) :
    Holding P (Embedder.commit { x with router, costs } net t) := by
  have follows := steps.follows_commit holding.numbered holding.mirrored
  have perm := steps.perm_begin holding.numbered
  refine ⟨follows.numbered, follows.mirrored, ?_⟩
  show ∀ item ∈ t.unlocked.outstanding, P item
  intro item held
  rw [outstanding_unlocked] at held
  have before := perm.mem_iff.mp (List.mem_append_right _ held)
  rcases List.mem_append.mp before with attached | old
  · exact new item attached
  · exact holding.held item old

/-- What the router's answers have in common is had by every path that is held. -/
theorem stable {net : Network K} (measured : ∀ item, P item → item.2.Measured)
    (answers : ∀ {router : R} {request} {view : Surcharged C} {path}, request.Measured →
      (Router.route router net request view).1 = some path → P (path, request)) :
    Stable net (Holding P : Embedder R C K → Prop) where
  commit holding steps := holding.commit steps (by simp) net _ _
  rollback holding steps := holding.rollback steps _
  embed := by
    intro x penalized request replaces holding fits
    have stored := steps_insert (k := .request) x.store.begin
      ({ request, replaces } : Booking K) (rfl : none = none)
    rcases x.embed_cases net penalized request replaces with
      ⟨router, undone⟩ | ⟨router, path, costs, routed, registered, kept⟩
    · rw [undone]
      exact holding.rollback stored router
    · rw [kept]
      have attached := steps_embedded x.store ({ request, replaces } : Booking K) path rfl
      exact holding.commit attached (List.forall_mem_singleton.mpr (answers fits routed)) net _ _
  measured := by
    intro x flow id request path holding routed
    have ⟨_, booking, _, _, live, same, has_path⟩ := Rerouting.routed?_eq_some routed
    subst same
    have held := holding.held (path, booking.request)
      (Store.mem_outstanding.mpr ⟨id, booking, live, has_path, rfl⟩)
    exact @measured _ held

end Holding

/-- A measured request on a loop-free path of queues between its ends. -/
def Looplessly (net : Network K) (item : Path × Request K) : Prop :=
  item.2.Measured ∧ net.queueGraph.SimplePath item.2.source item.1 item.2.destination

theorem Looplessly.stable (net : Network K) :
    Stable net (Holding (Looplessly net) : Embedder RankedRouter C K → Prop) :=
  Holding.stable (fun _ => And.left) fun measured routed =>
    ⟨measured, (PathQuery.simple_iff.mp (RankedRouter.route?_eq_some routed).1).1⟩

end Embedder

namespace Operation
open Manager Embedder

/-- With the ranked router every flow stays on a loop-free path while the network grows. -/
theorem loopless_runAll {m : Manager RankedRouter C K} (wired : m.network.Wired)
    (holding : m.toEmbedder.Holding (Looplessly m.network)) (operations : List (Operation K)) :
    (runAll m operations).toEmbedder.Holding (Looplessly (runAll m operations).network) := by
  induction operations generalizing m with
  | nil => exact holding
  | cons operation rest ih =>
    have ⟨wired', extends_net⟩ := extends_run wired operation
    have kept := (Looplessly.stable m.network).run holding operation
    exact ih wired' (kept.mono fun _ => And.imp_right (·.mono extends_net.edges))

/-- In every network that was built from nothing a loop-free path of queues runs along a loop-free
path of links with the same nodes, and the loop-free paths of queues along such a path of links are
the choices of one queue for each link, of which there is at least one. After any run with the
ranked router and a rerouting configuration, on a network that grows by such calls, the links that
a routed flow runs along are in the tier of their number for the ends of its request, wherever the
path index has that tier. -/
theorem projection_runAll (id : Nat) (calls : List (BuildingCall K)) :
    let net := BuildingCall.runAll (.empty id) calls
    (∀ s t p, net.queueGraph.SimplePath s p t →
      ∃ q, p.mapM net.linkOf? = some q ∧ net.linkGraph.SimplePath s q t ∧
        net.linkGraph.pathNodes? q = net.queueGraph.pathNodes? p ∧ q.length = p.length) ∧
    (∀ s t q, net.linkGraph.SimplePath s q t →
      (∃ p, net.queueGraph.SimplePath s p t ∧ p.mapM net.linkOf? = some q) ∧
      ∀ p, net.queueGraph.SimplePath s p t ∧ p.mapM net.linkOf? = some q ↔
        List.Forall₂ (fun e l => e ∈ net.queueEdges l) p q) ∧
    ∀ (router : RankedRouter) (costs : C) (c : Rerouting.Configuration)
      (operations : List (Operation K)),
      let m := runAll (Manager.start net router costs (some c)) operations
      ∀ flow r request path, Rerouting.routed? m.store flow = some (r, request, path) →
        ∃ links, path.mapM m.network.linkOf? = some links ∧
          ∀ level tier, m.index.tier request.source request.destination level = .ok tier →
            (∃ q ∈ tier, q.length = path.length) → links ∈ tier := by
  intro net
  have layered : net.Layered := Network.layered_runAll id calls
  refine ⟨fun s t p => layered.exists_projection, fun s t q simple => ⟨?_, fun p => ?_⟩, ?_⟩
  · obtain ⟨p, along⟩ := layered.exists_queues simple.leads
    exact ⟨p, (layered.fiber_iff simple).mpr along⟩
  · exact layered.fiber_iff simple
  · intro router costs c operations m flow r request path routed
    have reached : m.ReachableFrom costs (some c) :=
      (ReachableFrom.start id calls router).runAll operations
    have holding : m.toEmbedder.Holding (Looplessly m.network) :=
      loopless_runAll (Network.wired_runAll id calls)
        ⟨Store.numbered_empty, Store.mirrored_empty, by simp [Manager.start]⟩ operations
    obtain ⟨_, booking, _, _, live, same, has_path⟩ := Rerouting.routed?_eq_some routed
    subst same
    have simple := (holding.held (path, booking.request)
      (Store.mem_outstanding.mpr ⟨r, booking, live, has_path, rfl⟩)).2
    obtain ⟨_, _, built⟩ := reached.reachable.built
    have layered : m.network.Layered := by
      rw [built]
      exact Network.layered_runAll _ _
    obtain ⟨links, along, simple', _, length⟩ := layered.exists_projection simple
    refine ⟨links, along, fun level tier found long_enough => ?_⟩
    obtain ⟨q, listed, same_length⟩ := long_enough
    obtain ⟨configured, indexed⟩ := reached.indexed
    rw [indexed, configured] at found
    obtain ⟨l, all⟩ := PathIndex.tier_build found
    have of_length := ((all q).mp listed).2
    exact (all links).mpr ⟨simple', length.trans (same_length.symm.trans of_length)⟩

end Operation
end FlowAdmission
