import FlowAdmission.Proofs.Cost.Balance
import FlowAdmission.Proofs.Manager.Steps

/-!
# What the calls of a manager keep

The calls change the store, the router and the cost model in three ways: a transaction without
paths is committed, it is undone, or a request is embedded. What each of these keeps
(`Embedder.Stable`) holds after every call (`Embedder.Stable.run`), and also inside a search for
room, while a flow holds its old path and its new one (`Embedder.Stable.moving`).
-/
namespace FlowAdmission
variable {R C K : Type} [Quantity K] [CostModel C K] [Router R C K]

/-- The request of a demand has a rate and a burst that are amounts. -/
theorem FlowDemand.measured_request (d : FlowDemand K) (source destination : NodeId) :
    (d.request source destination).Measured := by
  intro _
  exact ⟨(Exact.isAmount_natCast _).div_natCast (by omega), Exact.isAmount_natCast _⟩

/-- The states inside a search in which a flow has been given its new path and not yet lost the
old one: `y` is such a state if the search starts in `x` and goes through the flows in order. -/
inductive Rerouting.Midway (env : Setting K) (blocked : Request K) :
    List FlowId → Embedder R C K → Embedder R C K → Prop
  | moving {flow : FlowId} {rest : List FlowId} {x y : Embedder R C K} {old new : RequestId}
      {request : Request K} {oldPath : Path} {penalized : Std.ExtTreeSet EdgeId}
      (routed : routed? x.store flow = some (old, request, oldPath))
      (avoids : avoidedEdges env.network env.index env.configuration oldPath blocked =
        .ok penalized)
      (embedded : x.embed env.network penalized request (some old) = (some new, y)) :
      Midway env blocked (flow :: rest) x y
  | stayed {flow : FlowId} {rest : List FlowId} {x x' y : Embedder R C K}
      (answered : move env x flow blocked = (.ok false, x'))
      (later : Midway env blocked rest x' y) : Midway env blocked (flow :: rest) x y
  | moved {flow : FlowId} {rest : List FlowId} {x x' x'' y : Embedder R C K}
      (answered : move env x flow blocked = (.ok true, x'))
      (refused : x'.embed env.network ∅ blocked none = (none, x''))
      (later : Midway env blocked rest x'' y) : Midway env blocked (flow :: rest) x y

/-- A search that has moved a flow has passed through a state in which the flow had both its
paths. -/
theorem Rerouting.exists_midway {env : Setting K} {blocked : Request K} {flows : List FlowId}
    {record : Record} {outcome : Outcome} {x x' : Embedder R C K}
    (answered : tryEach env blocked flows record x = (.ok outcome, x'))
    (moved : outcome.record.reconfigured ≠ record.reconfigured) :
    ∃ y, Midway env blocked flows x y := by
  induction flows generalizing record x with
  | nil =>
    cases answered
    exact absurd rfl moved
  | cons flow rest ih =>
    unfold tryEach at answered
    dsimp only at answered
    split at answered
    · cases answered
    · rename_i stayed
      obtain ⟨y, later⟩ := ih answered moved
      exact ⟨y, .stayed stayed later⟩
    · rename_i went
      unfold move at went
      split at went
      · cases went
      · rename_i old request oldPath routed
        split at went
        · cases went
        · rename_i penalized avoids
          split at went
          · cases went
          · rename_i new y embedded
            exact ⟨y, .moving routed avoids embedded⟩

/-- A call that creates the flow begins a search for room in `x`: the demand passes, its request
runs between two nodes and could not be embedded at once, and rerouting is configured. -/
structure Manager.Searches (m : Manager R C K) (d : FlowDemand K) (env : Rerouting.Setting K)
    (blocked : Request K) (x : Embedder R C K) : Prop where
  named : d.name ≠ ""
  begun : ∃ n n' m', m.inspect (d.check m.network) = (.ok (n, n'), m') ∧ n ≠ n' ∧
    blocked = d.request n n' ∧ m'.toEmbedder.embed m'.network ∅ blocked none = (none, x) ∧
    m'.setting? = some env

/-- A call that creates the flow passes through `y`, where another flow is being moved and holds
both its paths. -/
structure Manager.PassesThrough (m : Manager R C K) (d : FlowDemand K) (y : Embedder R C K) :
    Prop where
  named : d.name ≠ ""
  searched : ∃ n n' m' env x flows, m.inspect (d.check m.network) = (.ok (n, n'), m') ∧ n ≠ n' ∧
    m'.toEmbedder.embed m'.network ∅ (d.request n n') none = (none, x) ∧
    m'.setting? = some env ∧ Rerouting.tryOrder env x.store (d.request n n') = .ok flows ∧
    Rerouting.Midway env (d.request n n') flows x y

namespace Embedder
open Transaction

/-- What transactions and embeddings on the network keep. Requests are embedded that are measured
or that a routed flow has already. -/
structure Stable (net : Network K) (P : Embedder R C K → Prop) : Prop where
  commit : ∀ {x t}, P x → Steps [] x.store.begin t → P (x.commit net t)
  rollback : ∀ {x t}, P x → Steps [] x.store.begin t → P { x with store := t.rollback }
  embed : ∀ {x} penalized {request} replaces, P x → request.Measured →
    P (x.embed net penalized request replaces).2
  measured : ∀ {x flow id request path}, P x →
    Rerouting.routed? x.store flow = some (id, request, path) → request.Measured

namespace Stable

section search
variable {P : Embedder R C K → Prop} {env : Rerouting.Setting K} {x y : Embedder R C K}
  {blocked : Request K}

theorem move (stable : Stable env.network P) (holds : P x) (flow : FlowId) (blocked : Request K) :
    P (Rerouting.move env x flow blocked).2 := by
  unfold Rerouting.move
  split
  · exact holds
  · rename_i id request path routed
    split
    · exact holds
    · rename_i penalized _
      have embedded := stable.embed penalized (some id) holds (stable.measured holds routed)
      split <;> rename_i answered <;> rw [answered] at embedded
      · exact embedded
      · exact stable.commit embedded (steps_relink flow id _ _)

/-- Whatever is moved, and however the search ends. -/
theorem tryEach (stable : Stable env.network P) (holds : P x) (measured : blocked.Measured)
    (flows : List FlowId) (record : Rerouting.Record) :
    P (Rerouting.tryEach env blocked flows record x).2 := by
  induction flows generalizing x record with
  | nil => exact holds
  | cons flow rest ih =>
    have moved := stable.move holds flow blocked
    unfold Rerouting.tryEach
    dsimp only
    split <;> rename_i answered <;> rw [answered] at moved
    · exact moved
    · exact ih moved _
    · have embedded := stable.embed ∅ none moved measured
      split <;> rename_i tried <;> rw [tried] at embedded
      · exact embedded
      · exact ih embedded _

theorem makeRoom (stable : Stable env.network P) (holds : P x) (measured : blocked.Measured) :
    P (Rerouting.makeRoom env x blocked).2 := by
  unfold Rerouting.makeRoom
  split
  · exact holds
  · exact stable.tryEach holds measured _ _

/-- A state in which a flow has both its paths comes from one in which it was embedded anew. -/
theorem midway (stable : Stable env.network P) (measured : blocked.Measured)
    {flows : List FlowId} (midway : Rerouting.Midway env blocked flows x y) (holds : P x) :
    ∃ z flow old new request oldPath penalized, P z ∧
      Rerouting.routed? z.store flow = some (old, request, oldPath) ∧
      z.embed env.network penalized request (some old) = (some new, y) := by
  induction midway with
  | moving routed _ embedded => exact ⟨_, _, _, _, _, _, _, holds, routed, embedded⟩
  | @stayed flow _ _ _ _ answered _ ih =>
    have kept := stable.move holds flow blocked
    rw [answered] at kept
    exact ih kept
  | @moved flow _ _ _ _ _ answered refused _ ih =>
    have moved := stable.move holds flow blocked
    rw [answered] at moved
    have embedded := stable.embed ∅ none moved measured
    rw [refused] at embedded
    exact ih embedded

end search

variable {P : Embedder R C K → Prop} {m : Manager R C K}

theorem attempt {α : Type} (stable : Stable m.network P) (holds : P m.toEmbedder)
    {body : Transaction K → Except Error α × Transaction K}
    (steps : Steps [] m.store.begin (body m.store.begin).2) : P (m.attempt body).2.toEmbedder := by
  unfold Manager.attempt
  split <;> rename_i answered <;> rw [answered] at steps
  · exact stable.commit holds steps
  · exact stable.rollback holds steps

theorem insertFlow (stable : Stable m.network P) (holds : P m.toEmbedder) (flow : Flow K) :
    P (m.insertFlow flow).2.toEmbedder :=
  stable.commit holds (steps_addFlow flow _)

theorem setting (stable : Stable m.network P) {env : Rerouting.Setting K}
    (configured : m.setting? = some env) : Stable env.network P := by
  obtain ⟨_, _, rfl⟩ := Option.map_eq_some_iff.mp configured
  exact stable

theorem createBlockedFlow (stable : Stable m.network P) (holds : P m.toEmbedder)
    (d : FlowDemand K) {request : Request K} (measured : request.Measured) :
    P (m.createBlockedFlow d request).2.toEmbedder := by
  unfold Manager.createBlockedFlow
  split
  · exact holds
  · rename_i env configured
    have room := (stable.setting configured).makeRoom holds measured
    split <;> rename_i x answered <;> rw [answered] at room
    · exact room
    · exact room
    · exact stable.insertFlow (m := { m with toEmbedder := x }) room _

theorem createBetween (stable : Stable m.network P) (holds : P m.toEmbedder) (d : FlowDemand K)
    (source destination : NodeId) : P (m.createBetween d source destination).2.toEmbedder := by
  have measured : (d.request source destination).Measured := d.measured_request source destination
  unfold Manager.createBetween
  split
  · exact stable.insertFlow holds _
  · have embedded := stable.embed ∅ none holds measured
    dsimp only
    split <;> rename_i x tried <;> rw [tried] at embedded
    · exact stable.insertFlow (m := { m with toEmbedder := x }) embedded _
    · exact stable.createBlockedFlow (m := { m with toEmbedder := x }) embedded d measured

theorem inspect_check (stable : Stable m.network P) (holds : P m.toEmbedder) (d : FlowDemand K) :
    P (m.inspect (d.check m.network)).2.toEmbedder :=
  stable.rollback holds (steps_check d m.network m.store.begin)

theorem createFlow (stable : Stable m.network P) (holds : P m.toEmbedder) (d : FlowDemand K) :
    P (m.createFlow d).2.toEmbedder := by
  have checked := stable.inspect_check holds d
  unfold Manager.createFlow
  split
  · exact holds
  · split <;> rename_i m' answered <;> rw [answered] at checked
    · exact checked
    · have same : m'.network = m.network := congrArg (·.2.network) answered.symm
      exact createBetween (same ▸ stable) checked d _ _

/-- It holds before a flow is moved to make room for another, and while it has both its paths. -/
theorem moving (stable : Stable m.network P) (holds : P m.toEmbedder) {d : FlowDemand K}
    {y : Embedder R C K} (passes : m.PassesThrough d y) :
    P y ∧ ∃ z flow old new request oldPath penalized, P z ∧
      Rerouting.routed? z.store flow = some (old, request, oldPath) ∧
      z.embed m.network penalized request (some old) = (some new, y) := by
  obtain ⟨n, n', m', env, x, flows, checked, _, refused, configured, _, midway⟩ := passes.searched
  have looked := stable.inspect_check holds d
  have same : m'.network = m.network := congrArg (·.2.network) checked.symm
  have stable : Stable m'.network P := same ▸ stable
  rw [checked] at looked
  have embedded := stable.embed ∅ none looked (d.measured_request n n')
  rw [refused] at embedded
  have there : env.network = m.network := by
    obtain ⟨_, _, rfl⟩ := Option.map_eq_some_iff.mp configured
    exact same
  have stable := stable.setting configured
  obtain ⟨z, flow, old, new, request, oldPath, penalized, before, routed, answered⟩ :=
    stable.midway (d.measured_request n n') midway embedded
  have after := stable.embed penalized (some old) before (stable.measured before routed)
  rw [answered] at after
  rw [there] at answered
  exact ⟨after, z, flow, old, new, request, oldPath, penalized, before, routed, answered⟩

/-- Every call keeps it, whether it is refused or not. -/
theorem run (stable : Stable m.network P) (holds : P m.toEmbedder) (operation : Operation K) :
    P (operation.run m).2.toEmbedder := by
  cases operation with
  | createTenant name =>
    show P (m.createTenant name).2.toEmbedder
    unfold Manager.createTenant
    split
    · exact holds
    · exact stable.attempt holds (steps_addTenant name _)
  | createVm tenant name placement =>
    show P (m.createVm tenant name placement).2.toEmbedder
    unfold Manager.createVm
    split
    · exact holds
    · split
      · exact holds
      · exact stable.attempt holds (steps_addVm m.network tenant name placement _)
  | setConnection vm connection => exact stable.attempt holds (steps_setConnection vm connection _)
  | createFlow demand => exact stable.createFlow holds demand
  | deleteFlow flow => exact stable.commit holds (steps_removeFlow _ flow)
  | deleteVm vm => exact stable.commit holds (steps_removeVm _ vm)
  | deleteTenant tenant => exact stable.commit holds (steps_removeTenant _ tenant)
  | extendTopology calls => exact holds

end Stable
end Embedder
end FlowAdmission
