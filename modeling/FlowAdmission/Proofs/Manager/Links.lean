import FlowAdmission.Proofs.Manager.Admission

/-!
# Every flow on exactly one path or on none

After every call the flows and the live requests are linked (`Operation.links_runAll`): a flow
between hosts has one live request with a path, a flow on one host has none, and no request is
live without its flow. The invariant is `Manager.Sound`; each operation keeps it
(`Operation.sound_run`), whatever the router answers and whichever cost model is asked.
-/
namespace FlowAdmission
variable {R C K : Type}

namespace Manager
open Store Transaction

/-- The store is linked, and every interface of the network belongs to one host. -/
structure Sound (m : Manager R C K) : Prop where
  linked : m.store.Linked
  owned : m.network.Owned

theorem sound_start [Quantity K] (id : Nat) (calls : List (BuildingCall K)) (router : R)
    (costs : C) (configuration : Option Rerouting.Configuration) :
    (start (BuildingCall.runAll (.empty id) calls) router costs configuration).Sound :=
  ⟨linked_empty, Network.owned_runAll id calls⟩

variable {m : Manager R C K}

section transactions
variable [CostModel C K]

theorem sound_keep (sound : m.Sound) {t : Transaction K} (linked : t.store.Linked) :
    (m.keep t).Sound :=
  ⟨linked.unlocked, sound.owned⟩

/-- A transaction that refuses is undone. -/
theorem sound_attempt {α : Type} (sound : m.Sound)
    {body : Transaction K → Except Error α × Transaction K}
    (steps : Steps [] m.store.begin (body m.store.begin).2)
    (linked : (body m.store.begin).2.store.Linked) : (m.attempt body).2.Sound := by
  unfold attempt
  split <;> rename_i answered <;> rw [answered] at steps linked
  · exact sound_keep sound linked
  · obtain ⟨follows, same⟩ :=
      steps.follows_rollback sound.linked.numbered sound.linked.mirrored
    exact ⟨sound.linked.of_sameRecords follows same, sound.owned⟩

end transactions

variable [Quantity K] [CostModel C K] [Router R C K]

/-- What a manager works in, which only changes of the topology change. -/
def surroundings (m : Manager R C K) : Network K × Option Rerouting.Configuration × PathIndex :=
  (m.network, m.configuration, m.index)

theorem surroundings_createBlockedFlow (m : Manager R C K) (d : FlowDemand K)
    (request : Request K) : (m.createBlockedFlow d request).2.surroundings = m.surroundings := by
  unfold createBlockedFlow
  split
  · rfl
  · split <;> rfl

theorem surroundings_createFlow (m : Manager R C K) (d : FlowDemand K) :
    (m.createFlow d).2.surroundings = m.surroundings := by
  unfold createFlow
  split
  · rfl
  · split <;> rename_i checked answered <;>
      obtain rfl : { m with store := (d.check m.network m.store.begin).2.rollback } = checked :=
        congrArg Prod.snd answered
    · rfl
    · unfold createBetween
      split
      · rfl
      · dsimp only
        split
        · rfl
        · exact surroundings_createBlockedFlow _ d _

/-- Creating a flow does not change the network. -/
theorem network_createFlow (m : Manager R C K) (d : FlowDemand K) :
    (m.createFlow d).2.network = m.network :=
  congrArg Prod.fst (m.surroundings_createFlow d)

theorem sound_createFlow (sound : m.Sound) (d : FlowDemand K) : (m.createFlow d).2.Sound := by
  have linked : (m.createFlow d).2.store.Linked := by
    have admission := admission_createFlow sound.linked sound.owned d
    generalize m.createFlow d = result at admission ⊢
    cases admission with
    | refused plain follows same kept => exact sound.linked.of_sameRecords follows same
    | blocked searched => exact searched.linked
    | admitted flow searched awaits follows source destination hosts stored =>
      have source := (searched.rerouted.vms _).trans source
      have destination := (searched.rerouted.vms _).trans destination
      have linked := searched.linked.addFlow (t := Store.begin _) awaits follows.numbered
        follows.mirrored source destination hosts
      show Store.Linked _
      rw [stored]
      exact linked.unlocked
  exact ⟨linked, by rw [network_createFlow]; exact sound.owned⟩

end Manager

namespace Operation
open Manager Transaction Store
variable [Quantity K] [CostModel C K] [Router R C K]

theorem sound_run {m : Manager R C K} (sound : m.Sound) (operation : Operation K) :
    (operation.run m).2.Sound := by
  have begun : m.store.begin.store.Linked := sound.linked
  cases operation with
  | createTenant name =>
    show (m.createTenant name).2.Sound
    unfold Manager.createTenant
    split
    · exact sound
    · exact sound_attempt sound (steps_addTenant name _) (begun.addTenant name)
  | createVm tenant name placement =>
    show (m.createVm tenant name placement).2.Sound
    unfold Manager.createVm
    split
    · exact sound
    · split
      · exact sound
      · exact sound_attempt sound (steps_addVm m.network tenant name placement _)
          (begun.addVm m.network tenant name placement)
  | setConnection vm connection =>
    exact sound_attempt sound (steps_setConnection vm connection _)
      (begun.setConnection vm connection)
  | createFlow demand => exact sound_createFlow sound demand
  | deleteFlow flow => exact sound_keep sound (begun.removeFlow flow)
  | deleteVm vm => exact sound_keep sound (begun.removeVm vm)
  | deleteTenant tenant => exact sound_keep sound (begun.removeTenant tenant)
  | extendTopology calls => exact ⟨sound.linked, sound.owned.runAll calls⟩

theorem sound_runAll {m : Manager R C K} (sound : m.Sound) (operations : List (Operation K)) :
    (runAll m operations).Sound := by
  induction operations generalizing m with
  | nil => exact sound
  | cons operation rest ih => exact ih (sound_run sound operation)

/-- After any run, on any network that was built from nothing: a flow has no request exactly when
its machines run on one host, and else its request is live, has a path and points back at the
flow; every live request has a path and is the request of exactly one live flow; a queue edge is
crossed by exactly the live requests whose path runs over it; and a request that replaced another
has a higher number than that one, which is gone. -/
theorem links_runAll (id : Nat) (calls : List (BuildingCall K)) (router : R) (costs : C)
    (configuration : Option Rerouting.Configuration) (operations : List (Operation K)) :
    let s := (runAll (Manager.start (BuildingCall.runAll (.empty id) calls) router costs
      configuration) operations).store
    (∀ flow f, s.flow? flow = some f →
      (∃ v w, s.vm? f.source = some v ∧ s.vm? f.destination = some w ∧
        (f.request = none ↔ v.host = w.host)) ∧
      ∀ r, f.request = some r → ∃ b, s.request? r = some b ∧ b.path.isSome ∧ b.flow = some flow) ∧
    (∀ r b, s.request? r = some b → b.path.isSome ∧
      ∃! flow, ∃ f, s.flow? flow = some f ∧ f.request = some r) ∧
    (∀ e r, r ∈ s.requestsOn e ↔ ∃ b p, s.request? r = some b ∧ b.path = some p ∧ e ∈ p) ∧
    (∀ r b old, s.request? r = some b → b.replaces = some old →
      old.index < r.index ∧ s.request? old = none) := by
  intro s
  have linked : s.Linked := (sound_runAll (sound_start id calls router costs configuration)
    operations).linked
  refine ⟨fun flow f live => ⟨?_, fun r requested => ?_⟩, fun r b live => ?_, fun e r => ?_,
    fun r b old live replaces => linked.replaced live replaces⟩
  · obtain ⟨v, w, source, destination, _, _, hosts⟩ := linked.machines live
    exact ⟨v, w, source, destination, hosts⟩
  · obtain ⟨b, found, points⟩ := linked.routed live requested
    exact ⟨b, found, (linked.owned found).1, points⟩
  · obtain ⟨path, flow, f, _, found, requested⟩ := linked.owned live
    refine ⟨path, flow, ⟨f, found, requested⟩, ?_⟩
    rintro other ⟨g, found', requested'⟩
    exact linked.flow_unique found' requested' found requested
  · rw [mem_requestsOn]
    exact linked.mirrored ⟨e, r⟩

end Operation
end FlowAdmission
