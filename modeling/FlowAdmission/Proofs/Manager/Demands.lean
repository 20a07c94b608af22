import FlowAdmission.Proofs.Manager.Anchors
import FlowAdmission.Proofs.Manager.Thinning

/-!
# What live flows ask for

A flow is created for a rate, a burst and a latency above zero, and keeps them for as long as it
lives: a move changes its request only. So every live flow of a manager asks for amounts above zero
(`Manager.Reachable.positive`), whatever the numbers are. In particular a latency always compares
with zero.
-/
namespace FlowAdmission
variable {K : Type} [Quantity K]

/-- The rate, the burst and the latency are above zero. -/
structure Flow.Positive (f : Flow K) : Prop where
  rate : 0 < f.contract.rate
  burst : 0 < f.contract.burst
  latency : 0 < f.latency

namespace FlowDemand
variable (d : FlowDemand K) (net : Network K)

theorem isPositive_of_endpoints {source destination : VirtualMachine} {taken : Bool}
    {nodes : NodeId × NodeId} (passed : d.endpoints net source destination taken = .ok nodes) :
    d.isPositive = true := by
  unfold endpoints at passed
  dsimp only at passed
  split at passed
  · cases passed
  · obtain ⟨_, _, passed⟩ := eq_ok_of_bind passed
    obtain ⟨_, _, passed⟩ := eq_ok_of_bind passed
    split at passed
    · cases passed
    · obtain ⟨_, _, passed⟩ := eq_ok_of_bind passed
      obtain ⟨_, _, passed⟩ := eq_ok_of_bind passed
      split at passed
      · cases passed
      · rename_i amounts
        simpa using amounts

theorem isPositive_of_check {t : Transaction K} {nodes : NodeId × NodeId}
    (passed : (d.check net t).1 = .ok nodes) : d.isPositive = true := by
  unfold check at passed
  split at passed
  · cases passed
  · cases passed
  · exact d.isPositive_of_endpoints net passed

/-- The flow of a demand that passes its check asks for what the demand asks for. -/
theorem positive_toFlow {d : FlowDemand K} (amounts : d.isPositive = true)
    (request : Option RequestId) (rerouting : Option Rerouting.Record) :
    (d.toFlow request rerouting).Positive := by
  simp only [isPositive, Bool.and_eq_true, decide_eq_true_eq] at amounts
  obtain ⟨⟨rate, burst⟩, latency⟩ := amounts
  exact ⟨rate, burst, latency⟩

end FlowDemand

namespace Store
variable {s s' : Store K}

/-- All live flows ask for amounts above zero. -/
structure Positive (s : Store K) : Prop where
  flow : ∀ {id f}, s.flow? id = some f → f.Positive

namespace Positive

theorem nothing : (empty : Store K).Positive := by
  constructor
  intro id f live
  simp [empty, flow?, get?, roster] at live

theorem of_flows (positive : s.Positive)
    (kept : ∀ {id f}, s'.flow? id = some f → s.flow? id = some f) : s'.Positive :=
  ⟨fun live => positive.flow (kept live)⟩

/-- A moved flow asks for what it asked for before. -/
theorem of_rerouted {moved : List FlowId} (positive : s.Positive)
    (rerouted : Rerouted moved s s') : s'.Positive := by
  constructor
  intro id f live
  cases before : s.flow? id with
  | none =>
    rw [rerouted.flows id before] at live
    cases live
  | some g =>
    by_cases listed : id ∈ moved
    · obtain ⟨g', _, _, new, _, before', _, _, now, _⟩ := rerouted.moved listed
      rw [live] at now
      cases now
      obtain ⟨rate, burst, latency⟩ := positive.flow before'
      exact ⟨rate, burst, latency⟩
    · obtain ⟨still, _⟩ := rerouted.kept listed before
      rw [live] at still
      cases still
      exact positive.flow before

end Positive
end Store

namespace Manager
open Store Transaction
variable {R C : Type} [CostModel C K] [Router R C K] {m : Manager R C K}

theorem positive_createFlow (sound : m.Sound) (positive : m.store.Positive) (d : FlowDemand K) :
    (m.createFlow d).2.store.Positive := by
  have admission := admission_createFlow sound.linked sound.owned d
  rcases answered : m.createFlow d with ⟨answer, m'⟩
  rw [answered] at admission
  cases admission with
  | refused plain follows same kept =>
    exact positive.of_flows fun live => (same.records .flow _).symm.trans live
  | blocked searched => exact positive.of_rerouted searched.rerouted
  | @admitted flow s t booking _ _ _ searched awaits follows _ _ _ stored =>
    obtain ⟨n, n', passed, ⟨request, record, added⟩, _⟩ :=
      admits_createFlow sound.linked answered
    have amounts := d.isPositive_of_check m.network passed
    constructor
    intro id f live
    by_cases new : (t.begin.addFlow flow).1 = id
    · subst new
      rw [added] at live
      cases live
      exact FlowDemand.positive_toFlow amounts request record
    · rw [stored] at live
      have looked := (get?_unlocked _ id).trans ((t.begin.flow?_addFlow flow id).trans (if_neg new))
      have before : s.flow? id = some f :=
        (awaits.others .flow id nofun).symm.trans (looked.symm.trans live)
      exact (positive.of_rerouted searched.rerouted).flow before

end Manager

namespace Operation
open Manager Store
variable {R C : Type} [CostModel C K] [Router R C K] {m : Manager R C K}

theorem positive_deletion (positive : m.store.Positive) (d : Deletion) :
    (d.operation.run m).2.store.Positive := by
  rw [Deletion.store_run]
  have thins := Deletion.thins_body m.store.begin d
  exact positive.of_flows (thins.trans (.unlocked _)).flows

theorem positive_run (sound : m.Sound) (positive : m.store.Positive) (operation : Operation K) :
    (operation.run m).2.store.Positive := by
  cases operation with
  | createTenant name => exact positive.of_flows (trims_createTenant sound.linked name).flows
  | createVm tenant name placement =>
    exact positive.of_flows (trims_createVm sound.linked tenant name placement).flows
  | setConnection vm connection =>
    exact positive.of_flows (trims_setConnection sound.linked vm connection).flows
  | createFlow demand => exact positive_createFlow sound positive demand
  | deleteFlow flow => exact positive_deletion positive (.flow flow)
  | deleteVm vm => exact positive_deletion positive (.vm vm)
  | deleteTenant tenant => exact positive_deletion positive (.tenant tenant)
  | extendTopology calls => exact positive

end Operation

/-- Every live flow of a manager asks for amounts above zero. -/
theorem Manager.Reachable.positive {R C : Type} [CostModel C K] [Router R C K]
    {m : Manager R C K} (reachable : m.Reachable) : m.store.Positive := by
  induction reachable with
  | start id calls router costs configuration => exact .nothing
  | run before operation ih => exact Operation.positive_run before.sound ih operation
  | rebuild _ id calls ih => exact ih

end FlowAdmission
