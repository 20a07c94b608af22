import FlowAdmission.Proofs.Manager.Frames
import FlowAdmission.Proofs.Network.Growth

/-!
# Where the requests of flows start and end

The request of a live flow runs between the first interfaces of the hosts of its machines, and its
deadline is the latency of the flow in seconds (`Store.Anchored`). Every call keeps this, whatever
the router answers and whichever cost model is asked (`Operation.anchored_run`): machines never
change their hosts, a moved flow keeps its request, and flows go before their machines.
-/
namespace FlowAdmission
variable {K : Type}

namespace Store
variable {s s' s'' : Store K}

/-- Flows and requests are as they were if they are there still, and machines keep their hosts. -/
structure Trims (s s' : Store K) : Prop where
  flows : ∀ {i f}, s'.flow? i = some f → s.flow? i = some f
  requests : ∀ {i b}, s'.request? i = some b → s.request? i = some b
  hosts : ∀ {v m}, s.vm? v = some m → ∃ m', s'.vm? v = some m' ∧ m'.host = m.host

namespace Trims
open Transaction

theorem refl (s : Store K) : Trims s s :=
  ⟨fun live => live, fun live => live, fun live => ⟨_, live, rfl⟩⟩

theorem trans (first : Trims s s') (second : Trims s' s'') : Trims s s'' where
  flows live := first.flows (second.flows live)
  requests live := first.requests (second.requests live)
  hosts live := by
    obtain ⟨m', found, host⟩ := first.hosts live
    obtain ⟨m'', found', host'⟩ := second.hosts found
    exact ⟨m'', found', host'.trans host⟩

/-- Tenants have no part in it. -/
theorem of_get? (same : ∀ (j : Kind) (i : Handle j), j ≠ .tenant → s'.get? i = s.get? i) :
    Trims s s' where
  flows live := (same .flow _ nofun).symm.trans live
  requests live := (same .request _ nofun).symm.trans live
  hosts live := ⟨_, (same .vm _ nofun).trans live, rfl⟩

variable (t : Transaction K)

theorem lock {k : Kind} (h : Handle k) : Trims t.store (t.lock h).store :=
  of_get? fun _ i _ => t.get?_lock h i

theorem updateTenant (tenant : TenantId) (change : Tenant → Tenant) :
    Trims t.store (t.update (k := .tenant) tenant change).store :=
  of_get? fun _ i other => t.get?_update_of_ne tenant _ i other

theorem addTenant (name : String) : Trims t.store (t.addTenant name).2.store := by
  have read := fun (k : Kind) (h : Handle k) =>
    get?_anyRead (fun other : Tenant => other.name == name) t (t.store.handles .tenant) h
  unfold Transaction.addTenant
  dsimp only
  split <;> rename_i answered <;> rw [answered] at read
  · exact of_get? fun j i _ => read j i
  · exact of_get? fun j i other => (get?_insert_of_ne _ _ i other).trans (read j i)

theorem insertVm {t : Transaction K} (numbered : t.store.Numbered) (record : VirtualMachine) :
    Trims t.store (t.insert (k := .vm) record).2.store where
  flows live := (t.get?_insert_of_ne (k := .vm) (j := .flow) record _ nofun).symm.trans live
  requests live := (t.get?_insert_of_ne (k := .vm) (j := .request) record _ nofun).symm.trans live
  hosts live := ⟨_, get?_insert_of_live (k := .vm) numbered record live, rfl⟩

theorem addVm {t : Transaction K} (numbered : t.store.Numbered) (net : Network K)
    (tenant : TenantId) (name : String) (placement : Placement) :
    Trims t.store (t.addVm net tenant name placement).2.store := by
  unfold Transaction.addVm
  split
  · exact .refl _
  · rename_i owner _
    have read : Trims t.store ((t.lock tenant).anyRead
        (fun other : VirtualMachine => other.name == name) owner.vms).2.store :=
      (lock t tenant).trans (of_get? fun _ i _ => get?_anyRead _ _ owner.vms i)
    have steps := (steps_lock t tenant).quiet_trans
      (steps_anyRead (fun other : VirtualMachine => other.name == name) _ owner.vms)
    split <;> rename_i answered <;> rw [answered] at read steps
    · exact read
    · split
      · exact read
      · exact (read.trans (insertVm (steps.numbered numbered) _)).trans
          (updateTenant _ tenant (Tenant.addVm _))

theorem setConnection (vm : VmId) (connection : Option String) :
    Trims t.store (t.setConnection vm connection).2.store := by
  unfold Transaction.setConnection
  split
  · refine ⟨fun {i f} live => (t.get?_update_of_ne vm _ i nofun).symm.trans live,
      fun {i b} live => (t.get?_update_of_ne vm _ i nofun).symm.trans live,
      fun {v m} live => ?_⟩
    have looked := get?_update (k := .vm) t vm v fun record => { record with connection }
    rw [show t.store.get? v = some m from live] at looked
    split at looked
    · exact ⟨_, looked, rfl⟩
    · exact ⟨m, looked, rfl⟩
  · exact .refl _

theorem removeFlow (flow : FlowId) : Trims t.store (t.removeFlow flow).store where
  flows := t.flow?_of_removeFlow flow
  requests := t.request?_of_removeFlow flow
  hosts {v m} found := by
    cases live : t.store.flow? flow with
    | none =>
      rw [t.removeFlow_of_none live]
      exact ⟨m, found, rfl⟩
    | some record =>
      rw [t.vm?_removeFlow live, found]
      split
      · exact ⟨m.removeFlow flow, rfl, rfl⟩
      · exact ⟨m, rfl, rfl⟩

theorem removeFlows (flows : List FlowId) :
    Trims t.store (flows.foldl Transaction.removeFlow t).store := by
  induction flows generalizing t with
  | nil => exact .refl _
  | cons flow rest ih => exact (removeFlow t flow).trans (ih _)

end Trims

variable [Quantity K] {net net' : Network K}

/-- The request is what the flow needs: a way between the first interfaces of the hosts of its
machines, within its latency. -/
structure Anchor (net : Network K) (s : Store K) (f : Flow K) (request : Request K) : Prop where
  source : ∃ v, s.vm? f.source = some v ∧ net.firstInterface? v.host = some request.source
  destination : ∃ w, s.vm? f.destination = some w ∧
    net.firstInterface? w.host = some request.destination
  deadline : request.deadline = f.latency / ((1000 : Nat) : K)

/-- The requests of all live flows are what the flows need. -/
structure Anchored (net : Network K) (s : Store K) : Prop where
  anchor : ∀ {id f r b}, s.flow? id = some f → f.request = some r → s.request? r = some b →
    s.Anchor net f b.request

/-- Where the machines of the flow keep their hosts, its request stays what it needs. -/
theorem Anchor.of_hosts {f : Flow K} {request : Request K} (anchor : s.Anchor net f request)
    (kept : ∀ {v m}, f.source = v ∨ f.destination = v → s.vm? v = some m →
      ∃ m', s'.vm? v = some m' ∧ m'.host = m.host) : s'.Anchor net f request := by
  obtain ⟨⟨v, source, node⟩, ⟨w, destination, node'⟩, deadline⟩ := anchor
  obtain ⟨v', source', host⟩ := kept (.inl rfl) source
  obtain ⟨w', destination', host'⟩ := kept (.inr rfl) destination
  rw [← host] at node
  rw [← host'] at node'
  exact ⟨⟨v', source', node⟩, ⟨w', destination', node'⟩, deadline⟩

namespace Anchored
open Transaction

theorem nothing : (empty : Store K).Anchored net := by
  constructor
  intro id f r b live
  simp [empty, flow?, get?, roster] at live

theorem of_trims (anchored : s.Anchored net) (trims : Trims s s') : s'.Anchored net := by
  constructor
  intro id f r b live requested held
  have anchor := anchored.anchor (trims.flows live) requested (trims.requests held)
  exact anchor.of_hosts fun _ => trims.hosts

/-- A network that grows keeps the first interfaces. -/
theorem extends_net (anchored : s.Anchored net) (extends_net : net.Extends net') :
    s.Anchored net' := by
  constructor
  intro id f r b live requested held
  obtain ⟨⟨v, source, node⟩, ⟨w, destination, node'⟩, deadline⟩ :=
    anchored.anchor live requested held
  exact ⟨⟨v, source, extends_net.interfaces node⟩,
    ⟨w, destination, extends_net.interfaces node'⟩, deadline⟩

section deletions
variable {t : Transaction K}

/-- Machines that no live flow has at an end may go. -/
theorem removeMachines (anchored : t.store.Anchored net) (vms : List VmId)
    (idle : ∀ {i f}, t.store.flow? i = some f → f.source ∉ vms ∧ f.destination ∉ vms) :
    (vms.foldl remove t).store.Anchored net := by
  constructor
  intro id f r b live requested held
  have live : t.store.flow? id = some f := (get?_removes_of_ne t vms id nofun).symm.trans live
  have held : t.store.request? r = some b := (get?_removes_of_ne t vms r nofun).symm.trans held
  refine (anchored.anchor live requested held).of_hosts fun {v m} at_end found => ?_
  have spared : v ∉ vms := by
    obtain ⟨source, destination⟩ := idle live
    rcases at_end with rfl | rfl
    · exact source
    · exact destination
  exact ⟨m, (get?_removes t vms v nofun).trans ((if_neg spared).trans found), rfl⟩

theorem removeVm (anchored : t.store.Anchored net) (linked : t.store.Linked) (vm : VmId) :
    (t.removeVm vm).store.Anchored net := by
  unfold Transaction.removeVm
  cases found : t.store.vm? vm with
  | none => exact anchored
  | some record =>
    have unlisted := ((Trims.lock t vm).trans (Trims.removeFlows _ record.flows)).trans
      (Trims.updateTenant _ record.tenant (Tenant.removeVm vm))
    refine (anchored.of_trims unlisted).removeMachines [vm] fun {i f} live => ?_
    apply linked.no_flow_left_at found
    exact (get?_update_of_ne _ record.tenant _ i nofun).symm.trans live

theorem removeTenant (anchored : t.store.Anchored net) (linked : t.store.Linked)
    (tenant : TenantId) : (t.removeTenant tenant).store.Anchored net := by
  unfold Transaction.removeTenant
  cases found : t.store.tenant? tenant with
  | none => exact anchored
  | some record =>
    have locked : Trims t.store (record.vms.foldl Transaction.lock (t.lock tenant)).store :=
      (Trims.lock t tenant).trans (.of_get? fun _ i _ => get?_locks _ record.vms i)
    have emptied := (anchored.of_trims (locked.trans (Trims.removeFlows _ _))).removeMachines
      record.vms (linked.no_flow_left_of tenant record.vms)
    exact emptied.of_trims (.of_get? fun _ i other => get?_remove_of_ne _ _ i other)

end deletions

/-- A flow that was moved has its request under a new number. -/
theorem anchor_of_rearranged {moved : List FlowId} (anchored : s.Anchored net)
    (rearranged : Rearranged moved s s') {id : FlowId} {f g : Flow K} {r : RequestId}
    {b : Booking K} (before : s.flow? id = some g) (live : s'.flow? id = some f)
    (requested : f.request = some r) (held : s'.request? r = some b) :
    s.Anchor net f b.request := by
  by_cases listed : id ∈ moved
  · obtain ⟨_, old, b₀, new, b', before', requested', held', now, found, request, _⟩ :=
      rearranged.moved listed
    rw [live] at now
    cases now
    cases requested
    rw [held] at found
    cases found
    rw [request]
    obtain ⟨source, destination, deadline⟩ := anchored.anchor before' requested' held'
    exact ⟨source, destination, deadline⟩
  · obtain ⟨still, requests⟩ := rearranged.kept listed before
    rw [live] at still
    cases still
    exact anchored.anchor before requested ((requests requested).symm.trans held)

theorem of_rerouted {moved : List FlowId} (anchored : s.Anchored net)
    (rerouted : Rerouted moved s s') : s'.Anchored net := by
  constructor
  intro id f r b live requested held
  cases before : s.flow? id with
  | none =>
    rw [rerouted.flows id before] at live
    cases live
  | some g =>
    have anchor := anchored.anchor_of_rearranged rerouted.toRearranged before live requested held
    exact anchor.of_hosts fun _ found => ⟨_, (rerouted.vms _).trans found, rfl⟩

end Anchored
end Store

namespace Manager
open Store Transaction
variable {R C : Type} [CostModel C K] {m : Manager R C K}

theorem trims_attempt {α : Type} (linked : m.store.Linked)
    {body : Transaction K → Except Error α × Transaction K}
    (steps : Steps [] m.store.begin (body m.store.begin).2)
    (trims : Trims m.store (body m.store.begin).2.store) :
    Trims m.store (m.attempt body).2.store := by
  unfold attempt
  split <;> rename_i answered <;> rw [answered] at steps trims
  · exact trims.trans (.of_get? fun _ i _ => get?_unlocked _ i)
  · obtain ⟨_, same⟩ := steps.follows_rollback linked.numbered linked.mirrored
    exact .of_get? fun j i _ => same.records j i

theorem trims_createTenant (linked : m.store.Linked) (name : String) :
    Trims m.store (m.createTenant name).2.store := by
  unfold createTenant
  split
  · exact .refl _
  · exact trims_attempt linked (steps_addTenant name _) (.addTenant m.store.begin name)

theorem trims_createVm (linked : m.store.Linked) (tenant : TenantId) (name : String)
    (placement : Placement) : Trims m.store (m.createVm tenant name placement).2.store := by
  unfold createVm
  split
  · exact .refl _
  · split
    · exact .refl _
    · exact trims_attempt linked (steps_addVm m.network tenant name placement _)
        (.addVm (t := m.store.begin) linked.numbered m.network tenant name placement)

theorem trims_setConnection (linked : m.store.Linked) (vm : VmId) (connection : Option String) :
    Trims m.store (m.setConnection vm connection).2.store :=
  trims_attempt linked (steps_setConnection vm connection _)
    (.setConnection m.store.begin vm connection)

variable [Quantity K] [Router R C K]

/-- The request of a new flow runs between the nodes that the check has found. -/
theorem anchored_createFlow (sound : m.Sound) (anchored : m.store.Anchored m.network)
    (d : FlowDemand K) : (m.createFlow d).2.store.Anchored m.network := by
  have admission := admission_createFlow sound.linked sound.owned d
  rcases answered : m.createFlow d with ⟨answer, m'⟩
  rw [answered] at admission
  cases admission with
  | refused plain follows same kept =>
    exact anchored.of_trims (.of_get? fun j i _ => same.records j i)
  | blocked searched => exact anchored.of_rerouted searched.rerouted
  | @admitted flow s t booking _ _ _ searched awaits follows _ _ _ stored =>
    obtain ⟨n, n', passed, ⟨request, record, added⟩, asked⟩ :=
      admits_createFlow sound.linked answered
    have unused : m.store.flow? (t.begin.addFlow flow).1 = none :=
      sound.linked.numbered .flow _ ((searched.follows.trans follows).next_le .flow)
    have rearranged := Rearranged.addFlow (t := t.begin) searched awaits unused
    have hosts : ∀ {v vm}, m.store.vm? v = some vm →
        ∃ vm', m'.store.vm? v = some vm' ∧ vm'.host = vm.host := by
      intro v vm found
      have found : t.begin.store.vm? v = some vm :=
        (awaits.others .vm v nofun).trans ((searched.rerouted.vms v).trans found)
      have listed := (get?_unlocked _ v).trans (t.begin.vm?_addFlow flow v)
      rw [found] at listed
      rw [stored]
      split at listed
      · exact ⟨_, listed, rfl⟩
      · exact ⟨vm, listed, rfl⟩
    constructor
    intro id f r b live requested held
    by_cases new : (t.begin.addFlow flow).1 = id
    · subst new
      obtain ⟨v, w, source, destination, _, node, node'⟩ := d.check_ok m.network passed
      obtain ⟨b', held', same⟩ := asked f r live requested
      rw [held] at held'
      cases held'
      rw [added] at live
      cases live
      rw [same]
      refine Anchor.of_hosts (s := m.store) ⟨⟨v, source, ?_⟩, ⟨w, destination, ?_⟩, rfl⟩
        fun _ => hosts
      · exact Network.firstInterface?_of_single node
      · exact Network.firstInterface?_of_single node'
    · cases before : m.store.flow? id with
      | none =>
        have looked : m'.store.flow? id = t.begin.store.flow? id := by
          rw [stored]
          exact (get?_unlocked _ id).trans ((t.begin.flow?_addFlow flow id).trans (if_neg new))
        have absent : t.begin.store.flow? id = none :=
          (awaits.others .flow id nofun).trans (searched.rerouted.flows id before)
        rw [looked, absent] at live
        cases live
      | some g =>
        rw [← stored] at rearranged
        have anchor := anchored.anchor_of_rearranged rearranged before live requested held
        exact anchor.of_hosts fun _ => hosts

end Manager

namespace Operation
open Manager Store Transaction
variable {R C : Type} [Quantity K] [CostModel C K] [Router R C K] {m : Manager R C K}

theorem anchored_run (sound : m.Sound) (anchored : m.store.Anchored m.network)
    (operation : Operation K) : (operation.run m).2.store.Anchored m.network := by
  have begun : m.store.begin.store.Anchored m.network := anchored
  have linked : m.store.begin.store.Linked := sound.linked
  have unlocked : ∀ {t : Transaction K}, t.store.Anchored m.network →
      t.unlocked.Anchored m.network :=
    fun anchored => anchored.of_trims (.of_get? fun _ i _ => get?_unlocked _ i)
  cases operation with
  | createTenant name => exact anchored.of_trims (trims_createTenant sound.linked name)
  | createVm tenant name placement =>
    exact anchored.of_trims (trims_createVm sound.linked tenant name placement)
  | setConnection vm connection =>
    exact anchored.of_trims (trims_setConnection sound.linked vm connection)
  | createFlow demand => exact anchored_createFlow sound anchored demand
  | deleteFlow flow => exact unlocked (begun.of_trims (.removeFlow _ flow))
  | deleteVm vm => exact unlocked (begun.removeVm linked vm)
  | deleteTenant tenant => exact unlocked (begun.removeTenant linked tenant)
  | extendTopology calls => exact anchored

end Operation
end FlowAdmission
