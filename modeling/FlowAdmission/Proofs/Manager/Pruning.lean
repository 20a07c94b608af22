import FlowAdmission.Proofs.Manager.Registry

/-!
# What belongs to a tenant

A machine belongs to the tenant it names, a flow to the tenant of its source, and a request to the
tenant of its flow (`Store.owner?`). Deletions within one tenant take records away or shorten their
lists, and leave alone what belongs to others (`Store.Prunes`). They may come in many orders and
leave different stores on the way. But when the tenant itself is gone, nothing of it is left
(`Prunes.get?_of_gone`), and so all orders end in one store (`Prunes.eq_of_gone`).
-/
namespace FlowAdmission
variable {K : Type}

/-- No number is given out when a flow is removed. -/
theorem Transaction.next_removeFlow (t : Transaction K) (flow : FlowId) (j : Kind) :
    ((t.removeFlow flow).store.roster j).next = (t.store.roster j).next := by
  unfold removeFlow
  cases t.store.flow? flow with
  | none => rfl
  | some record => cases requested : record.request <;> simp [requested]

namespace Store

/-- The tenant that a record belongs to. -/
def owner? (s : Store K) {k : Kind} (h : Handle k) : Option TenantId :=
  match k, h with
  | .tenant, tenant => some tenant
  | .vm, vm => (s.vm? vm).map (·.tenant)
  | .flow, flow => do
    let record ← s.flow? flow
    let source ← s.vm? record.source
    return source.tenant
  | .request, request => do
    let booking ← s.request? request
    let record ← s.flow? (← booking.flow)
    let source ← s.vm? record.source
    return source.tenant

/-- Names a record of this tenant, or one that is not there. -/
def Within (s : Store K) (tenant : TenantId) {k : Kind} (h : Handle k) : Prop :=
  ∀ owner, s.owner? h = some owner → owner = tenant

variable {s s' s'' : Store K} {tenant owner : TenantId} {k : Kind}

theorem owner?_vm {vm : VmId} :
    s.owner? vm = some owner ↔ ∃ m, s.vm? vm = some m ∧ m.tenant = owner :=
  Option.map_eq_some_iff

theorem owner?_flow {flow : FlowId} :
    s.owner? flow = some owner ↔
      ∃ f m, s.flow? flow = some f ∧ s.vm? f.source = some m ∧ m.tenant = owner := by
  simp [owner?, Option.bind_eq_some_iff]

theorem owner?_request {request : RequestId} :
    s.owner? request = some owner ↔
      ∃ b flow, s.request? request = some b ∧ b.flow = some flow ∧ s.owner? flow = some owner := by
  simp [owner?, Option.bind_eq_some_iff]

/-- Every live record has an owner, and the owner is live. -/
theorem exists_owner (linked : s.Linked) (registered : s.Registered) {h : Handle k}
    {r : Record K k} (live : s.get? h = some r) :
    ∃ owner record, s.owner? h = some owner ∧ s.tenant? owner = some record := by
  have of_flow : ∀ {flow : FlowId} {f : Flow K}, s.flow? flow = some f →
      ∃ owner record, s.owner? flow = some owner ∧ s.tenant? owner = some record := by
    intro flow f live
    obtain ⟨m, _, source, _⟩ := registered.flows.ends live
    obtain ⟨record, known⟩ := registered.machines.owned source
    exact ⟨m.tenant, record, owner?_flow.mpr ⟨f, m, live, source, rfl⟩, known⟩
  cases k with
  | tenant => exact ⟨h, r, rfl, live⟩
  | vm =>
    obtain ⟨record, known⟩ := registered.machines.owned live
    exact ⟨r.tenant, record, owner?_vm.mpr ⟨r, live, rfl⟩, known⟩
  | flow => exact of_flow live
  | request =>
    obtain ⟨_, flow, f, points, found, _⟩ := linked.owned live
    obtain ⟨owner, record, owned, known⟩ := of_flow found
    exact ⟨owner, record, owner?_request.mpr ⟨r, flow, live, points, owned⟩, known⟩

/-- A machine of the tenant lists flows of the tenant. -/
theorem Registered.within_of_listed (registered : s.Registered) {vm : VmId} {m : VirtualMachine}
    (found : s.vm? vm = some m) {flow : FlowId} (listed : flow ∈ m.flows) :
    s.Within m.tenant flow := by
  intro owner owned
  obtain ⟨f, source, live, starts, rfl⟩ := owner?_flow.mp owned
  obtain ⟨f', live', at_end⟩ := (registered.flows.mem_iff found).mp listed
  rw [live] at live'
  cases live'
  obtain ⟨v, w, source', destination, one_tenant⟩ := registered.flows.ends live
  rw [starts] at source'
  cases source'
  rcases at_end with rfl | rfl
  · rw [starts] at found
    cases found
    rfl
  · rw [destination] at found
    cases found
    exact one_tenant

/-- The machines that a tenant lists are its own. -/
theorem Registered.within_of_owned (registered : s.Registered) {record : Tenant}
    (live : s.tenant? tenant = some record) {vm : VmId} (owned : vm ∈ record.vms) :
    s.Within tenant vm := by
  intro owner known
  obtain ⟨m, found, rfl⟩ := owner?_vm.mp known
  obtain ⟨m', found', its_tenant⟩ := (registered.machines.mem_iff live).mp owned
  rw [found] at found'
  cases found'
  exact its_tenant

/-- Records go away or get shorter lists, and only records of the tenant do. -/
structure Prunes (tenant : TenantId) (s s' : Store K) : Prop where
  next : ∀ j, (s'.roster j).next = (s.roster j).next
  vms : ∀ {v m'}, s'.vm? v = some m' → ∃ m, s.vm? v = some m ∧ m.tenant = m'.tenant
  flows : ∀ {i f}, s'.flow? i = some f → s.flow? i = some f
  requests : ∀ {r b}, s'.request? r = some b → s.request? r = some b
  others : ∀ {j : Kind} (h : Handle j), s.owner? h ≠ some tenant → s'.get? h = s.get? h

namespace Prunes

/-- Nothing gets an owner that it had not. -/
theorem owner? (prunes : Prunes tenant s s') {h : Handle k} (owned : s'.owner? h = some owner) :
    s.owner? h = some owner := by
  have of_flow : ∀ {flow : FlowId}, s'.owner? flow = some owner → s.owner? flow = some owner := by
    intro flow owned
    obtain ⟨f, m', live, source, rfl⟩ := owner?_flow.mp owned
    obtain ⟨m, before, same⟩ := prunes.vms source
    exact owner?_flow.mpr ⟨f, m, prunes.flows live, before, same⟩
  cases k with
  | tenant => exact owned
  | vm =>
    obtain ⟨m', found, rfl⟩ := owner?_vm.mp owned
    exact owner?_vm.mpr (prunes.vms found)
  | flow => exact of_flow owned
  | request =>
    obtain ⟨b, flow, held, points, owned⟩ := owner?_request.mp owned
    exact owner?_request.mpr ⟨b, flow, prunes.requests held, points, of_flow owned⟩

theorem within (prunes : Prunes tenant s s') {h : Handle k} (before : s.Within owner h) :
    s'.Within owner h :=
  fun _ owned => before _ (prunes.owner? owned)

theorem of_get? (next : ∀ j, (s'.roster j).next = (s.roster j).next)
    (same : ∀ (j : Kind) (h : Handle j), s'.get? h = s.get? h) : Prunes tenant s s' where
  next := next
  vms found := ⟨_, (same .vm _).symm.trans found, rfl⟩
  flows live := (same .flow _).symm.trans live
  requests held := (same .request _).symm.trans held
  others h _ := same _ h

theorem refl (tenant : TenantId) (s : Store K) : Prunes tenant s s :=
  of_get? (fun _ => rfl) fun _ _ => rfl

theorem trans (first : Prunes tenant s s') (second : Prunes tenant s' s'') :
    Prunes tenant s s'' where
  next j := (second.next j).trans (first.next j)
  vms found := by
    obtain ⟨m', between, same⟩ := second.vms found
    obtain ⟨m, before, same'⟩ := first.vms between
    exact ⟨m, before, same'.trans same⟩
  flows live := first.flows (second.flows live)
  requests held := first.requests (second.requests held)
  others h foreign :=
    (second.others h fun owned => foreign (first.owner? owned)).trans (first.others h foreign)

/-- When the tenant is gone, everything of it is gone, and everything else is as it was. -/
theorem get?_of_gone (prunes : Prunes tenant s s') (linked : s'.Linked)
    (registered : s'.Registered) (gone : s'.tenant? tenant = none) (h : Handle k) :
    s'.get? h = if s.owner? h = some tenant then none else s.get? h := by
  split
  · rename_i its_own
    by_contra left
    obtain ⟨r, live⟩ := Option.ne_none_iff_exists'.mp left
    obtain ⟨owner, record, owned, known⟩ := exists_owner linked registered live
    obtain rfl : tenant = owner := Option.some.inj (its_own.symm.trans (prunes.owner? owned))
    rw [gone] at known
    cases known
  · rename_i foreign
    exact prunes.others h foreign

/-- Whatever way the tenant went, the same store is left. -/
theorem eq_of_gone (first : Prunes tenant s s') (second : Prunes tenant s s'')
    (linked : s'.Linked) (linked' : s''.Linked) (registered : s'.Registered)
    (registered' : s''.Registered) (gone : s'.tenant? tenant = none)
    (gone' : s''.tenant? tenant = none) (locks : s'.locks = s''.locks) : s' = s'' := by
  have same : ∀ (j : Kind) (h : Handle j), s'.get? h = s''.get? h := fun j h =>
    (first.get?_of_gone linked registered gone h).trans
      (second.get?_of_gone linked' registered' gone' h).symm
  have rosters : ∀ j, s'.roster j = s''.roster j := fun j =>
    Roster.ext_get? ((first.next j).trans (second.next j).symm) fun i => same j ⟨i⟩
  have crossings : s'.crossings = s''.crossings := by
    refine Std.ExtTreeSet.ext_mem fun c => ?_
    rw [linked.mirrored c, linked'.mirrored c]
    exact exists_congr fun b => exists_congr fun path =>
      and_congr_left fun _ => by rw [request?, request?, same .request c.request]
  cases s'
  cases s''
  cases crossings
  cases locks
  congr
  · exact rosters .tenant
  · exact rosters .vm
  · exact rosters .flow
  · exact rosters .request

section steps
open Transaction
variable {t : Transaction K}

theorem lock {j : Kind} (h : Handle j) : Prunes tenant t.store (t.lock h).store :=
  of_get? (fun _ => by rw [roster_lock]) fun _ i => t.get?_lock h i

theorem lockAll {j : Kind} (handles : List (Handle j)) :
    Prunes tenant t.store (handles.foldl Transaction.lock t).store := by
  induction handles generalizing t with
  | nil => exact refl tenant _
  | cons h rest ih => exact (lock h).trans ih

theorem unlocked (t : Transaction K) : Prunes tenant t.store t.unlocked :=
  of_get? (fun j => by rw [roster_unlocked]) fun _ i => t.get?_unlocked i

/-- With a flow of the tenant its request goes, and its machines, which are of the tenant both,
take it off their lists. -/
theorem removeFlow (linked : t.store.Linked) (registered : t.store.Registered) {flow : FlowId}
    (within : t.store.Within tenant flow) :
    Prunes tenant t.store (t.removeFlow flow).store := by
  cases live : t.store.flow? flow with
  | none =>
    rw [t.removeFlow_of_none live]
    exact refl tenant _
  | some record =>
    obtain ⟨v, w, source, destination, one_tenant⟩ := registered.flows.ends live
    have owned : t.store.owner? flow = some v.tenant :=
      owner?_flow.mpr ⟨record, v, live, source, rfl⟩
    obtain rfl : v.tenant = tenant := within _ owned
    refine ⟨t.next_removeFlow flow, fun {i m'} found => ?_, t.flow?_of_removeFlow flow,
      t.request?_of_removeFlow flow, fun {j} h foreign => ?_⟩
    · rw [t.vm?_removeFlow live] at found
      split at found
      · obtain ⟨m, before, rfl⟩ := Option.map_eq_some_iff.mp found
        exact ⟨m, before, rfl⟩
      · exact ⟨m', found, rfl⟩
    · cases j with
      | tenant => exact t.tenant?_removeFlow flow h
      | vm =>
        refine (t.vm?_removeFlow live h).trans (if_neg ?_)
        rintro (rfl | rfl)
        · exact foreign (owner?_vm.mpr ⟨v, source, rfl⟩)
        · exact foreign (owner?_vm.mpr ⟨w, destination, one_tenant.symm⟩)
      | flow =>
        refine (t.flow?_removeFlow flow h).trans (if_neg ?_)
        rintro rfl
        exact foreign owned
      | request =>
        refine (t.request?_removeFlow live h).trans (if_neg fun requested => ?_)
        obtain ⟨b, held, points⟩ := linked.routed live requested
        exact foreign (owner?_request.mpr ⟨b, flow, held, points, owned⟩)

theorem removeFlows (linked : t.store.Linked) (registered : t.store.Registered)
    (flows : List FlowId) (within : ∀ flow ∈ flows, t.store.Within tenant flow) :
    Prunes tenant t.store (flows.foldl Transaction.removeFlow t).store := by
  induction flows generalizing t with
  | nil => exact refl tenant _
  | cons flow rest ih =>
    have first := removeFlow linked registered (within flow List.mem_cons_self)
    exact first.trans (ih (linked.removeFlow flow) (registered.removeFlow flow)
      fun i later => first.within (within i (List.mem_cons_of_mem _ later)))

/-- A change of the record of the tenant itself. -/
theorem of_tenant (next : ∀ j, (s'.roster j).next = (s.roster j).next)
    (same : ∀ (j : Kind) (h : Handle j), j ≠ .tenant → s'.get? h = s.get? h)
    (tenants : ∀ i, tenant ≠ i → s'.tenant? i = s.tenant? i) : Prunes tenant s s' where
  next := next
  vms found := ⟨_, (same .vm _ nofun).symm.trans found, rfl⟩
  flows live := (same .flow _ nofun).symm.trans live
  requests held := (same .request _ nofun).symm.trans held
  others {j} h foreign := by
    by_cases is_tenant : j = .tenant
    · subst is_tenant
      exact tenants h fun itself => foreign (congrArg some itself.symm)
    · exact same j h is_tenant

theorem updateTenant (t : Transaction K) (tenant : TenantId) (change : Tenant → Tenant) :
    Prunes tenant t.store (t.update (k := .tenant) tenant change).store :=
  of_tenant (fun _ => t.next_update _ _) (fun _ h other => t.get?_update_of_ne tenant _ h other)
    fun i other => (t.get?_update (k := .tenant) tenant i change).trans (if_neg other)

theorem dropTenant (t : Transaction K) (tenant : TenantId) :
    Prunes tenant t.store (t.remove tenant).store :=
  of_tenant (fun _ => t.next_remove _) (fun _ h other => t.get?_remove_of_ne tenant h other)
    fun i other => (t.get?_remove tenant i nofun).trans (if_neg other)

theorem dropVm {vm : VmId} (within : t.store.Within tenant vm) :
    Prunes tenant t.store (t.remove vm).store where
  next _ := t.next_remove vm
  vms {v m'} found := by
    have looked : (t.remove vm).store.vm? v = if vm = v then none else t.store.vm? v :=
      t.get?_remove vm v nofun
    rw [looked] at found
    split at found
    · cases found
    · exact ⟨m', found, rfl⟩
  flows live := (t.get?_remove_of_ne vm (j := .flow) _ nofun).symm.trans live
  requests held := (t.get?_remove_of_ne vm (j := .request) _ nofun).symm.trans held
  others {j} h foreign := by
    by_cases is_vm : j = .vm
    · subst is_vm
      refine (t.get?_remove vm h nofun).trans ?_
      split
      · rename_i itself
        subst itself
        cases found : t.store.get? vm with
        | none => rfl
        | some m =>
          have owned : t.store.owner? vm = some m.tenant := owner?_vm.mpr ⟨m, found, rfl⟩
          exact absurd (within _ owned ▸ owned) foreign
      · rfl
    · exact t.get?_remove_of_ne vm h is_vm

theorem dropVms (vms : List VmId) (within : ∀ vm ∈ vms, t.store.Within tenant vm) :
    Prunes tenant t.store (vms.foldl Transaction.remove t).store := by
  induction vms generalizing t with
  | nil => exact refl tenant _
  | cons vm rest ih =>
    have first := dropVm (within vm List.mem_cons_self)
    exact first.trans (ih fun v later => first.within (within v (List.mem_cons_of_mem _ later)))

/-- A machine goes with its flows, and its tenant takes it off its list. -/
theorem removeVm (linked : t.store.Linked) (registered : t.store.Registered) {vm : VmId}
    (within : t.store.Within tenant vm) : Prunes tenant t.store (t.removeVm vm).store := by
  unfold Transaction.removeVm
  cases found : t.store.vm? vm with
  | none => exact refl tenant _
  | some record =>
    obtain rfl : record.tenant = tenant := within _ (owner?_vm.mpr ⟨record, found, rfl⟩)
    have locked : Prunes record.tenant t.store (t.lock vm).store := lock vm
    have emptied := locked.trans (removeFlows (linked.locked vm) (registered.locked vm) record.flows
      fun flow listed => locked.within (registered.within_of_listed found listed))
    have unlisted := emptied.trans (updateTenant _ record.tenant (Tenant.removeVm vm))
    exact unlisted.trans (dropVm (unlisted.within within))

theorem removeTenant (linked : t.store.Linked) (registered : t.store.Registered)
    (tenant : TenantId) : Prunes tenant t.store (t.removeTenant tenant).store := by
  unfold Transaction.removeTenant
  cases found : t.store.tenant? tenant with
  | none => exact refl tenant _
  | some record =>
    have locked : Prunes tenant t.store (record.vms.foldl Transaction.lock (t.lock tenant)).store :=
      (lock tenant).trans (lockAll record.vms)
    have linked := (linked.locked tenant).lockedAll record.vms
    have registered := (registered.locked tenant).lockedAll record.vms
    have still := (get?_locks (t.lock tenant) record.vms tenant).trans (t.get?_lock tenant tenant)
    dsimp only
    generalize record.vms.foldl Transaction.lock (t.lock tenant) = u
      at locked linked registered still ⊢
    have live : u.store.tenant? tenant = some record := still.trans found
    have its_flows : ∀ flow ∈ flowsAt u.store record.vms, u.store.Within tenant flow := by
      intro flow named
      obtain ⟨vm, owned, m, known, listed⟩ := mem_flowsAt.mp named
      obtain rfl : m.tenant = tenant :=
        registered.within_of_owned live owned _ (owner?_vm.mpr ⟨m, known, rfl⟩)
      exact registered.within_of_listed known listed
    have emptied := removeFlows linked registered _ its_flows
    have dropped := emptied.trans (dropVms record.vms fun vm owned =>
      emptied.within (registered.within_of_owned live owned))
    exact locked.trans (dropped.trans (dropTenant _ tenant))

end steps
end Prunes
end Store
end FlowAdmission
