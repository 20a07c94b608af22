import FlowAdmission.Proofs.Manager.Deletion

/-!
# What a deletion leaves

A deletion takes what hangs on the deleted record and thins the lists of what stays
(`Store.Sheds`). Which records go is settled by the store before it (`Deletion.Takes`). The lists
that stay keep their order and name just what is live, so a store is known by what it was thinned
from as soon as the deleted record is gone: however two stores were thinned, they hold the same
records (`Store.Clears.sameRecords`).
-/
namespace FlowAdmission
variable {K : Type}

/-- Parts of a list without repetitions are equal when they have the same members. -/
theorem eq_of_sublist_of_mem_iff {α : Type} {xs ys zs : List α} (distinct : zs.Nodup)
    (left : xs.Sublist zs) (right : ys.Sublist zs) (same : ∀ a, a ∈ xs ↔ a ∈ ys) : xs = ys := by
  induction left generalizing ys with
  | slnil => exact (List.sublist_nil.mp right).symm
  | @cons xs zs a left ih =>
    obtain ⟨once, distinct⟩ := List.nodup_cons.mp distinct
    cases right with
    | cons _ right => exact ih distinct right same
    | cons_cons _ right => exact absurd (left.subset ((same a).mpr List.mem_cons_self)) once
  | @cons_cons xs zs a left ih =>
    obtain ⟨once, distinct⟩ := List.nodup_cons.mp distinct
    cases right with
    | cons _ right => exact absurd (right.subset ((same a).mp List.mem_cons_self)) once
    | @cons_cons ys _ _ right =>
      refine congrArg (List.cons a) (ih distinct right fun b => ?_)
      have apart : ∀ {ws : List α}, ws.Sublist zs → b ∈ ws → b ≠ a := by
        rintro ws part listed rfl
        exact once (part.subset listed)
      constructor
      · intro listed
        have listed' := (same b).mp (List.mem_cons_of_mem a listed)
        exact (List.mem_cons.mp listed').resolve_left (apart left listed)
      · intro listed
        have listed' := (same b).mpr (List.mem_cons_of_mem a listed)
        exact (List.mem_cons.mp listed').resolve_left (apart right listed)

namespace Store
variable {s s' s'' : Store K} {k : Kind}

theorem ne_of_lost {h : Handle k} {r : Record K k} (live : s.get? h = some r)
    (lost : s'.get? h = none) : s'.get? h ≠ s.get? h := by
  rw [live, lost]
  exact nofun

/-- Records go away or get shorter lists; nothing else happens to them. -/
structure Thins (s s' : Store K) : Prop where
  tenants : ∀ {t r'}, s'.tenant? t = some r' → ∃ r vms, s.tenant? t = some r ∧
    vms.Sublist r.vms ∧ r' = { r with vms }
  vms : ∀ {v m'}, s'.vm? v = some m' → ∃ m flows, s.vm? v = some m ∧
    flows.Sublist m.flows ∧ m' = { m with flows }
  flows : ∀ {i f}, s'.flow? i = some f → s.flow? i = some f
  requests : ∀ {r b}, s'.request? r = some b → s.request? r = some b

namespace Thins

/-- Records go away, and the others stay as they are. -/
theorem of_kept (kept : ∀ {j : Kind} {h : Handle j} {r : Record K j}, s'.get? h = some r →
    s.get? h = some r) : Thins s s' where
  tenants live := ⟨_, _, kept live, .refl _, rfl⟩
  vms live := ⟨_, _, kept live, .refl _, rfl⟩
  flows := kept
  requests := kept

theorem of_get? (same : ∀ (j : Kind) (h : Handle j), s'.get? h = s.get? h) : Thins s s' :=
  of_kept fun {j h _} live => (same j h).symm.trans live

/-- A change of tenants alone. -/
theorem of_tenants (same : ∀ (j : Kind) (h : Handle j), j ≠ .tenant → s'.get? h = s.get? h)
    (tenants : ∀ {t r'}, s'.tenant? t = some r' → ∃ r vms, s.tenant? t = some r ∧
      vms.Sublist r.vms ∧ r' = { r with vms }) : Thins s s' where
  tenants := tenants
  vms live := ⟨_, _, (same .vm _ nofun).symm.trans live, .refl _, rfl⟩
  flows live := (same .flow _ nofun).symm.trans live
  requests live := (same .request _ nofun).symm.trans live

theorem trans (first : Thins s s') (second : Thins s' s'') : Thins s s'' where
  tenants live := by
    obtain ⟨_, vms', between, part', rfl⟩ := second.tenants live
    obtain ⟨r, vms, before, part, rfl⟩ := first.tenants between
    exact ⟨r, vms', before, part'.trans part, rfl⟩
  vms live := by
    obtain ⟨_, flows', between, part', rfl⟩ := second.vms live
    obtain ⟨m, flows, before, part, rfl⟩ := first.vms between
    exact ⟨m, flows', before, part'.trans part, rfl⟩
  flows live := first.flows (second.flows live)
  requests live := first.requests (second.requests live)

theorem foldl {α : Type} {step : Transaction K → α → Transaction K}
    (one : ∀ t a, Thins t.store (step t a).store) (t : Transaction K) (xs : List α) :
    Thins t.store (xs.foldl step t).store := by
  induction xs generalizing t with
  | nil => exact of_get? fun _ _ => rfl
  | cons a rest ih => exact (one t a).trans (ih _)

/-- What is left was there. -/
theorem live (thins : Thins s s') {h : Handle k} {r' : Record K k} (left : s'.get? h = some r') :
    ∃ r, s.get? h = some r := by
  cases k with
  | tenant =>
    obtain ⟨r, _, before, _⟩ := thins.tenants left
    exact ⟨r, before⟩
  | vm =>
    obtain ⟨m, _, before, _⟩ := thins.vms left
    exact ⟨m, before⟩
  | flow => exact ⟨r', thins.flows left⟩
  | request => exact ⟨r', thins.requests left⟩

/-- Nothing gets an owner that it had not. -/
theorem owner?_flow (thins : Thins s s') {i : FlowId} {owner : TenantId}
    (owned : s'.owner? i = some owner) : s.owner? i = some owner := by
  obtain ⟨f, m', live, source, rfl⟩ := Store.owner?_flow.mp owned
  obtain ⟨m, _, before, _, rfl⟩ := thins.vms source
  exact Store.owner?_flow.mpr ⟨f, m, thins.flows live, before, rfl⟩

section steps
open Transaction
variable (t : Transaction K)

theorem lock (h : Handle k) : Thins t.store (t.lock h).store :=
  of_get? fun _ i => t.get?_lock h i

theorem unlocked : Thins t.store t.unlocked := of_get? fun _ i => t.get?_unlocked i

theorem updateTenant (tenant : TenantId) (vm : VmId) :
    Thins t.store (t.update tenant (Tenant.removeVm vm)).store := by
  refine of_tenants (fun _ h other => t.get?_update_of_ne tenant _ h other) fun {i r'} live => ?_
  have looked : (t.update tenant (Tenant.removeVm vm)).store.tenant? i =
      if tenant = i then (t.store.tenant? i).map (Tenant.removeVm vm) else t.store.tenant? i :=
    get?_update (k := .tenant) t tenant i _
  rw [looked] at live
  split at live
  · obtain ⟨r, before, rfl⟩ := Option.map_eq_some_iff.mp live
    exact ⟨r, delist vm r.vms, before, List.filter_sublist, rfl⟩
  · exact ⟨r', r'.vms, live, .refl _, rfl⟩

theorem remove (h : Handle k) : Thins t.store (t.remove h).store := by
  rcases t.remove_cases h with same | ⟨_, plain, _⟩
  · exact of_get? fun _ _ => by rw [same]
  · refine of_kept fun {j i r} left => ?_
    by_cases same : j = k
    · subst same
      rw [t.get?_remove h i plain] at left
      split at left
      · cases left
      · exact left
    · rwa [t.get?_remove_of_ne h i same] at left

theorem removeFlow (flow : FlowId) : Thins t.store (t.removeFlow flow).store where
  tenants {i r} live := ⟨r, r.vms, (t.tenant?_removeFlow flow i).symm.trans live, .refl _, rfl⟩
  vms {v m'} live := by
    cases found : t.store.flow? flow with
    | none =>
      rw [t.removeFlow_of_none found] at live
      exact ⟨m', m'.flows, live, .refl _, rfl⟩
    | some record =>
      rw [t.vm?_removeFlow found] at live
      split at live
      · obtain ⟨m, before, rfl⟩ := Option.map_eq_some_iff.mp live
        exact ⟨m, delist flow m.flows, before, List.filter_sublist, rfl⟩
      · exact ⟨m', m'.flows, live, .refl _, rfl⟩
  flows := t.flow?_of_removeFlow flow
  requests := t.request?_of_removeFlow flow

theorem removeFlows (flows : List FlowId) :
    Thins t.store (flows.foldl Transaction.removeFlow t).store :=
  foldl removeFlow t flows

theorem removeVm (vm : VmId) : Thins t.store (t.removeVm vm).store := by
  unfold Transaction.removeVm
  cases t.store.vm? vm with
  | none => exact of_get? fun _ _ => rfl
  | some record =>
    have emptied := (lock t vm).trans (removeFlows _ record.flows)
    exact (emptied.trans (updateTenant _ record.tenant vm)).trans (remove _ vm)

theorem removeTenant (tenant : TenantId) : Thins t.store (t.removeTenant tenant).store := by
  unfold Transaction.removeTenant
  cases t.store.tenant? tenant with
  | none => exact of_get? fun _ _ => rfl
  | some record =>
    have locked := (lock t tenant).trans (foldl (fun t (vm : VmId) => lock t vm) _ record.vms)
    refine Thins.trans ?_ (remove _ tenant)
    refine Thins.trans ?_ (foldl (fun t (vm : VmId) => remove t vm) _ record.vms)
    exact locked.trans (removeFlows _ _)

end steps
end Thins
end Store

namespace Deletion

/-- What goes with a deletion, requests aside: they go with their flows. -/
def Takes (s : Store K) (d : Deletion) {k : Kind} (h : Handle k) : Prop :=
  match d, k, h with
  | flow id, .flow, i => id = i
  | vm v, .vm, i => v = i
  | vm v, .flow, i => ∃ f, s.flow? i = some f ∧ (f.source = v ∨ f.destination = v)
  | tenant t, .tenant, i => t = i
  | tenant t, .vm, i => s.owner? i = some t
  | tenant t, .flow, i => s.owner? i = some t
  | _, _, _ => False

/-- The record that is to be deleted is not there. -/
def Gone (s : Store K) : Deletion → Prop
  | flow id => s.flow? id = none
  | vm v => s.vm? v = none
  | tenant t => s.tenant? t = none

variable {s s' : Store K} {k : Kind} {d : Deletion}

/-- What is taken from a thinner store is taken from the fuller one. -/
theorem Takes.of_thins (thins : s.Thins s') {h : Handle k} (taken : d.Takes s' h) :
    d.Takes s h := by
  cases d with
  | flow id => cases k <;> exact taken
  | vm v =>
    cases k with
    | flow =>
      obtain ⟨f, live, at_end⟩ := taken
      exact ⟨f, thins.flows live, at_end⟩
    | _ => exact taken
  | tenant t =>
    cases k with
    | vm =>
      obtain ⟨m', live, its_tenant⟩ := Store.owner?_vm.mp taken
      obtain ⟨m, _, before, _, rfl⟩ := thins.vms live
      exact Store.owner?_vm.mpr ⟨m, before, its_tenant⟩
    | flow => exact thins.owner?_flow taken
    | _ => exact taken

/-- Where the deleted record is gone, nothing is left that hangs on it. -/
theorem not_takes (registered : s'.Registered) (thins : s.Thins s') (gone : d.Gone s')
    {h : Handle k} {r' : Record K k} (left : s'.get? h = some r') : ¬d.Takes s h := by
  intro taken
  cases d with
  | flow id =>
    cases k with
    | flow =>
      obtain rfl : id = h := taken
      exact nomatch gone.symm.trans left
    | _ => exact taken
  | vm v =>
    cases k with
    | vm =>
      obtain rfl : v = h := taken
      exact nomatch gone.symm.trans left
    | flow =>
      obtain ⟨f, live, at_end⟩ := taken
      obtain rfl : r' = f := Option.some.inj ((thins.flows left).symm.trans live)
      obtain ⟨v', w', source, destination, _⟩ := registered.flows.ends left
      rcases at_end with rfl | rfl
      · exact nomatch gone.symm.trans source
      · exact nomatch gone.symm.trans destination
    | _ => exact taken
  | tenant t =>
    have spared : ∀ {v : VmId} {m'}, s'.vm? v = some m' → s.owner? v ≠ some t := by
      intro v m' live owned
      obtain ⟨m, _, before, _, rfl⟩ := thins.vms live
      obtain ⟨m₀, before', rfl⟩ := Store.owner?_vm.mp owned
      cases before.symm.trans before'
      obtain ⟨r, found⟩ := registered.machines.owned live
      exact nomatch gone.symm.trans found
    cases k with
    | tenant =>
      obtain rfl : t = h := taken
      exact nomatch gone.symm.trans left
    | vm => exact spared left taken
    | flow =>
      obtain ⟨f, m, live, source, its_tenant⟩ := Store.owner?_flow.mp taken
      obtain rfl : r' = f := Option.some.inj ((thins.flows left).symm.trans live)
      obtain ⟨v', _, source', _⟩ := registered.flows.ends left
      exact spared source' (Store.owner?_vm.mpr ⟨m, source, its_tenant⟩)
    | request => exact taken

end Deletion

namespace Store
variable {s s' s'' : Store K} {d : Deletion} {k : Kind}

/-- The store is thinned, and loses only what the deletion takes. -/
structure Sheds (d : Deletion) (s s' : Store K) : Prop extends Thins s s' where
  only : ∀ {j : Kind} {h : Handle j} {r : Record K j}, j ≠ .request → s.get? h = some r →
    s'.get? h = none → d.Takes s h

namespace Sheds

theorem of_get? (same : ∀ (j : Kind) (h : Handle j), s'.get? h = s.get? h) : Sheds d s s' where
  toThins := .of_get? same
  only {j h _} _ live lost := absurd (same j h) (ne_of_lost live lost)

theorem trans (first : Sheds d s s') (second : Sheds d s' s'') : Sheds d s s'' where
  toThins := first.toThins.trans second.toThins
  only {j h r} plain live lost := by
    cases between : s'.get? h with
    | none => exact first.only plain live between
    | some r' => exact (second.only plain between lost).of_thins first.toThins

end Sheds

/-- The store is thinned by the deletion to the end. -/
structure Clears (d : Deletion) (s s' : Store K) : Prop extends Sheds d s s' where
  linked : s'.Linked
  registered : s'.Registered
  gone : d.Gone s'

namespace Clears

/-- What is left in one way is left in the other. -/
theorem left (first : Clears d s s') (second : Clears d s s'') (plain : k ≠ .request)
    {h : Handle k} {r' : Record K k} (left : s'.get? h = some r') :
    ∃ r'', s''.get? h = some r'' := by
  obtain ⟨r, before⟩ := first.toThins.live left
  have spared : ¬d.Takes s h := Deletion.not_takes first.registered first.toThins first.gone left
  refine Option.ne_none_iff_exists'.mp fun lost => ?_
  exact spared (second.only plain before lost)

theorem flow? (first : Clears d s s') (second : Clears d s s'') {i : FlowId} {f : Flow K}
    (live : s'.flow? i = some f) : s''.flow? i = some f := by
  obtain ⟨f', live'⟩ : ∃ f', s''.flow? i = some f' := first.left (k := .flow) second nofun live
  have same : some f' = some f := (second.flows live').symm.trans (first.flows live)
  exact live'.trans same

/-- Machines list the same flows, because they list what is live and in the old order. -/
theorem vm? (registered : s.Registered) (first : Clears d s s') (second : Clears d s s'')
    {v : VmId} {m' : VirtualMachine} (live : s'.vm? v = some m') : s''.vm? v = some m' := by
  obtain ⟨m'', live'⟩ : ∃ m'', s''.vm? v = some m'' := first.left (k := .vm) second nofun live
  obtain ⟨m, flows, before, part, rfl⟩ := first.vms live
  obtain ⟨m₀, flows', before', part', rfl⟩ := second.vms live'
  cases before.symm.trans before'
  obtain rfl : flows' = flows := by
    refine eq_of_sublist_of_mem_iff (registered.flows.nodup before) part' part fun i => ?_
    rw [second.registered.flows.mem_iff live', first.registered.flows.mem_iff live]
    exact exists_congr fun f => and_congr_left fun _ =>
      ⟨second.flow? first, first.flow? second⟩
  exact live'

theorem tenant? (registered : s.Registered) (first : Clears d s s') (second : Clears d s s'')
    {t : TenantId} {r' : Tenant} (live : s'.tenant? t = some r') : s''.tenant? t = some r' := by
  obtain ⟨r'', live'⟩ : ∃ r'', s''.tenant? t = some r'' :=
    first.left (k := .tenant) second nofun live
  obtain ⟨r, vms, before, part, rfl⟩ := first.tenants live
  obtain ⟨r₀, vms', before', part', rfl⟩ := second.tenants live'
  cases before.symm.trans before'
  obtain rfl : vms' = vms := by
    refine eq_of_sublist_of_mem_iff (registered.machines.nodup before) part' part fun v => ?_
    rw [second.registered.machines.mem_iff live', first.registered.machines.mem_iff live]
    exact exists_congr fun m => and_congr_left fun _ =>
      ⟨second.vm? registered first, first.vm? registered second⟩
  exact live'

/-- Requests are left with their flows. -/
theorem request? (first : Clears d s s') (second : Clears d s s'') {r : RequestId}
    {b : Booking K} (live : s'.request? r = some b) : s''.request? r = some b := by
  obtain ⟨_, id, f, _, found, requested⟩ := first.linked.owned live
  obtain ⟨b', live', _⟩ := second.linked.routed (first.flow? second found) requested
  have same : some b' = some b := (second.requests live').symm.trans (first.requests live)
  exact live'.trans same

theorem get? (registered : s.Registered) (first : Clears d s s') (second : Clears d s s'')
    {h : Handle k} {r : Record K k} (live : s'.get? h = some r) : s''.get? h = some r := by
  cases k with
  | tenant => exact first.tenant? registered second live
  | vm => exact first.vm? registered second live
  | flow => exact first.flow? second live
  | request => exact first.request? second live

/-- Whatever way a store was cleared, it holds the same records. -/
theorem sameRecords (registered : s.Registered) (first : Clears d s s')
    (second : Clears d s s'') : SameRecords s' s'' := by
  have same : ∀ (k : Kind) (h : Handle k), s''.get? h = s'.get? h := fun k h =>
    Option.ext fun r => ⟨second.get? registered first, first.get? registered second⟩
  refine ⟨same, Std.ExtTreeSet.ext_mem fun c => ?_⟩
  rw [second.linked.mirrored c, first.linked.mirrored c]
  exact exists_congr fun b => exists_congr fun path => and_congr_left fun _ => by
    rw [Store.request?, Store.request?, same .request c.request]

end Clears
end Store

namespace Deletion
open Store Transaction
variable {t : Transaction K}

theorem thins_body (t : Transaction K) (d : Deletion) : Thins t.store (d.body t).store := by
  cases d with
  | flow id => exact .removeFlow t id
  | vm id => exact .removeVm t id
  | tenant id => exact .removeTenant t id

/-- The other machines stay, with shorter lists of flows perhaps. -/
theorem entry_removeVm (t : Transaction K) {v i : VmId} (other : v ≠ i) :
    ((t.removeVm v).store.vm? i).map VirtualMachine.entry =
      (t.store.vm? i).map VirtualMachine.entry := by
  unfold removeVm
  cases found : t.store.vm? v with
  | none => rfl
  | some record =>
    have emptied := Registered.entry_removeFlows (t.lock v) record.flows i
    simp only [Store.vm?, get?_lock] at emptied
    simpa [Store.vm?, get?_remove, other, get?_update_of_ne] using emptied

/-- The flows of a machine go with it. -/
theorem flow?_removeVm {v : VmId} {record : VirtualMachine} (found : t.store.vm? v = some record)
    (i : FlowId) : (t.removeVm v).store.flow? i =
      if i ∈ record.flows then none else t.store.flow? i := by
  have emptied := flow?_removeFlows (t.lock v) record.flows i
  simp only [Store.flow?, get?_lock] at emptied
  simpa [removeVm, found, Store.flow?, get?_remove_of_ne, get?_update_of_ne] using emptied

/-- With a machine its flows go. Its tenant and the other machines stay. -/
theorem takes_of_removeVm (registered : t.store.Registered) {v : VmId} {k : Kind} {h : Handle k}
    {r : Record K k} (plain : k ≠ .request) (live : t.store.get? h = some r)
    (lost : (t.removeVm v).store.get? h = none) : (vm v).Takes t.store h := by
  cases k with
  | request => exact absurd rfl plain
  | tenant =>
    have named := names_removeVm t v h
    rw [Store.tenant?, Store.tenant?, lost, live] at named
    cases named
  | vm =>
    show v = h
    by_contra other
    have kept := entry_removeVm t other
    rw [Store.vm?, Store.vm?, lost, live] at kept
    cases kept
  | flow =>
    cases found : t.store.vm? v with
    | none =>
      have same : (t.removeVm v).store.get? h = t.store.get? h := by simp [removeVm, found]
      exact absurd same (ne_of_lost live lost)
    | some record =>
      have left := flow?_removeVm found h
      split at left
      · rename_i listed
        exact (registered.flows.mem_iff found).mp listed
      · exact absurd left (ne_of_lost live lost)

theorem sheds_body (linked : t.store.Linked) (registered : t.store.Registered) (d : Deletion) :
    Sheds d t.store (d.body t).store where
  toThins := thins_body t d
  only {k h r} plain live lost := by
    cases d with
    | flow id =>
      cases k with
      | request => exact absurd rfl plain
      | tenant => exact absurd (t.tenant?_removeFlow id h) (ne_of_lost live lost)
      | vm =>
        have kept := Registered.entry_removeFlow t id h
        have lost : (t.removeFlow id).store.vm? h = none := lost
        rw [lost, show t.store.vm? h = some r from live] at kept
        cases kept
      | flow =>
        by_contra other
        have kept := (t.flow?_removeFlow id h).trans (if_neg other)
        exact absurd kept (ne_of_lost live lost)
    | vm v => exact takes_of_removeVm registered plain live lost
    | tenant id =>
      have others := (Prunes.removeTenant linked registered id).others h
      have owned : t.store.owner? h = some id := by
        by_contra foreign
        exact absurd (others foreign) (ne_of_lost live lost)
      cases k with
      | request => exact absurd rfl plain
      | tenant => exact (Option.some.inj owned).symm
      | _ => exact owned

variable {R C : Type} [Quantity K] [CostModel C K] [Router R C K] {m : Manager R C K}

/-- A deletion takes its record with all that hangs on it. -/
theorem clears_run (reachable : m.Reachable) (d : Deletion) :
    Clears d m.store (d.operation.run m).2.store := by
  have after := reachable.run (d.operation (K := K))
  have sheds := sheds_body (t := m.store.begin) reachable.sound.linked reachable.registered d
  refine ⟨?_, after.sound.linked, after.registered, ?_⟩
  · rw [store_run]
    exact sheds.trans (.of_get? fun _ h => get?_unlocked _ h)
  · rw [store_run]
    cases d with
    | flow id => exact (get?_unlocked _ id).trans ((flow?_removeFlow _ id id).trans (if_pos rfl))
    | vm id => exact (get?_unlocked _ id).trans (vm?_removeVm_self _ id)
    | tenant id => exact (get?_unlocked _ id).trans (tenant?_removeTenant_self _ id)

end Deletion
end FlowAdmission
