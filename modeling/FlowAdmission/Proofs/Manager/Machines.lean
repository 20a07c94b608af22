import FlowAdmission.Proofs.Manager.Linked

/-!
# Tenants, machines and the links

Calls on tenants and machines keep the links between flows, machines and requests. A new tenant or
machine touches none of them. A deletion removes the flows of the machines before the machines
(`Linked.no_flow_left`), so no flow is left that names one which is gone.
-/
namespace FlowAdmission
variable {K : Type}

namespace Transaction
open Store
variable {j k : Kind}

theorem get?_anyRead (test : Record K k → Bool) (t : Transaction K) (handles : List (Handle k))
    (i : Handle j) : (t.anyRead test handles).2.store.get? i = t.store.get? i := by
  induction handles generalizing t with
  | nil => rfl
  | cons h rest ih =>
    unfold anyRead
    dsimp only
    split
    · exact t.get?_lock h i
    · exact (ih _).trans (t.get?_lock h i)

/-- Steps that leave a record alone one by one leave it alone together. -/
theorem get?_foldl {α : Type} {step : Transaction K → α → Transaction K} {i : Handle j}
    (one : ∀ t a, (step t a).store.get? i = t.store.get? i) (t : Transaction K) (xs : List α) :
    (xs.foldl step t).store.get? i = t.store.get? i := by
  induction xs generalizing t with
  | nil => rfl
  | cons a rest ih => exact (ih _).trans (one t a)

/-- Steps that take one record each take just those of the list. -/
theorem removed_foldl (read : Transaction K → Handle j → Option (Record K j))
    {step : Transaction K → Handle j → Transaction K}
    (one : ∀ t h i, read (step t h) i = if h = i then none else read t i) (t : Transaction K)
    (handles : List (Handle j)) (i : Handle j) :
    read (handles.foldl step t) i = if i ∈ handles then none else read t i := by
  induction handles generalizing t with
  | nil => simp
  | cons h rest ih =>
    rw [List.foldl_cons, ih, one]
    by_cases later : i ∈ rest
    · simp [later]
    · by_cases now : h = i
      · simp [now]
      · simp [later, now, Ne.symm now]

theorem get?_locks (t : Transaction K) (handles : List (Handle k)) (i : Handle j) :
    (handles.foldl lock t).store.get? i = t.store.get? i :=
  get?_foldl (fun t h => t.get?_lock h i) t handles

/-- Of the flows of a list none is left, and no other is gone. -/
theorem flow?_removeFlows (t : Transaction K) (flows : List FlowId) (i : FlowId) :
    (flows.foldl removeFlow t).store.flow? i = if i ∈ flows then none else t.store.flow? i :=
  removed_foldl (fun t i => t.store.flow? i) (fun t h => t.flow?_removeFlow h) t flows i

theorem tenant?_removeFlows (t : Transaction K) (flows : List FlowId) (i : TenantId) :
    (flows.foldl removeFlow t).store.tenant? i = t.store.tenant? i :=
  get?_foldl (fun t flow => t.tenant?_removeFlow flow i) t flows

theorem get?_removes_of_ne (t : Transaction K) (handles : List (Handle k)) (i : Handle j)
    (hk : j ≠ k) : (handles.foldl remove t).store.get? i = t.store.get? i :=
  get?_foldl (fun t h => t.get?_remove_of_ne h i hk) t handles

theorem get?_removes (t : Transaction K) (handles : List (Handle k)) (i : Handle k)
    (plain : k ≠ .request) :
    (handles.foldl remove t).store.get? i = if i ∈ handles then none else t.store.get? i :=
  removed_foldl (fun t i => t.store.get? i) (fun t h i => t.get?_remove h i plain) t handles i

/-- A new record stands under a number that no live one has. -/
theorem get?_insert_of_live {t : Transaction K} (numbered : t.store.Numbered) (new : Record K k)
    {i : Handle k} {r : Record K k} (live : t.store.get? i = some r) :
    (t.insert new).2.store.get? i = some r := by
  rw [t.get?_insert, if_neg, live]
  rintro rfl
  have missing : t.store.get? (t.insert new).1 = none := numbered k _ (Nat.le_refl _)
  rw [missing] at live
  cases live

/-- The flows of machines are those that the machines list. -/
theorem mem_flowsAt {s : Store K} {vms : List VmId} {i : FlowId} :
    i ∈ flowsAt s vms ↔ ∃ vm ∈ vms, ∃ m, s.vm? vm = some m ∧ i ∈ m.flows := by
  unfold flowsAt
  rw [Std.ExtTreeSet.mem_toList, Std.ExtTreeSet.mem_ofList, List.contains_iff_mem,
    List.mem_flatMap]
  constructor
  · rintro ⟨vm, named, listed⟩
    cases found : s.vm? vm with
    | none => simp [found] at listed
    | some m =>
      rw [found] at listed
      exact ⟨vm, named, m, found, listed⟩
  · rintro ⟨vm, named, m, found, listed⟩
    exact ⟨vm, named, by rwa [found]⟩

end Transaction

namespace Store
namespace Linked
open Transaction
variable {t : Transaction K}

/-- Operations that touch neither flows nor machines nor requests. -/
theorem of_steps {t' : Transaction K} (linked : t.store.Linked) (steps : Steps [] t t')
    (same : ∀ (j : Kind) (i : Handle j), j ≠ .tenant → t'.store.get? i = t.store.get? i) :
    t'.store.Linked :=
  linked.of_machines (steps.numbered linked.numbered)
    (steps.mirrored linked.numbered linked.mirrored)
    (fun i => same .flow i nofun) (fun i => same .request i nofun)
    fun _ _ m _ found listed => ⟨m, (same .vm _ nofun).trans found, rfl, listed⟩

theorem locked {k : Kind} (linked : t.store.Linked) (h : Handle k) : (t.lock h).store.Linked :=
  linked.of_steps (steps_lock t h) fun _ i _ => t.get?_lock h i

theorem lockedAll {k : Kind} (linked : t.store.Linked) (handles : List (Handle k)) :
    (handles.foldl lock t).store.Linked :=
  linked.of_steps (Steps.foldl steps_lock handles t) fun _ i _ => get?_locks t handles i

theorem unlocked (linked : t.store.Linked) : t.unlocked.Linked := by
  refine linked.of_machines (fun k h => ?_) (fun c => ?_) (fun i => get?_unlocked _ _)
    (fun i => get?_unlocked _ _) fun _ _ m _ found listed =>
      ⟨m, (get?_unlocked _ _).trans found, rfl, listed⟩
  · simpa using linked.numbered k h
  · simpa [request?] using linked.mirrored c

theorem removeFlows (linked : t.store.Linked) (flows : List FlowId) :
    (flows.foldl Transaction.removeFlow t).store.Linked := by
  induction flows generalizing t with
  | nil => exact linked
  | cons flow rest ih => exact ih (linked.removeFlow flow)

/-- When all flows listed by some machines are removed, no flow is left that has one of these
machines at an end. -/
theorem no_flow_left (linked : t.store.Linked) {flows : List FlowId} (vms : List VmId)
    (covered : ∀ vm ∈ vms, ∀ m, t.store.vm? vm = some m → ∀ i ∈ m.flows, i ∈ flows)
    {i : FlowId} {f : Flow K}
    (left : (flows.foldl Transaction.removeFlow t).store.flow? i = some f) :
    f.source ∉ vms ∧ f.destination ∉ vms := by
  rw [t.flow?_removeFlows] at left
  split at left
  · cases left
  · rename_i kept
    obtain ⟨v, w, source, destination, listed, listed', _⟩ := linked.machines left
    exact ⟨fun named => kept (covered _ named v source i listed),
      fun named => kept (covered _ named w destination i listed')⟩

/-- The flows that a machine lists are all that it has. -/
theorem no_flow_left_at (linked : t.store.Linked) {vm : VmId} {record : VirtualMachine}
    (found : t.store.vm? vm = some record) {i : FlowId} {f : Flow K}
    (left : (record.flows.foldl Transaction.removeFlow (t.lock vm)).store.flow? i = some f) :
    f.source ∉ [vm] ∧ f.destination ∉ [vm] := by
  refine (linked.locked vm).no_flow_left [vm] (fun v named m found' i listed => ?_) left
  obtain rfl := List.mem_singleton.mp named
  have same : some m = some record := found'.symm.trans ((t.get?_lock v v).trans found)
  cases same
  exact listed

/-- The flows at the machines of a tenant are all that these have. -/
theorem no_flow_left_of (linked : t.store.Linked) (tenant : TenantId) (vms : List VmId)
    {i : FlowId} {f : Flow K}
    (left : ((flowsAt (vms.foldl lock (t.lock tenant)).store vms).foldl Transaction.removeFlow
      (vms.foldl lock (t.lock tenant))).store.flow? i = some f) :
    f.source ∉ vms ∧ f.destination ∉ vms := by
  exact ((linked.locked tenant).lockedAll vms).no_flow_left vms
    (fun vm named m found' i listed => mem_flowsAt.mpr ⟨vm, named, m, found', listed⟩) left

/-- Machines that no live flow has at an end may go. -/
theorem removeMachines (linked : t.store.Linked) (vms : List VmId)
    (idle : ∀ {i f}, t.store.flow? i = some f → f.source ∉ vms ∧ f.destination ∉ vms) :
    (vms.foldl remove t).store.Linked := by
  have steps : Steps [] t (vms.foldl remove t) :=
    Steps.foldl (fun t (vm : VmId) => steps_remove t vm nofun) vms t
  refine linked.of_machines (steps.numbered linked.numbered)
    (steps.mirrored linked.numbered linked.mirrored) (fun i => get?_removes_of_ne t vms i nofun)
    (fun i => get?_removes_of_ne t vms i nofun) ?_
  intro i f live v m at_end found listed
  have spared : v ∉ vms := by
    obtain ⟨source, destination⟩ := idle live
    rcases at_end with rfl | rfl
    · exact source
    · exact destination
  refine ⟨m, ?_, rfl, listed⟩
  exact (get?_removes t vms v nofun).trans ((if_neg spared).trans found)

/-- A machine goes with its flows. -/
theorem removeVm (linked : t.store.Linked) (vm : VmId) : (t.removeVm vm).store.Linked := by
  unfold Transaction.removeVm
  cases found : t.store.vm? vm with
  | none => exact linked
  | some record =>
    have unlisted := ((linked.locked vm).removeFlows record.flows).of_steps
      (steps_update _ record.tenant (Tenant.removeVm vm) nofun)
      fun _ i other => get?_update_of_ne _ _ _ i other
    refine unlisted.removeMachines [vm] fun {i f} live => ?_
    apply linked.no_flow_left_at found
    exact (get?_update_of_ne _ record.tenant _ i nofun).symm.trans live

/-- A tenant goes with its machines, and these with their flows. -/
theorem removeTenant (linked : t.store.Linked) (tenant : TenantId) :
    (t.removeTenant tenant).store.Linked := by
  unfold Transaction.removeTenant
  cases found : t.store.tenant? tenant with
  | none => exact linked
  | some record =>
    have locked := (linked.locked tenant).lockedAll record.vms
    have emptied := (locked.removeFlows _).removeMachines record.vms
      (linked.no_flow_left_of tenant record.vms)
    exact emptied.of_steps (steps_remove _ tenant nofun) fun _ i other =>
      get?_remove_of_ne _ _ i other

theorem addTenant (linked : t.store.Linked) (name : String) :
    (t.addTenant name).2.store.Linked := by
  refine linked.of_steps (steps_addTenant name t) fun j i other => ?_
  have read := get?_anyRead (fun other : Tenant => other.name == name) t
    (t.store.handles .tenant) i
  unfold Transaction.addTenant
  dsimp only
  split <;> rename_i answered <;> rw [answered] at read
  · exact read
  · exact (get?_insert_of_ne _ _ i other).trans read

/-- A new machine stands under a number that no live flow names. -/
theorem insertVm (linked : t.store.Linked) (record : VirtualMachine) :
    (t.insert (k := .vm) record).2.store.Linked := by
  have steps := steps_insert (k := .vm) t record trivial
  refine linked.of_machines (steps.numbered linked.numbered)
    (steps.mirrored linked.numbered linked.mirrored) (fun i => t.get?_insert_of_ne _ i nofun)
    (fun i => t.get?_insert_of_ne _ i nofun) fun _ v m _ found listed => ⟨m, ?_, rfl, listed⟩
  exact get?_insert_of_live (k := .vm) linked.numbered record found

theorem addVm (linked : t.store.Linked) (net : Network K) (tenant : TenantId) (name : String)
    (placement : Placement) : (t.addVm net tenant name placement).2.store.Linked := by
  unfold Transaction.addVm
  split
  · exact linked
  · rename_i owner _
    have read := (linked.locked tenant).of_steps
      (steps_anyRead (fun other : VirtualMachine => other.name == name) _ owner.vms)
      fun _ i _ => get?_anyRead _ _ owner.vms i
    split <;> rename_i answered <;> rw [answered] at read
    · exact read
    · split
      · exact read
      · exact (read.insertVm _).of_steps (steps_update _ tenant _ nofun)
          fun _ i other => get?_update_of_ne _ _ _ i other

theorem setConnection (linked : t.store.Linked) (vm : VmId) (connection : Option String) :
    (t.setConnection vm connection).2.store.Linked := by
  unfold Transaction.setConnection
  split
  · have steps := steps_update (k := .vm) t vm (fun record => { record with connection }) nofun
    refine linked.of_machines (steps.numbered linked.numbered)
      (steps.mirrored linked.numbered linked.mirrored)
      (fun i => get?_update_of_ne t vm _ i nofun) (fun i => get?_update_of_ne t vm _ i nofun) ?_
    intro i f live v m at_end found listed
    have looked := get?_update (k := .vm) t vm v (fun record => { record with connection })
    rw [show t.store.get? v = some m from found] at looked
    split at looked
    · exact ⟨_, looked, rfl, listed⟩
    · exact ⟨m, looked, rfl, listed⟩
  · exact linked

end Linked
end Store
end FlowAdmission
