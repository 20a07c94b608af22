import FlowAdmission.Proofs.Manager.Steps

/-!
# Effects of the transactions on flows and requests

The look-ups that the transactions of a manager leave: a flow is removed (`flow?_removeFlow` and
its companions), a flow is stored (`flow?_addFlow`), a flow changes its request (`flow?_relink`),
and a request is embedded or not (`Embedder.embed_some`, `Embedder.embed_none`).
-/
namespace FlowAdmission
variable {K : Type}

theorem delist_delist {α : Type} [DecidableEq α] (a : α) (xs : List α) :
    delist a (delist a xs) = delist a xs := by
  simp [delist, List.filter_filter]

theorem enlist_enlist {α : Type} [DecidableEq α] (a : α) (xs : List α) :
    enlist a (enlist a xs) = enlist a xs := by
  unfold enlist
  by_cases h : a ∈ xs <;> simp [h]

theorem mem_enlist {α : Type} [DecidableEq α] {a b : α} {xs : List α} :
    b ∈ enlist a xs ↔ b ∈ xs ∨ b = a := by
  unfold enlist
  split
  · constructor
    · exact .inl
    · rintro (listed | rfl)
      · exact listed
      · assumption
  · simp

theorem mem_delist {α : Type} [DecidableEq α] {a b : α} {xs : List α} :
    b ∈ delist a xs ↔ b ∈ xs ∧ b ≠ a := by
  simp [delist]

namespace VirtualMachine

theorem removeFlow_removeFlow (flow : FlowId) (vm : VirtualMachine) :
    (vm.removeFlow flow).removeFlow flow = vm.removeFlow flow := by
  simp [removeFlow, delist_delist]

theorem addFlow_addFlow (flow : FlowId) (vm : VirtualMachine) :
    (vm.addFlow flow).addFlow flow = vm.addFlow flow := by
  simp [addFlow, enlist_enlist]

end VirtualMachine

namespace Transaction
open Store

/-- Two changes of the machines of a flow, which may be one. -/
theorem get?_update_update (t : Transaction K) (a b i : VmId)
    (change : VirtualMachine → VirtualMachine) (idempotent : ∀ vm, change (change vm) = change vm) :
    ((t.update (k := .vm) a change).update (k := .vm) b change).store.get? i =
      if a = i ∨ b = i then (t.store.get? i).map change else t.store.get? i := by
  rw [get?_update, get?_update]
  by_cases ha : a = i
  · by_cases hb : b = i
    · rw [if_pos ha, if_pos hb, if_pos (.inl ha), Option.map_map]
      exact congrArg (Option.map · _) (funext idempotent)
    · rw [if_pos ha, if_neg hb, if_pos (.inl ha)]
  · by_cases hb : b = i
    · rw [if_neg ha, if_pos hb, if_pos (.inr hb)]
    · rw [if_neg ha, if_neg hb, if_neg (by tauto)]

section removal
variable (t : Transaction K) {flow : FlowId} {record : Flow K}

/-- Removing a flow that is not there changes nothing. -/
theorem removeFlow_of_none (absent : t.store.flow? flow = none) : t.removeFlow flow = t := by
  simp [removeFlow, absent]

/-- A flow is removed, and no other. -/
theorem flow?_removeFlow (flow i : FlowId) :
    (t.removeFlow flow).store.flow? i = if flow = i then none else t.store.flow? i := by
  unfold removeFlow
  cases live : t.store.flow? flow with
  | none =>
    by_cases h : flow = i
    · rw [if_pos h, ← h, live]
    · rw [if_neg h]
  | some record =>
    unfold Store.flow?
    cases hr : record.request with
    | none => simp [hr, get?_remove, get?_update_of_ne]
    | some request => simp [hr, get?_remove, get?_detach_of_ne, get?_update_of_ne]

/-- Its request goes with a flow. -/
theorem request?_removeFlow (live : t.store.flow? flow = some record) (i : RequestId) :
    (t.removeFlow flow).store.request? i =
      if record.request = some i then none else t.store.request? i := by
  unfold removeFlow Store.request?
  rw [live]
  cases hr : record.request with
  | none => simp [hr, get?_remove_of_ne, get?_update_of_ne]
  | some request => simp [hr, get?_remove_of_ne, get?_detach, get?_update_of_ne]

/-- A flow that is left was there. -/
theorem flow?_of_removeFlow (flow : FlowId) {i : FlowId} {f : Flow K}
    (left : (t.removeFlow flow).store.flow? i = some f) : t.store.flow? i = some f := by
  rw [t.flow?_removeFlow] at left
  split at left
  · cases left
  · exact left

/-- A request that is left was there. -/
theorem request?_of_removeFlow (flow : FlowId) {r : RequestId} {b : Booking K}
    (left : (t.removeFlow flow).store.request? r = some b) : t.store.request? r = some b := by
  cases live : t.store.flow? flow with
  | none => rwa [t.removeFlow_of_none live] at left
  | some record =>
    rw [t.request?_removeFlow live] at left
    split at left
    · cases left
    · exact left

/-- Both machines of a removed flow take it off their lists. -/
theorem vm?_removeFlow (live : t.store.flow? flow = some record) (i : VmId) :
    (t.removeFlow flow).store.vm? i =
      if record.source = i ∨ record.destination = i then
        (t.store.vm? i).map (VirtualMachine.removeFlow flow)
      else t.store.vm? i := by
  have unlisted := (t.lock flow).get?_update_update record.source record.destination i _
    (VirtualMachine.removeFlow_removeFlow flow)
  rw [get?_lock] at unlisted
  unfold removeFlow Store.vm?
  rw [live]
  cases hr : record.request with
  | none => simpa [hr, get?_remove_of_ne] using unlisted
  | some request => simpa [hr, get?_remove_of_ne, get?_detach_of_ne] using unlisted

theorem tenant?_removeFlow (flow : FlowId) (i : TenantId) :
    (t.removeFlow flow).store.tenant? i = t.store.tenant? i := by
  unfold removeFlow Store.tenant?
  cases t.store.flow? flow with
  | none => rfl
  | some record =>
    cases hr : record.request <;>
      simp [hr, get?_remove_of_ne, get?_detach_of_ne, get?_update_of_ne]

end removal

section addition
variable (t : Transaction K) (flow : Flow K)

theorem flow?_addFlow (i : FlowId) :
    (addFlow flow t).2.store.flow? i =
      if (addFlow flow t).1 = i then some flow else t.store.flow? i := by
  have stored := t.get?_insert (k := .flow) flow i
  unfold addFlow Store.flow?
  cases hr : flow.request with
  | none => simpa [get?_update_of_ne] using stored
  | some request => simpa [get?_update_of_ne] using stored

/-- The request of a new flow is pointed back at it. -/
theorem request?_addFlow (i : RequestId) :
    (addFlow flow t).2.store.request? i =
      if flow.request = some i then
        (t.store.request? i).map fun booking => { booking with flow := some (addFlow flow t).1 }
      else t.store.request? i := by
  unfold addFlow Store.request?
  cases hr : flow.request with
  | none => simp [get?_update_of_ne, get?_insert_of_ne]
  | some request => simp [get?_update_of_ne, get?_insert_of_ne, get?_update]

/-- Both machines of a new flow list it. -/
theorem vm?_addFlow (i : VmId) :
    (addFlow flow t).2.store.vm? i =
      if flow.source = i ∨ flow.destination = i then
        (t.store.vm? i).map (VirtualMachine.addFlow (addFlow flow t).1)
      else t.store.vm? i := by
  have listed := fun t' : Transaction K => t'.get?_update_update flow.source flow.destination i _
    (VirtualMachine.addFlow_addFlow (t.insert (k := .flow) flow).1)
  unfold addFlow Store.vm?
  cases hr : flow.request with
  | none => simpa [get?_insert_of_ne] using listed (t.insert (k := .flow) flow).2
  | some request =>
    apply (listed _).trans
    simp [get?_update_of_ne, get?_insert_of_ne]

theorem tenant?_addFlow (i : TenantId) :
    (addFlow flow t).2.store.tenant? i = t.store.tenant? i := by
  unfold addFlow Store.tenant?
  cases hr : flow.request with
  | none => simp [get?_update_of_ne, get?_insert_of_ne]
  | some request => simp [get?_update_of_ne, get?_insert_of_ne]

end addition
section relinking
variable (t : Transaction K) {oldRequest newRequest : RequestId}
open Rerouting (relink)

theorem flow?_relink (flow i : FlowId) :
    (relink flow oldRequest newRequest t).store.flow? i =
      if flow = i then
        (t.store.flow? i).map fun record => { record with request := some newRequest }
      else t.store.flow? i := by
  simp [relink, Store.flow?, get?_update_of_ne, get?_update, get?_detach_of_ne]

/-- The old request is gone, and the new one points at the flow. -/
theorem request?_relink (flow : FlowId) (apart : oldRequest ≠ newRequest) (i : RequestId) :
    (relink flow oldRequest newRequest t).store.request? i =
      if oldRequest = i then none
      else if newRequest = i then
        (t.store.request? i).map fun booking => { booking with flow := some flow }
      else t.store.request? i := by
  simp only [relink, Store.request?, get?_update, ne_eq, reduceCtorEq, not_false_eq_true,
    get?_update_of_ne, get?_detach, get?_lock]
  by_cases old : oldRequest = i
  · have other : newRequest ≠ i := fun new => apart (old.trans new.symm)
    rw [if_neg other, if_pos old, if_pos old]
  · rw [if_neg old, if_neg old]

/-- Tenants and machines have no part in a move. -/
theorem get?_relink_of_ne {j : Kind} (flow : FlowId) (i : Handle j) (no_flow : j ≠ .flow)
    (no_request : j ≠ .request) :
    (relink flow oldRequest newRequest t).store.get? i = t.store.get? i := by
  unfold relink
  rw [get?_update_of_ne _ _ _ _ no_request, get?_update_of_ne _ _ _ _ no_flow,
    get?_detach_of_ne _ _ _ no_request, get?_lock]

end relinking
end Transaction

namespace Store

/-- A new request, under the next number, and nothing else. -/
structure Gains (s s' : Store K) (id : RequestId) (booking : Booking K) : Prop where
  next : id.index = s.requests.next
  requests : ∀ i, s'.request? i = if id = i then some booking else s.request? i
  others : ∀ (j : Kind) (i : Handle j), j ≠ .request → s'.get? i = s.get? i

/-- A request that is gained is newer than every live one. -/
theorem Gains.fresh {s s' : Store K} {id : RequestId} {booking : Booking K}
    (gains : Gains s s' id booking) (numbered : s.Numbered) {i : RequestId} {other : Booking K}
    (live : s.request? i = some other) : i.index < id.index := by
  rw [gains.next]
  exact numbered.lt_next (k := .request) live

/-- The request that an embedding stores, with the path that it attaches. -/
theorem gains_embedded (s : Store K) (booking : Booking K) (path : Path) :
    Gains s
      ((s.begin.insert (k := .request) booking).2.attach
        (s.begin.insert (k := .request) booking).1 path).unlocked
      (s.begin.insert (k := .request) booking).1 { booking with path := some path } := by
  have looked := s.begin.get?_insert (k := .request) booking
  have others := fun (j : Kind) => s.begin.get?_insert_of_ne (k := .request) (j := j) booking
  have next : (s.begin.insert (k := .request) booking).1.index = s.requests.next := rfl
  generalize s.begin.insert (k := .request) booking = stored at looked others next ⊢
  obtain ⟨id, t⟩ := stored
  refine ⟨next, fun i => ?_, fun j i plain => ?_⟩
  · unfold request?
    rw [Transaction.get?_unlocked, Transaction.get?_attach, looked]
    by_cases new : id = i
    · simp [new]
    · rw [if_neg new, if_neg new, if_neg new]
      rfl
  · rw [Transaction.get?_unlocked, Transaction.get?_attach_of_ne _ _ _ _ plain]
    exact others j i plain

end Store

namespace Embedder
open Transaction Store
variable {R C : Type} [Quantity K] [CostModel C K] [Router R C K] {x x' : Embedder R C K}
  {net : Network K} {penalized : Std.ExtTreeSet EdgeId} {request : Request K}
  {replaces : Option RequestId}

/-- An embedding that fails leaves the records and the reservations as they were. -/
theorem embed_none (numbered : x.store.Numbered) (mirrored : x.store.Mirrored)
    (answered : x.embed net penalized request replaces = (none, x')) :
    Follows x.store x'.store ∧ SameRecords x.store x'.store ∧ x'.costs = x.costs := by
  have stored := steps_insert (k := .request) x.store.begin
    ({ request, replaces } : Booking K) (rfl : none = none)
  rcases x.embed_cases net penalized request replaces with
    ⟨router, undone⟩ | ⟨router, path, costs, _, registered, kept⟩
  · rw [undone] at answered
    cases answered
    obtain ⟨follows, same⟩ := stored.follows_rollback numbered mirrored
    exact ⟨follows, same, rfl⟩
  · rw [kept] at answered
    cases answered

/-- An embedding that succeeds stores the request with a path. -/
theorem embed_some (numbered : x.store.Numbered) (mirrored : x.store.Mirrored)
    {id : RequestId} (answered : x.embed net penalized request replaces = (some id, x')) :
    Follows x.store x'.store ∧
      ∃ path, Gains x.store x'.store id { request, path := some path, replaces } := by
  rcases x.embed_cases net penalized request replaces with
    ⟨router, undone⟩ | ⟨router, path, costs, _, registered, kept⟩
  · rw [undone] at answered
    cases answered
  · rw [kept] at answered
    have attached := steps_embedded x.store ({ request, replaces } : Booking K) path rfl
    have follows := attached.follows_commit numbered mirrored
    cases answered
    exact ⟨follows, path, gains_embedded x.store { request, replaces } path⟩

end Embedder
end FlowAdmission
