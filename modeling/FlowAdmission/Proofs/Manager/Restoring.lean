import FlowAdmission.Proofs.Cost.Outstanding
import FlowAdmission.Proofs.Manager.Index
import FlowAdmission.Proofs.Manager.Thinning

/-!
# Deletions that take creations back

A call that creates a record adds it to the store and to lists, and changes nothing else unless a
flow is moved (`Store.Adds`). Seen from behind, the store before the call is what the store after
it is thinned to. So whatever is created within a tenant, a machine or a flow, the deletion of
that one clears the store to the records that were there before it was created, and the ledger to
the reservations that there were (`Manager.deletion_undoes_creation`).
-/
namespace FlowAdmission
variable {K : Type}

theorem sublist_enlist {α : Type} [DecidableEq α] (a : α) (xs : List α) :
    xs.Sublist (enlist a xs) := by
  unfold enlist
  split
  · exact .refl _
  · exact List.sublist_append_left _ _

namespace Store
variable {s s' s'' : Store K} {k : Kind} {new : Handle k}

/-- One record is new, and lists may have got longer for it. -/
structure Adds (new : Handle k) (s s' : Store K) : Prop where
  thins : Thins s' s
  fresh : s.get? new = none
  only : ∀ {j : Kind} {h : Handle j} {r : Record K j}, j ≠ .request → s'.get? h = some r →
    s.get? h = none → h.any = new.any

namespace Adds

theorem of_get? (adds : Adds new s s')
    (same : ∀ (j : Kind) (h : Handle j), s''.get? h = s'.get? h) : Adds new s s'' where
  thins := .trans (.of_get? fun j h => (same j h).symm) adds.thins
  fresh := adds.fresh
  only {j h _} plain live lost := adds.only plain ((same j h).symm.trans live) lost

/-- What is read first is not changed. -/
theorem after_get? (same : ∀ (j : Kind) (h : Handle j), s'.get? h = s.get? h)
    (adds : Adds new s' s'') : Adds new s s'' where
  thins := adds.thins.trans (.of_get? fun j h => (same j h).symm)
  fresh := (same k new).symm.trans adds.fresh
  only {j h _} plain live lost := adds.only plain live ((same j h).trans lost)

/-- A deletion that takes the new record leads back. -/
theorem sheds (adds : Adds new s s') {d : Deletion} (taken : d.Takes s' new) : Sheds d s' s where
  toThins := adds.thins
  only {j h _} plain live lost := by
    have same := adds.only plain live lost
    cases h
    cases new
    simp only [Handle.any, AnyHandle.mk.injEq] at same
    obtain ⟨rfl, rfl⟩ := same
    exact taken

end Adds

/-- Where no flow is moved, requests stay. -/
theorem Rearranged.request?_of_unmoved {moved : List FlowId} (linked : s.Linked)
    (rearranged : Rearranged moved s s')
    (unmoved : ∀ {i f}, s.flow? i = some f → s'.flow? i = some f) {r : RequestId} {b : Booking K}
    (live : s.request? r = some b) : s'.request? r = some b := by
  obtain ⟨_, id, f, _, found, requested⟩ := linked.owned live
  have outside : id ∉ moved := by
    intro inside
    obtain ⟨g, old, _, new, b', live', requested', _, now, found', _, _, _, _, gone⟩ :=
      rearranged.moved inside
    have same : g = { g with request := some new } :=
      Option.some.inj ((unmoved live').symm.trans now)
    rw [same] at requested'
    cases requested'
    exact nomatch found'.symm.trans gone
  exact ((rearranged.kept outside found).2 requested).trans live

end Store

namespace Transaction
open Store
variable {t u : Transaction K} {k : Kind}

theorem adds_insert (numbered : t.store.Numbered) (r : Record K k) :
    Adds (t.insert r).1 t.store (t.insert r).2.store where
  thins := .of_kept fun {j i _} live => by
    by_cases same : j = k
    · subst same
      exact get?_insert_of_live numbered r live
    · exact (t.get?_insert_of_ne r i same).trans live
  fresh := numbered k _ (Nat.le_refl _)
  only {j i _} _ live lost := by
    by_cases same : j = k
    · subst same
      rw [t.get?_insert] at live
      split at live
      · rename_i itself
        rw [itself]
      · exact nomatch live.symm.trans lost
    · rw [t.get?_insert_of_ne r i same] at live
      exact nomatch live.symm.trans lost

/-- A tenant takes a machine on its list. -/
theorem adds_enlist {s : Store K} {new : Handle k} (adds : Adds new s t.store) (tenant : TenantId)
    (vm : VmId) : Adds new s (t.update tenant (Tenant.addVm vm)).store := by
  have looked : ∀ i, (t.update tenant (Tenant.addVm vm)).store.tenant? i =
      if tenant = i then (t.store.tenant? i).map (Tenant.addVm vm) else t.store.tenant? i :=
    fun i => t.get?_update (k := .tenant) tenant i _
  have others := fun {j : Kind} (i : Handle j) => t.get?_update_of_ne tenant (Tenant.addVm vm) i
  have thins : Thins (t.update tenant (Tenant.addVm vm)).store t.store := by
    refine .of_tenants (fun _ h other => (others h other).symm) fun {i r} live => ?_
    have looked := looked i
    rw [live] at looked
    split at looked
    · exact ⟨r.addVm vm, r.vms, looked, sublist_enlist vm r.vms, rfl⟩
    · exact ⟨r, r.vms, looked, .refl _, rfl⟩
  refine ⟨thins.trans adds.thins, adds.fresh, fun {j i r} plain live lost => ?_⟩
  have before : ∃ r, t.store.get? i = some r := by
    by_cases named : j = .tenant
    · subst named
      have live : (t.update tenant (Tenant.addVm vm)).store.tenant? i = some r := live
      rw [looked] at live
      split at live
      · obtain ⟨r, before, _⟩ := Option.map_eq_some_iff.mp live
        exact ⟨r, before⟩
      · exact ⟨r, live⟩
    · exact ⟨r, (others i named).symm.trans live⟩
  obtain ⟨_, before⟩ := before
  exact adds.only plain before lost

theorem adds_addTenant (numbered : t.store.Numbered) {name : String} {id : TenantId}
    (answered : t.addTenant name = (.ok id, u)) : Adds id t.store u.store := by
  have read := fun (k : Kind) (h : Handle k) =>
    get?_anyRead (fun other : Tenant => other.name == name) t (t.store.handles .tenant) h
  have steps := steps_anyRead (fun other : Tenant => other.name == name) t
    (t.store.handles .tenant)
  unfold addTenant at answered
  dsimp only at answered
  split at answered <;> rename_i looked <;> rw [looked] at read steps <;> cases answered
  exact (adds_insert (k := .tenant) (steps.numbered numbered) { name }).after_get? read

/-- A new machine is the tenant's. -/
theorem adds_addVm (numbered : t.store.Numbered) {net : Network K} {tenant : TenantId}
    {name : String} {placement : Placement} {id : VmId}
    (answered : t.addVm net tenant name placement = (.ok id, u)) :
    Adds id t.store u.store ∧ u.store.owner? id = some tenant := by
  unfold addVm at answered
  split at answered
  · cases answered
  · rename_i owner live
    have read := fun (k : Kind) (h : Handle k) =>
      (get?_anyRead (fun other : VirtualMachine => other.name == name) (t.lock tenant) owner.vms
        h).trans (t.get?_lock tenant h)
    have steps := (steps_lock t tenant).quiet_trans
      (steps_anyRead (fun other : VirtualMachine => other.name == name) (t.lock tenant) owner.vms)
    split at answered <;> rename_i w looked <;> rw [looked] at read steps
    · cases answered
    · split at answered
      · cases answered
      · rename_i host _
        cases answered
        have adds := adds_insert (k := .vm) (steps.numbered numbered) { name, tenant, host }
        have stored := w.get?_insert (k := .vm) { name, tenant, host }
          (w.insert (k := .vm) { name, tenant, host }).1
        rw [if_pos rfl] at stored
        refine ⟨(adds_enlist adds tenant _).after_get? read,
          owner?_vm.mpr ⟨{ name, tenant, host }, ?_, rfl⟩⟩
        exact (get?_update_of_ne (j := .vm) _ tenant _ _ nofun).trans stored

end Transaction

namespace Manager
open Store Transaction
variable {R C : Type} {m m' : Manager R C K}

/-- Every flow is as it was: none is moved and none is gone. -/
def KeepsFlows (m m' : Manager R C K) : Prop :=
  ∀ {i f}, m.store.flow? i = some f → m'.store.flow? i = some f

theorem keepsFlows_iff :
    m.KeepsFlows m' ↔ ∀ i ∈ m.store.handles .flow, m'.store.flow? i = m.store.flow? i := by
  constructor
  · intro kept i named
    obtain ⟨f, live⟩ := Option.isSome_iff_exists.mp (mem_handles.mp named)
    exact (kept live).trans live.symm
  · intro same i f live
    exact (same i (mem_handles.mpr (Option.isSome_of_eq_some live))).trans live

instance [DecidableEq K] : Decidable (m.KeepsFlows m') := decidable_of_iff' _ keepsFlows_iff

section attempts
variable [CostModel C K] {α : Type} {body : Transaction K → Except Error α × Transaction K}

theorem attempt_ok {a : α} (answered : m.attempt body = (.ok a, m')) :
    ∃ t, body m.store.begin = (.ok a, t) ∧ ∀ (j : Kind) (h : Handle j),
      m'.store.get? h = t.store.get? h := by
  unfold attempt at answered
  split at answered <;> rename_i t done <;> cases answered
  exact ⟨t, done, fun _ => get?_unlocked t⟩

theorem attempt_error (linked : m.store.Linked) {e : Error}
    (steps : Steps [] m.store.begin (body m.store.begin).2)
    (answered : m.attempt body = (.error e, m')) : SameRecords m.store m'.store := by
  unfold attempt at answered
  split at answered <;> rename_i t done <;> rw [done] at steps <;> cases answered
  exact (steps.follows_rollback linked.numbered linked.mirrored).2

theorem adds_createTenant (linked : m.store.Linked) {name : String} {id : TenantId}
    (answered : m.createTenant name = (.ok id, m')) : Adds id m.store m'.store := by
  unfold createTenant at answered
  split at answered
  · cases answered
  · obtain ⟨t, added, same⟩ := attempt_ok answered
    exact (adds_addTenant (t := m.store.begin) linked.numbered added).of_get? same

theorem adds_createVm (linked : m.store.Linked) {tenant : TenantId} {name : String}
    {placement : Placement} {id : VmId}
    (answered : m.createVm tenant name placement = (.ok id, m')) :
    Adds id m.store m'.store ∧ m'.store.owner? id = some tenant := by
  unfold createVm at answered
  split at answered
  · cases answered
  · split at answered
    · cases answered
    · obtain ⟨t, added, same⟩ := attempt_ok answered
      obtain ⟨adds, owned⟩ := adds_addVm (t := m.store.begin) linked.numbered added
      obtain ⟨vm, found, its_tenant⟩ := owner?_vm.mp owned
      exact ⟨adds.of_get? same, owner?_vm.mpr ⟨vm, (same .vm id).trans found, its_tenant⟩⟩

/-- A machine that is refused is not there. -/
theorem sameRecords_createVm (linked : m.store.Linked) {tenant : TenantId} {name : String}
    {placement : Placement} {e : Error}
    (answered : m.createVm tenant name placement = (.error e, m')) :
    SameRecords m.store m'.store := by
  unfold createVm at answered
  split at answered
  · cases answered
    exact .refl _
  · split at answered
    · cases answered
      exact .refl _
    · exact attempt_error linked (steps_addVm m.network tenant name placement _) answered

end attempts

variable [Quantity K] [CostModel C K] [Router R C K] {d : FlowDemand K}

/-- A flow for which no other was moved is all that is new. -/
theorem adds_createFlow (reachable : m.Reachable) {id : FlowId}
    (answered : m.createFlow d = (.ok id, m')) (kept : m.KeepsFlows m') :
    Adds id m.store m'.store := by
  have frame := frame_createFlow reachable d
  rw [answered] at frame
  obtain ⟨flow, unused, _, rearranged, others, tenants, vms, _⟩ := frame
  refine ⟨⟨fun {t r} live => ?_, fun {v vm} live => ?_, kept, fun live => ?_⟩, unused, ?_⟩
  · exact ⟨r, r.vms, (tenants t).trans live, .refl _, rfl⟩
  · have looked := vms v
    rw [live] at looked
    split at looked
    · exact ⟨vm.addFlow id, vm.flows, looked, sublist_enlist id vm.flows, rfl⟩
    · exact ⟨vm, vm.flows, looked, .refl _, rfl⟩
  · exact rearranged.request?_of_unmoved reachable.sound.linked kept live
  · intro j h r plain live lost
    cases j with
    | request => exact absurd rfl plain
    | tenant => exact absurd (tenants h).symm (ne_of_lost live lost)
    | vm =>
      have looked := vms h
      rw [show m.store.vm? h = none from lost, show m'.store.vm? h = some r from live] at looked
      split at looked <;> cases looked
    | flow =>
      by_contra other
      have missing := others h (fun same => other (congrArg Handle.any same)) lost
      exact nomatch live.symm.trans missing

/-- A call that fails and moves no flow leaves the records behind it. -/
theorem sheds_createFlow_error (reachable : m.Reachable) {e : Error} (x : Deletion)
    (answered : m.createFlow d = (.error e, m')) (kept : m.KeepsFlows m') :
    Sheds x m'.store m.store := by
  have admission := admission_createFlow reachable.sound.linked reachable.sound.owned d
  rw [answered] at admission
  cases admission with
  | refused plain follows same => exact .of_get? fun j h => (same.records j h).symm
  | blocked searched =>
    have rerouted := searched.rerouted
    refine ⟨⟨fun live => ?_, fun live => ?_, kept, fun live => ?_⟩,
      fun {j h r} plain live lost => ?_⟩
    · exact ⟨_, _, (rerouted.tenants _).trans live, .refl _, rfl⟩
    · exact ⟨_, _, (rerouted.vms _).trans live, .refl _, rfl⟩
    · exact rerouted.request?_of_unmoved reachable.sound.linked kept live
    · cases j with
      | request => exact absurd rfl plain
      | tenant => exact absurd (rerouted.tenants h).symm (ne_of_lost live lost)
      | vm => exact absurd (rerouted.vms h).symm (ne_of_lost live lost)
      | flow => exact nomatch live.symm.trans (rerouted.flows h lost)

end Manager

namespace Deletion
open Manager Store
variable {R C : Type} [Quantity K] [CostModel C K] [Router R C K] {m : Manager R C K}
  {x : Deletion}

/-- Calls that create something which the deletion would take, or fail, and move no flow: flows at
the machine, and machines of the tenant and flows between them. -/
def Covers (m : Manager R C K) : Deletion → Operation K → Prop
  | .vm v, .createFlow d =>
    (d.source = v ∨ d.destination = v) ∧ m.KeepsFlows (m.createFlow d).2
  | .tenant t, .createVm owner _ _ => owner = t
  | .tenant t, .createFlow d => m.store.owner? d.source = some t ∧ m.KeepsFlows (m.createFlow d).2
  | _, _ => False

/-- The same of calls one after the other. -/
def CoversAll (x : Deletion) (m : Manager R C K) : List (Operation K) → Prop
  | [] => True
  | operation :: rest => x.Covers m operation ∧ x.CoversAll (operation.run m).2 rest

/-- A new flow is taken with either of its machines, and with the tenant of its source. -/
theorem takes_createFlow (reachable : m.Reachable) {d : FlowDemand K} {id : FlowId}
    {m' : Manager R C K} (answered : m.createFlow d = (.ok id, m'))
    (thins : Thins m'.store m.store) (covers : x.Covers m (.createFlow d)) :
    x.Takes m'.store id := by
  obtain ⟨_, _, _, ⟨request, record, stored⟩, _⟩ :=
    admits_createFlow reachable.sound.linked answered
  cases x with
  | flow => exact covers.elim
  | vm v => exact ⟨d.toFlow request record, stored, covers.1⟩
  | tenant t =>
    have owned : m'.store.owner? d.source = some t :=
      Takes.of_thins (d := .tenant t) (k := .vm) thins covers.1
    obtain ⟨vm, source, its_tenant⟩ := owner?_vm.mp owned
    exact owner?_flow.mpr ⟨d.toFlow request record, vm, stored, source, its_tenant⟩

/-- What a covered call adds is taken by the deletion. -/
theorem sheds_run (reachable : m.Reachable) {operation : Operation K}
    (covers : x.Covers m operation) : Sheds x (operation.run m).2.store m.store := by
  have linked := reachable.sound.linked
  cases operation with
  | createVm tenant name placement =>
    cases x with
    | flow | vm => exact covers.elim
    | tenant t =>
      obtain rfl : tenant = t := covers
      show Sheds _ (m.createVm tenant name placement).2.store m.store
      rcases answered : m.createVm tenant name placement with ⟨_ | id, m'⟩
      · exact .of_get? fun j h => ((sameRecords_createVm linked answered).records j h).symm
      · obtain ⟨adds, owned⟩ := adds_createVm linked answered
        exact adds.sheds owned
  | createFlow d =>
    have kept : m.KeepsFlows (m.createFlow d).2 := by
      cases x with
      | flow => exact covers.elim
      | vm v => exact covers.2
      | tenant t => exact covers.2
    show Sheds x (m.createFlow d).2.store m.store
    rcases answered : m.createFlow d with ⟨_ | id, m'⟩ <;> rw [answered] at kept
    · exact sheds_createFlow_error reachable x answered kept
    · have adds := adds_createFlow reachable answered kept
      exact adds.sheds (takes_createFlow reachable answered adds.thins covers)
  | _ => cases x <;> exact covers.elim

theorem sheds_runAll (reachable : m.Reachable) {operations : List (Operation K)}
    (covers : x.CoversAll m operations) :
    Sheds x (Operation.runAll m operations).store m.store := by
  induction operations generalizing m with
  | nil => exact .of_get? fun _ _ => rfl
  | cons operation rest ih =>
    exact (ih (reachable.run operation) covers.2).trans (sheds_run reachable covers.1)

end Deletion

namespace Embedder
open Store Transaction
variable {R : Type} [Quantity K] {start : Store K}

/-- The ledger is accounted for and has no idle entries, the locks are as they were at the start,
and no number has been given out twice. -/
structure Sequel (start : Store K) (x : Embedder R (TokenBucket K) K) : Prop where
  accounted : x.Accounted
  tidy : x.costs.Tidy
  follows : Follows start x.store

namespace Sequel

theorem here {x : Embedder R (TokenBucket K) K} (sequel : x.Sequel start) : x.Sequel x.store :=
  ⟨sequel.accounted, sequel.tidy, .refl sequel.follows.numbered sequel.follows.mirrored⟩

variable [Router R (TokenBucket K) K]

theorem stable (start : Store K) (net : Network K) :
    Stable net (Sequel start : Embedder R (TokenBucket K) K → Prop) where
  commit {x t} sequel steps := by
    obtain ⟨accounted, tidy, follows⟩ := sequel
    have after := steps.follows_commit follows.numbered follows.mirrored
    exact ⟨accounted.commit_quiet steps net, tidy.giveBack net _, follows.trans after⟩
  rollback {x t} sequel steps := by
    obtain ⟨accounted, tidy, follows⟩ := sequel
    have after := (steps.follows_rollback follows.numbered follows.mirrored).1
    exact ⟨accounted.rollback steps _, tidy, follows.trans after⟩
  embed {x} penalized {request} replaces sequel measured := by
    obtain ⟨accounted, tidy, follows⟩ := sequel
    refine ⟨accounted.embed net penalized measured replaces, ?_, ?_⟩
    · rcases x.embed_cases net penalized request replaces with
        ⟨router, undone⟩ | ⟨router, path, costs, _, registered, kept⟩
      · rw [undone]
        exact tidy
      · rw [kept]
        exact (tidy.register registered).giveBack net _
    · rcases answered : x.embed net penalized request replaces with ⟨_ | id, y⟩
      · exact follows.trans (embed_none follows.numbered follows.mirrored answered).1
      · exact follows.trans (embed_some follows.numbered follows.mirrored answered).1
  measured sequel routed := sequel.accounted.measured_routed routed

theorem runAll {m : Manager R (TokenBucket K) K} (sequel : m.toEmbedder.Sequel start)
    (operations : List (Operation K)) :
    (Operation.runAll m operations).toEmbedder.Sequel start := by
  induction operations generalizing m with
  | nil => exact sequel
  | cons operation rest ih => exact ih ((stable start m.network).run sequel operation)

end Sequel
end Embedder

namespace Manager
open Store Transaction
variable {R C : Type} {m m' : Manager R C K}

/-- The same state but for the numbers that were given out in between and the router, which may
remember what it was asked. -/
structure Restored (m m' : Manager R C K) : Prop where
  records : SameRecords m.store m'.store
  locks : m'.store.locks = m.store.locks
  next_le : ∀ k, (m.store.roster k).next ≤ (m'.store.roster k).next
  costs : m'.costs = m.costs
  surroundings : m'.surroundings = m.surroundings

section calls
variable [Quantity K] [CostModel C K] [Router R C K]

/-- What is created under a deletion leaves the topology alone. -/
theorem surroundings_runAll {x : Deletion} {operations : List (Operation K)}
    (covers : x.CoversAll m operations) :
    (Operation.runAll m operations).surroundings = m.surroundings := by
  induction operations generalizing m with
  | nil => rfl
  | cons operation rest ih =>
    refine (ih covers.2).trans (surroundings_run m operation ?_)
    rintro calls rfl
    have extends_topology := covers.1
    cases x <;> exact extends_topology

end calls

variable {R : Type} [Quantity K] [Router R (TokenBucket K) K] {m m' : Manager R (TokenBucket K) K}
  {configuration : Option Rerouting.Configuration}

theorem ReachableFrom.sequel
    (reached : m.ReachableFrom (TokenBucket.empty : TokenBucket K) configuration) :
    m.toEmbedder.Sequel m.store := by
  induction reached with
  | start id calls router =>
    exact ⟨Operation.accounted_start _ router configuration, .nothing,
      .refl numbered_empty mirrored_empty⟩
  | @run m _ operation ih =>
    exact ((Embedder.Sequel.stable m.store m.network).run ih operation).here
  | rebuild _ _ _ ih => exact ih

/-- A deletion that takes whatever some calls have added restores the state before them. -/
theorem restored_of_sheds [Exact K]
    (reached : m.ReachableFrom (TokenBucket.empty : TokenBucket K) configuration)
    (operations : List (Operation K)) {x : Deletion} (absent : x.Gone m.store)
    (sheds : Sheds x (Operation.runAll m operations).store m.store)
    (settled : (Operation.runAll m operations).surroundings = m.surroundings) :
    m.Restored (x.operation.run (Operation.runAll m operations)).2 := by
  have between := (reached.runAll operations).reachable
  have before : Clears x (Operation.runAll m operations).store m.store :=
    ⟨sheds, reached.reachable.sound.linked, reached.reachable.registered, absent⟩
  have records : SameRecords m.store (x.operation.run (Operation.runAll m operations)).2.store :=
    before.sameRecords between.registered (x.clears_run between)
  have stable := Embedder.Sequel.stable (R := R) m.store (Operation.runAll m operations).network
  have after := stable.run (reached.sequel.runAll operations) x.operation
  have balanced := after.accounted.balanced
  rw [records.outstanding] at balanced
  refine ⟨records, after.follows.locks, after.follows.next_le, ?_, ?_⟩
  · exact after.tidy.eq_of_reservation reached.sequel.tidy
      (balanced.unique reached.accounted.balanced reached.accounted.measured)
  · refine (surroundings_run _ x.operation fun calls => ?_).trans settled
    cases x <;> exact nofun

/-- A record is created, more is created beneath it, and it is deleted. -/
theorem restored_of_adds [Exact K]
    (reached : m.ReachableFrom (TokenBucket.empty : TokenBucket K) configuration)
    (creation : Operation K) (rest : List (Operation K)) (x : Deletion) {k : Kind} {new : Handle k}
    (adds : Adds new m.store (creation.run m).2.store) (absent : x.Gone m.store)
    (taken : x.Takes (creation.run m).2.store new)
    (settled : ∀ calls, creation ≠ .extendTopology calls)
    (covers : x.CoversAll (creation.run m).2 rest) :
    m.Restored (x.operation.run (Operation.runAll (creation.run m).2 rest)).2 := by
  have later := Deletion.sheds_runAll (reached.run creation).reachable covers
  exact restored_of_sheds reached (creation :: rest) absent
    (later.trans (adds.sheds taken))
    ((surroundings_runAll covers).trans (surroundings_run m creation settled))

/-- In every state of a manager, a flow that is created without moving another and then deleted
leaves no trace but the numbers that were given out. So does a machine with all flows that are
created at it, and a tenant with all machines and flows that are created within it, as long as no
flow is moved. Records, the order of all lists, crossings, locks and reservations are as they
were. -/
theorem deletion_undoes_creation [Exact K]
    (reached : m.ReachableFrom (TokenBucket.empty : TokenBucket K) configuration) :
    (∀ d id m', m.createFlow d = (.ok id, m') → m.KeepsFlows m' → m.Restored (m'.deleteFlow id)) ∧
    (∀ tenant name placement id m' operations,
      m.createVm tenant name placement = (.ok id, m') →
      (Deletion.vm id).CoversAll m' operations →
      m.Restored ((Operation.runAll m' operations).deleteVm id)) ∧
    ∀ name id m' operations, m.createTenant name = (.ok id, m') →
      (Deletion.tenant id).CoversAll m' operations →
      m.Restored ((Operation.runAll m' operations).deleteTenant id) := by
  have linked := reached.reachable.sound.linked
  refine ⟨fun d id m' answered kept => ?_, fun tenant name placement id m' operations answered
    covers => ?_, fun name id m' operations answered covers => ?_⟩
  · obtain rfl : (m.createFlow d).2 = m' := congrArg Prod.snd answered
    have adds := adds_createFlow reached.reachable answered kept
    exact restored_of_adds reached (.createFlow d) [] (.flow id) adds adds.fresh rfl nofun trivial
  · obtain rfl : (m.createVm tenant name placement).2 = m' := congrArg Prod.snd answered
    have adds := (adds_createVm linked answered).1
    exact restored_of_adds reached (.createVm tenant name placement) operations (.vm id) adds
      adds.fresh rfl nofun covers
  · obtain rfl : (m.createTenant name).2 = m' := congrArg Prod.snd answered
    have adds := adds_createTenant linked answered
    exact restored_of_adds reached (.createTenant name) operations (.tenant id) adds adds.fresh rfl
      nofun covers

/-- Two hosts with two links, and a flow on the first link. The router will offer the second link
to the next request. -/
def roomyManager : Manager Scripted (TokenBucket ℚ) ℚ :=
  Operation.runAll
    (.start
      (BuildingCall.runAll (.empty 0)
        [.host "left", .host "right", .simpleLink 0 1 1000, .simpleLink 0 1 1000])
      ⟨[some [3], some [5]]⟩ .empty none)
    [.createTenant "tenant", .createVm ⟨0⟩ "a" (.on ⟨0, 0⟩), .createVm ⟨0⟩ "b" (.on ⟨0, 1⟩),
      .createFlow (sampleDemand "first" 1)]

/-- A second flow, a machine with a flow to an old one, and a tenant with two machines and a flow
between them. -/
theorem deletion_undoes_creation_roomyManager :
    let between := fun source destination : VmId =>
      { sampleDemand "second" 2 with source, destination }
    let to_old : List (Operation ℚ) := [.createFlow (between ⟨2⟩ ⟨1⟩)]
    let inside : List (Operation ℚ) := [.createVm ⟨1⟩ "c" (.on ⟨0, 0⟩),
      .createVm ⟨1⟩ "d" (.on ⟨0, 1⟩), .createFlow (between ⟨2⟩ ⟨3⟩)]
    let flow := (roomyManager.createFlow (between ⟨0⟩ ⟨1⟩)).2
    let machine := Operation.runAll (roomyManager.createVm ⟨0⟩ "c" (.on ⟨0, 0⟩)).2 to_old
    let tenant := Operation.runAll (roomyManager.createTenant "other").2 inside
    (∀ m ∈ [flow, machine, tenant], m.flowPath? ⟨1⟩ = some [5]) ∧
      roomyManager.Restored (flow.deleteFlow ⟨1⟩) ∧
      roomyManager.Restored (machine.deleteVm ⟨2⟩) ∧
      roomyManager.Restored (tenant.deleteTenant ⟨1⟩) := by
  intro between to_old inside flow machine tenant
  have reached : roomyManager.ReachableFrom (.empty : TokenBucket ℚ) none :=
    (ReachableFrom.start 0 _ _).runAll _
  obtain ⟨flows, machines, tenants⟩ := deletion_undoes_creation reached
  refine ⟨by decide +kernel, flows (between ⟨0⟩ ⟨1⟩) ⟨1⟩ _ ?_ ?_,
    machines ⟨0⟩ "c" (.on ⟨0, 0⟩) ⟨2⟩ _ to_old ?_ ⟨⟨.inl rfl, ?_⟩, trivial⟩,
    tenants "other" ⟨1⟩ _ inside ?_ ⟨rfl, rfl, ⟨?_, ?_⟩, trivial⟩⟩
  · exact Prod.ext (by decide +kernel) rfl
  · decide +kernel
  · exact Prod.ext (by decide +kernel) rfl
  · decide +kernel
  · exact Prod.ext (by decide +kernel) rfl
  · decide +kernel
  · decide +kernel

end Manager
end FlowAdmission
