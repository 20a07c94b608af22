import Mathlib.Data.List.Dedup
import FlowAdmission.Proofs.Manager.Accounting
import FlowAdmission.Proofs.Manager.Pruning

/-!
# Deleting a tenant at once or in pieces

A tenant may be deleted by one call, or flow by flow and machine by machine before it goes itself.
Both ways leave the same store and the same reservations, and both give back the path of every flow
of the tenant once (`Manager.deleteTenant_in_pieces`).

Deletions within one tenant prune the store (`Deletion.prunes_runAll`), which settles the store that
they end in as soon as the tenant is gone. What they release is settled by it, too: a path is either
released or still held (`Deletion.perm_released`).
-/
namespace FlowAdmission
variable {K : Type}

/-- The path that a flow holds, with the request that it is held for. -/
def Store.heldBy? (s : Store K) (flow : FlowId) : Option (Path × Request K) := do
  let record ← s.flow? flow
  let booking ← s.request? (← record.request)
  booking.held?

theorem Store.heldBy?_congr {s s' : Store K} {flow : FlowId}
    (same : s'.flow? flow = s.flow? flow)
    (requests : ∀ {f r}, s.flow? flow = some f → f.request = some r →
      s'.request? r = s.request? r) : s'.heldBy? flow = s.heldBy? flow := by
  unfold heldBy?
  rw [same]
  cases live : s.flow? flow with
  | none => rfl
  | some record =>
    cases requested : record.request with
    | none => simp [requested]
    | some request => simp [requested, requests live requested]

namespace Transaction
variable (t : Transaction K)

theorem released_detach (id : RequestId) :
    (t.detach id).released =
      t.released ++ ((t.store.request? id).bind Booking.held?).toList := by
  unfold detach
  cases t.store.request? id with
  | none => simp
  | some booking => cases held : booking.path <;> simp [held, log, Booking.held?]

theorem released_removeFlow (flow : FlowId) :
    (t.removeFlow flow).released = t.released ++ (t.store.heldBy? flow).toList := by
  unfold removeFlow Store.heldBy?
  cases t.store.flow? flow with
  | none => simp
  | some record =>
    cases requested : record.request with
    | none => simp [requested]
    | some request =>
      simp [requested, released_detach, Store.request?, get?_update_of_ne]

variable {t}

/-- The paths of the other flows stay with them. -/
theorem heldBy?_removeFlow (linked : t.store.Linked) {flow i : FlowId} (other : flow ≠ i) :
    (t.removeFlow flow).store.heldBy? i = t.store.heldBy? i := by
  refine Store.heldBy?_congr ((t.flow?_removeFlow flow i).trans (if_neg other)) ?_
  intro f r live requested
  cases found : t.store.flow? flow with
  | none => rw [t.removeFlow_of_none found]
  | some record =>
    rw [t.request?_removeFlow found, if_neg]
    intro shared
    exact other (linked.flow_unique found shared live requested)

/-- Each flow releases the path that it holds, if it holds one. -/
theorem released_removeFlows (linked : t.store.Linked) {flows : List FlowId}
    (distinct : flows.Nodup) :
    (flows.foldl removeFlow t).released = t.released ++ flows.filterMap t.store.heldBy? := by
  induction flows generalizing t with
  | nil => simp
  | cons flow rest ih =>
    obtain ⟨absent, distinct⟩ := List.nodup_cons.mp distinct
    have others : rest.filterMap (t.removeFlow flow).store.heldBy? =
        rest.filterMap t.store.heldBy? := by
      refine List.filterMap_congr fun i later => heldBy?_removeFlow linked ?_
      rintro rfl
      exact absent later
    rw [List.foldl_cons, ih (linked.removeFlow flow) distinct, others, released_removeFlow,
      List.append_assoc]
    cases held : t.store.heldBy? flow <;> simp [held]

/-- A tenant may lose a machine, but not its name. -/
theorem names_removeVm (t : Transaction K) (vm : VmId) (i : TenantId) :
    ((t.removeVm vm).store.tenant? i).map (·.name) = (t.store.tenant? i).map (·.name) := by
  unfold removeVm
  cases t.store.vm? vm with
  | none => rfl
  | some record =>
    have before : (record.flows.foldl removeFlow (t.lock vm)).store.tenant? i = t.store.tenant? i :=
      (tenant?_removeFlows (t.lock vm) record.flows i).trans (t.get?_lock vm i)
    rw [← before]
    simp only [Store.tenant?, get?_remove_of_ne, ne_eq, reduceCtorEq, not_false_eq_true,
      get?_update]
    split
    · rw [Option.map_map]
      rfl
    · rfl

theorem vm?_removeVm_self (t : Transaction K) (vm : VmId) :
    (t.removeVm vm).store.vm? vm = none := by
  unfold removeVm
  cases found : t.store.vm? vm with
  | none => exact found
  | some record => exact (get?_remove _ vm vm nofun).trans (if_pos rfl)

theorem tenant?_removeTenant_self (t : Transaction K) (tenant : TenantId) :
    (t.removeTenant tenant).store.tenant? tenant = none := by
  unfold removeTenant
  cases found : t.store.tenant? tenant with
  | none => exact found
  | some record => exact (get?_remove _ tenant tenant nofun).trans (if_pos rfl)

theorem nodup_flowsAt (s : Store K) (vms : List VmId) : (flowsAt s vms).Nodup := nodup_toList _

theorem released_foldl {α : Type} {step : Transaction K → α → Transaction K}
    (quiet : ∀ t a, (step t a).released = t.released) (t : Transaction K) (xs : List α) :
    (xs.foldl step t).released = t.released := by
  induction xs generalizing t with
  | nil => rfl
  | cons a rest ih => exact (ih _).trans (quiet t a)

/-- With a tenant each path of its flows is released once, in the order of the flows. -/
theorem released_removeTenant (linked : t.store.Linked) {tenant : TenantId} {record : Tenant}
    (live : t.store.tenant? tenant = some record) :
    (t.removeTenant tenant).released =
      t.released ++ (flowsAt t.store record.vms).filterMap t.store.heldBy? := by
  have quiet := released_foldl (fun t h => t.released_lock h) (t.lock tenant) record.vms
  have same := fun {j : Kind} (h : Handle j) =>
    (get?_locks (t.lock tenant) record.vms h).trans (t.get?_lock tenant h)
  have linked := (linked.locked tenant).lockedAll record.vms
  rw [released_lock] at quiet
  simp only [removeTenant, live]
  generalize record.vms.foldl lock (t.lock tenant) = u at quiet same linked ⊢
  have flows : flowsAt u.store record.vms = flowsAt t.store record.vms := by
    simp only [flowsAt, Store.vm?, same]
  have held : u.store.heldBy? = t.store.heldBy? :=
    funext fun flow => Store.heldBy?_congr (same flow) fun _ _ => same _
  rw [released_remove, released_foldl fun t (vm : VmId) => t.released_remove vm, flows,
    released_removeFlows linked (nodup_flowsAt _ _), quiet, held]

end Transaction

/-- What may be deleted. -/
inductive Deletion where
  | flow (id : FlowId)
  | vm (id : VmId)
  | tenant (id : TenantId)

namespace Deletion
open Store Transaction

def operation : Deletion → Operation K
  | flow id => .deleteFlow id
  | vm id => .deleteVm id
  | tenant id => .deleteTenant id

/-- The body of the deletion's transaction. -/
def body (t : Transaction K) : Deletion → Transaction K
  | flow id => t.removeFlow id
  | vm id => t.removeVm id
  | tenant id => t.removeTenant id

/-- What is deleted belongs to the tenant, if it is there. -/
def Within (s : Store K) (owner : TenantId) : Deletion → Prop
  | flow id => s.Within owner id
  | vm id => s.Within owner id
  | tenant id => s.Within owner id

theorem steps_body (t : Transaction K) (d : Deletion) : Steps [] t (d.body t) := by
  cases d with
  | flow id => exact steps_removeFlow t id
  | vm id => exact steps_removeVm t id
  | tenant id => exact steps_removeTenant t id

theorem prunes_body {t : Transaction K} (linked : t.store.Linked)
    (registered : t.store.Registered) {owner : TenantId} {d : Deletion}
    (within : d.Within t.store owner) : Prunes owner t.store (d.body t).store := by
  cases d with
  | flow id => exact .removeFlow linked registered within
  | vm id => exact .removeVm linked registered within
  | tenant id =>
    obtain rfl : id = owner := within _ rfl
    exact .removeTenant linked registered id

theorem within_self (s : Store K) (owner : TenantId) : (tenant owner).Within s owner :=
  fun _ owned => (Option.some.inj owned).symm

theorem Within.of_prunes {s s' : Store K} {owner : TenantId} {d : Deletion}
    (within : d.Within s owner) (prunes : Prunes owner s s') : d.Within s' owner := by
  cases d <;> exact prunes.within within

variable {R C : Type} [Quantity K] [CostModel C K] [Router R C K]

def runAll (m : Manager R C K) (deletions : List Deletion) : Manager R C K :=
  Operation.runAll m (deletions.map operation)

/-- The paths that the deletions hand out to be given back, one call after the other. -/
def released (m : Manager R C K) : List Deletion → List (Path × Request K)
  | [] => []
  | d :: rest => (d.body m.store.begin).released ++ released (d.operation.run m).2 rest

theorem store_run (m : Manager R C K) (d : Deletion) :
    (d.operation.run m).2.store = (d.body m.store.begin).unlocked := by
  cases d <;> rfl

/-- What is handed out is given back to the cost model, in this order. -/
theorem costs_runAll (m : Manager R C K) (deletions : List Deletion) :
    (runAll m deletions).costs =
      CostModel.giveBack m.costs m.network (released m deletions) := by
  induction deletions generalizing m with
  | nil => rfl
  | cons d rest ih =>
    have first : (d.operation.run m).2.costs =
        CostModel.giveBack m.costs m.network (d.body m.store.begin).released := by
      cases d <;> rfl
    have network : (d.operation.run m).2.network = m.network := by
      cases d <;> rfl
    refine (ih _).trans ?_
    rw [first, network]
    simp [released, CostModel.giveBack, List.foldl_append]

theorem runAll_append (m : Manager R C K) (first second : List Deletion) :
    runAll m (first ++ second) = runAll (runAll m first) second := by
  simp [runAll, Operation.runAll]

variable {m : Manager R C K} {owner : TenantId}

theorem prunes_run (reachable : m.Reachable) {d : Deletion} (within : d.Within m.store owner) :
    Prunes owner m.store (d.operation.run m).2.store := by
  rw [store_run]
  have pruned := prunes_body (t := m.store.begin) reachable.sound.linked reachable.registered within
  exact pruned.trans (.unlocked _)

theorem within_run (reachable : m.Reachable) {d : Deletion} {rest : List Deletion}
    (within : ∀ d' ∈ d :: rest, d'.Within m.store owner) :
    ∀ d' ∈ rest, d'.Within (d.operation.run m).2.store owner := fun d' later =>
  (within d' (List.mem_cons_of_mem _ later)).of_prunes
    (prunes_run reachable (within d List.mem_cons_self))

theorem prunes_runAll (reachable : m.Reachable) {deletions : List Deletion}
    (within : ∀ d ∈ deletions, d.Within m.store owner) :
    Prunes owner m.store (runAll m deletions).store := by
  induction deletions generalizing m with
  | nil => exact .refl owner _
  | cons d rest ih =>
    have first := prunes_run reachable (within d List.mem_cons_self)
    exact first.trans (ih (reachable.run d.operation) (within_run reachable within))

theorem locks_runAll (reachable : m.Reachable) (deletions : List Deletion) :
    (runAll m deletions).store.locks = m.store.locks := by
  induction deletions generalizing m with
  | nil => rfl
  | cons d rest ih =>
    refine (ih (reachable.run d.operation)).trans ?_
    rw [store_run]
    exact locks_unlocked ((steps_body _ d).holds (holds_begin m.store))

/-- Every path that was held is released or still held, and no path is both or twice. -/
theorem perm_released (reachable : m.Reachable) (deletions : List Deletion) :
    (released m deletions ++ (runAll m deletions).store.outstanding).Perm m.store.outstanding := by
  induction deletions generalizing m with
  | nil => exact .refl _
  | cons d rest ih =>
    have first := (steps_body m.store.begin d).perm_begin reachable.sound.linked.numbered
    have later := ih (reachable.run d.operation)
    rw [store_run, outstanding_unlocked] at later
    rw [released, List.append_assoc]
    exact (later.append_left _).trans first

/-- Tenants keep their names while others are deleted. -/
theorem names_runAll {deletions : List Deletion} (kept : ∀ i, .tenant i ∉ deletions)
    (i : TenantId) : ((runAll m deletions).store.tenant? i).map (·.name) =
      (m.store.tenant? i).map (·.name) := by
  induction deletions generalizing m with
  | nil => rfl
  | cons d rest ih =>
    refine (ih fun j later => kept j (List.mem_cons_of_mem _ later)).trans ?_
    rw [store_run, tenant?, get?_unlocked]
    cases d with
    | flow id => exact congrArg _ (tenant?_removeFlow _ id i)
    | vm id => exact names_removeVm _ id i
    | tenant id => exact absurd List.mem_cons_self (kept id)

/-- A deleted machine is gone and stays so. -/
theorem vm?_runAll (reachable : m.Reachable) {deletions : List Deletion}
    (within : ∀ d ∈ deletions, d.Within m.store owner) {v : VmId} (deleted : .vm v ∈ deletions) :
    (runAll m deletions).store.vm? v = none := by
  induction deletions generalizing m with
  | nil => cases deleted
  | cons d rest ih =>
    have later := within_run reachable within
    rcases List.mem_cons.mp deleted with rfl | deleted
    · have gone : ((vm v).operation.run m).2.store.vm? v = none := by
        rw [store_run, Store.vm?, get?_unlocked]
        exact vm?_removeVm_self _ v
      have prunes := prunes_runAll (reachable.run (vm v).operation) later
      by_contra left
      obtain ⟨record, found⟩ := Option.ne_none_iff_exists'.mp left
      obtain ⟨before, found, _⟩ := prunes.vms found
      rw [gone] at found
      cases found
    · exact ih (reachable.run d.operation) later deleted

/-- In whatever pieces a tenant is deleted, the same store is left and the same paths are
released. -/
theorem eq_of_gone (reachable : m.Reachable) {first second : List Deletion}
    (within : ∀ d ∈ first, d.Within m.store owner)
    (within' : ∀ d ∈ second, d.Within m.store owner)
    (gone : (runAll m first).store.tenant? owner = none)
    (gone' : (runAll m second).store.tenant? owner = none) :
    (runAll m first).store = (runAll m second).store ∧
      (released m first).Perm (released m second) := by
  have reached : ∀ deletions, (runAll m deletions).Reachable := fun _ => reachable.runAll _
  have same : (runAll m first).store = (runAll m second).store :=
    (prunes_runAll reachable within).eq_of_gone (prunes_runAll reachable within')
      (reached first).sound.linked (reached second).sound.linked (reached first).registered
      (reached second).registered gone gone'
      ((locks_runAll reachable first).trans (locks_runAll reachable second).symm)
  have perm := perm_released reachable first
  rw [same] at perm
  have perm := perm.trans (perm_released reachable second).symm
  exact ⟨same, (List.perm_append_right_iff _).mp perm⟩

/-- The flows and machines of a tenant, one by one. -/
def emptying (flows : List FlowId) (vms : List VmId) : List Deletion :=
  flows.map .flow ++ vms.map .vm

section emptying
variable {tenant : TenantId} {record : Tenant} {flows : List FlowId} {vms : List VmId}

omit [Quantity K] in
theorem within_emptying {s : Store K} (registered : s.Registered)
    (live : s.tenant? tenant = some record)
    (its_flows : ∀ i ∈ flows, ∃ v ∈ record.vms, ∃ vm, s.vm? v = some vm ∧ i ∈ vm.flows)
    (its_vms : ∀ v ∈ vms, v ∈ record.vms) : ∀ d ∈ emptying flows vms, d.Within s tenant := by
  intro d piece
  rcases List.mem_append.mp piece with piece | piece
  · obtain ⟨i, named, rfl⟩ := List.mem_map.mp piece
    obtain ⟨v, owned, vm, found, listed⟩ := its_flows i named
    obtain rfl : vm.tenant = tenant :=
      registered.within_of_owned live owned _ (owner?_vm.mpr ⟨vm, found, rfl⟩)
    exact registered.within_of_listed found listed
  · obtain ⟨v, named, rfl⟩ := List.mem_map.mp piece
    exact registered.within_of_owned live (its_vms v named)

/-- Without its machines a tenant has its name still and lists nothing. -/
theorem tenant?_emptying (reachable : m.Reachable) (live : m.store.tenant? tenant = some record)
    (within : ∀ d ∈ emptying flows vms, d.Within m.store tenant)
    (all_vms : ∀ v ∈ record.vms, v ∈ vms) :
    (runAll m (emptying flows vms)).store.tenant? tenant = some { record with vms := [] } := by
  have kept : ∀ i, .tenant i ∉ emptying flows vms := by simp [emptying]
  have names := names_runAll (m := m) kept tenant
  rw [live, Option.map_some, Option.map_eq_some_iff] at names
  obtain ⟨left, found, name⟩ := names
  have prunes := prunes_runAll reachable within
  have registered : (runAll m (emptying flows vms)).store.Registered :=
    (reachable.runAll _).registered
  have unlisted : left.vms = [] := by
    refine List.eq_nil_iff_forall_not_mem.mpr fun v listed => ?_
    obtain ⟨vm, known, its_tenant⟩ := (registered.machines.mem_iff found).mp listed
    obtain ⟨before, known', same⟩ := prunes.vms known
    have owned : v ∈ record.vms :=
      (reachable.registered.machines.mem_iff live).mpr ⟨before, known', same.trans its_tenant⟩
    have deleted : .vm v ∈ emptying flows vms := by
      simpa [emptying] using all_vms v owned
    rw [vm?_runAll reachable within deleted] at known
    cases known
  cases left
  cases unlisted
  cases name
  exact found

/-- Flows that are met at several machines release their paths once. -/
theorem released_tenant (linked : m.store.Linked) (live : m.store.tenant? tenant = some record)
    (all_flows : ∀ i, i ∈ flows ↔
      ∃ v ∈ record.vms, ∃ vm, m.store.vm? v = some vm ∧ i ∈ vm.flows) :
    (released m [.tenant tenant]).Perm (flows.dedup.filterMap m.store.heldBy?) := by
  have begun : m.store.begin.store.Linked := linked
  have order : (m.store.begin.removeTenant tenant).released =
      (flowsAt m.store record.vms).filterMap m.store.heldBy? := released_removeTenant begun live
  have each_once : (flowsAt m.store record.vms).Perm flows.dedup :=
    (List.perm_ext_iff_of_nodup (nodup_flowsAt _ _) flows.nodup_dedup).mpr fun i => by
      rw [mem_flowsAt, List.mem_dedup, all_flows]
  have perm := each_once.filterMap m.store.heldBy?
  simpa [released, body, order] using perm

end emptying
end Deletion

namespace Manager
open Store Transaction

theorem tenant?_deleteTenant {R C : Type} [CostModel C K] (m : Manager R C K) (tenant : TenantId) :
    (m.deleteTenant tenant).store.tenant? tenant = none :=
  (get?_unlocked _ tenant).trans (tenant?_removeTenant_self m.store.begin tenant)

variable {R : Type} [Quantity K] [Router R (TokenBucket K) K] {m : Manager R (TokenBucket K) K}
  {configuration : Option Rerouting.Configuration}

theorem ReachableFrom.accounted
    (reached : m.ReachableFrom (TokenBucket.empty : TokenBucket K) configuration) :
    m.toEmbedder.Accounted := by
  induction reached with
  | start id calls router => exact Operation.accounted_start _ router configuration
  | @run m _ operation ih =>
    have stable := Embedder.Accounted.stable (R := R) m.network
    exact stable.run ih operation
  | rebuild _ _ _ ih => exact ih

/-- In every state of a manager a tenant may be deleted at once, or in pieces: all flows that its
machines list, in any order, then all its machines, in any order, then the tenant, which lists no
machine any more. In the end the stores are the same, and so is what every queue reserves where
arithmetic is exact. Either way the path of every flow of the tenant is given back once, and the
ledger takes it back. What belongs to the tenant is gone; every other record is as it was. -/
theorem deleteTenant_in_pieces
    (reached : m.ReachableFrom (TokenBucket.empty : TokenBucket K) configuration)
    {tenant : TenantId} {record : Tenant} (live : m.store.tenant? tenant = some record)
    {flows : List FlowId} {vms : List VmId}
    (all_flows : ∀ i, i ∈ flows ↔ ∃ v ∈ record.vms, ∃ vm, m.store.vm? v = some vm ∧ i ∈ vm.flows)
    (all_vms : ∀ v, v ∈ vms ↔ v ∈ record.vms) :
    let emptied := Deletion.runAll m (Deletion.emptying flows vms)
    let pieces := Deletion.emptying flows vms ++ [.tenant tenant]
    emptied.store.tenant? tenant = some { record with vms := [] } ∧
    (emptied.deleteTenant tenant).store = (m.deleteTenant tenant).store ∧
    (∀ [Exact K] (e : EdgeId), (emptied.deleteTenant tenant).costs.reservation e =
      (m.deleteTenant tenant).costs.reservation e) ∧
    ((emptied.deleteTenant tenant).costs =
        CostModel.giveBack m.costs m.network (Deletion.released m pieces) ∧
      (Deletion.released m pieces).Perm (flows.dedup.filterMap m.store.heldBy?) ∧
      (emptied.deleteTenant tenant).refused = []) ∧
    ((m.deleteTenant tenant).costs =
        CostModel.giveBack m.costs m.network (Deletion.released m [.tenant tenant]) ∧
      (Deletion.released m [.tenant tenant]).Perm (flows.dedup.filterMap m.store.heldBy?) ∧
      (m.deleteTenant tenant).refused = []) ∧
    ∀ {k : Kind} (h : Handle k), (m.deleteTenant tenant).store.get? h =
      if m.store.owner? h = some tenant then none else m.store.get? h := by
  have reachable := reached.reachable
  have linked := reachable.sound.linked
  have within_pieces := Deletion.within_emptying reachable.registered live
    (fun i named => (all_flows i).mp named) fun v named => (all_vms v).mp named
  have within_itself : ∀ d ∈ [Deletion.tenant tenant], d.Within m.store tenant :=
    List.forall_mem_singleton.mpr (Deletion.within_self m.store tenant)
  intro emptied pieces
  have within : ∀ d ∈ pieces, d.Within m.store tenant := fun d piece =>
    (List.mem_append.mp piece).elim (within_pieces d) (within_itself d)
  have in_pieces : emptied.deleteTenant tenant = Deletion.runAll m pieces :=
    (Deletion.runAll_append m (Deletion.emptying flows vms) [.tenant tenant]).symm
  have gone := m.tenant?_deleteTenant tenant
  obtain ⟨same, perm⟩ := Deletion.eq_of_gone reachable within within_itself
    (in_pieces ▸ emptied.tenant?_deleteTenant tenant) gone
  have accounted : (emptied.deleteTenant tenant).toEmbedder.Accounted := by
    rw [in_pieces]
    exact (reached.runAll _).accounted
  have accounted' : (m.deleteTenant tenant).toEmbedder.Accounted :=
    (reached.run (.deleteTenant tenant)).accounted
  have at_once := Deletion.released_tenant linked live all_flows
  have same : (emptied.deleteTenant tenant).store = (m.deleteTenant tenant).store :=
    in_pieces ▸ same
  have empty := Deletion.tenant?_emptying reachable live within_pieces
    fun v owned => (all_vms v).mpr owned
  have given_back : (emptied.deleteTenant tenant).costs =
      CostModel.giveBack m.costs m.network (Deletion.released m pieces) := by
    rw [in_pieces]
    exact Deletion.costs_runAll m pieces
  have given_back' := Deletion.costs_runAll m [.tenant tenant]
  refine ⟨empty, same, fun e => ?_, ⟨given_back, perm.trans at_once, accounted.refused⟩,
    ⟨given_back', at_once, accounted'.refused⟩, fun h => ?_⟩
  · have balanced := accounted.balanced
    rw [same] at balanced
    exact balanced.unique accounted'.balanced accounted'.measured e
  · exact (Deletion.prunes_runAll reachable within_itself).get?_of_gone
      (reachable.run (.deleteTenant tenant)).sound.linked
      (reachable.run (.deleteTenant tenant)).registered gone h

/-- Two tenants on the same hosts. The first one has two machines with a flow between them. -/
def sharedManager : Manager Scripted (TokenBucket ℚ) ℚ :=
  Operation.runAll sampleManager [.createTenant "other", .createVm ⟨1⟩ "a" (.on ⟨0, 0⟩)]

/-- The flow is met at both its machines, and its path is released once. The machine of the other
tenant stays. -/
theorem deleteTenant_sharedManager_in_pieces :
    let flows : List FlowId := [⟨0⟩, ⟨0⟩]
    let vms : List VmId := [⟨1⟩, ⟨0⟩]
    let emptied := Deletion.runAll sharedManager (Deletion.emptying flows vms)
    let pieces := Deletion.emptying flows vms ++ [.tenant ⟨0⟩]
    (emptied.deleteTenant ⟨0⟩).store = (sharedManager.deleteTenant ⟨0⟩).store ∧
    ((Deletion.released sharedManager pieces).map (·.1)).Perm [[3]] ∧
    (∀ e : EdgeId, (emptied.deleteTenant ⟨0⟩).costs.reservation e =
      (sharedManager.deleteTenant ⟨0⟩).costs.reservation e) ∧
    ((sharedManager.deleteTenant ⟨0⟩).store.vm? ⟨2⟩).isSome := by
  intro flows vms emptied pieces
  have reached : sharedManager.ReachableFrom (.empty : TokenBucket ℚ)
      (some ⟨.allFlows, .unsorted, .queueLink, .ownPathOnly, .absolute 1, trivial⟩) :=
    ((ReachableFrom.start 0 _ _).runAll _).runAll _
  have live : sharedManager.store.tenant? ⟨0⟩ = some ⟨"tenant", [⟨0⟩, ⟨1⟩]⟩ := by decide +kernel
  have first : (sharedManager.store.vm? ⟨0⟩).map (·.flows) = some [⟨0⟩] := by decide +kernel
  have second : (sharedManager.store.vm? ⟨1⟩).map (·.flows) = some [⟨0⟩] := by decide +kernel
  have other : sharedManager.store.owner? (⟨2⟩ : VmId) = some ⟨1⟩ := by decide +kernel
  have path : (flows.dedup.filterMap sharedManager.store.heldBy?).map (·.1) = [[3]] := by
    decide +kernel
  have all_flows : ∀ i, i ∈ flows ↔ ∃ v ∈ [⟨0⟩, ⟨1⟩], ∃ vm,
      sharedManager.store.vm? v = some vm ∧ i ∈ vm.flows := by
    obtain ⟨v, found, lists⟩ := Option.map_eq_some_iff.mp first
    obtain ⟨w, found', lists'⟩ := Option.map_eq_some_iff.mp second
    simp [flows, found, found', lists, lists']
  have all_vms : ∀ v : VmId, v ∈ vms ↔ v ∈ [⟨0⟩, ⟨1⟩] := by simp [vms, or_comm]
  obtain ⟨_, same, reserved, ⟨_, released, _⟩, _, left⟩ :=
    deleteTenant_in_pieces reached live all_flows all_vms
  refine ⟨same, path ▸ released.map _, reserved, ?_⟩
  have still := left (⟨2⟩ : VmId)
  rw [if_neg (by rw [other]; decide)] at still
  exact (congrArg Option.isSome still).trans (by decide +kernel)

end Manager
end FlowAdmission
