import FlowAdmission.Manager.Operation
import FlowAdmission.Proofs.Store.Rollback

/-!
# The transactions of a manager

Every transaction that a manager runs is a sequence of store operations that attaches no path
(`steps_addFlow`, `steps_removeTenant` and the others). The one exception is the embedding of a
request, which stores the request and attaches its path (`Embedder.embed_cases`).
-/
namespace FlowAdmission
variable {K : Type}

namespace Transaction

theorem steps_lock {k : Kind} (t : Transaction K) (h : Handle k) : Steps [] t (t.lock h) :=
  .single (.lock t h)

theorem steps_insert {k : Kind} (t : Transaction K) (r : Record K k)
    (unrouted : Record.Unrouted k r) : Steps [] t (t.insert r).2 :=
  .single (.insert t r unrouted)

/-- Records other than requests may be changed in any way. -/
theorem steps_update {k : Kind} (t : Transaction K) (h : Handle k)
    (change : Record K k → Record K k) (plain : k ≠ .request) : Steps [] t (t.update h change) := by
  refine .single (.update t h change fun r _ => ?_)
  cases k with
  | request => exact absurd rfl plain
  | _ => trivial

/-- A request may be pointed at a flow. -/
theorem steps_point (t : Transaction K) (request : RequestId) (flow : FlowId) :
    Steps [] t
      (t.update request fun booking : Booking K => { booking with flow := some flow }) :=
  .single (.update t request _ fun _ _ => ⟨rfl, rfl⟩)

theorem steps_remove {k : Kind} (t : Transaction K) (h : Handle k) (plain : k ≠ .request) :
    Steps [] t (t.remove h) :=
  .single (.remove t h plain)

theorem steps_detach (t : Transaction K) (id : RequestId) : Steps [] t (t.detach id) :=
  .single (.detach t id)

theorem steps_anyRead {k : Kind} (test : Record K k → Bool) (t : Transaction K)
    (handles : List (Handle k)) : Steps [] t (t.anyRead test handles).2 := by
  induction handles generalizing t with
  | nil => exact .refl t
  | cons h rest ih =>
    unfold anyRead
    dsimp only
    split
    · exact steps_lock t h
    · exact (steps_lock t h).quiet_trans (ih _)

theorem steps_addTenant (name : String) (t : Transaction K) :
    Steps [] t (addTenant name t).2 := by
  have read := steps_anyRead (fun other : Tenant => other.name == name) t
    (t.store.handles .tenant)
  unfold addTenant
  dsimp only
  split <;> rename_i found <;> rw [found] at read
  · exact read
  · exact read.quiet_trans (steps_insert _ _ trivial)

theorem steps_addVm (net : Network K) (tenant : TenantId) (name : String)
    (placement : Placement) (t : Transaction K) :
    Steps [] t (addVm net tenant name placement t).2 := by
  unfold addVm
  split
  · exact .refl t
  · rename_i owner _
    have read := (steps_lock t tenant).quiet_trans
      (steps_anyRead (fun other : VirtualMachine => other.name == name) (t.lock tenant) owner.vms)
    split <;> rename_i found <;> rw [found] at read
    · exact read
    · split
      · exact read
      · refine (read.quiet_trans ?_).quiet_trans (steps_update _ tenant _ nofun)
        exact steps_insert (k := .vm) _ _ trivial

theorem steps_setConnection (vm : VmId) (connection : Option String) (t : Transaction K) :
    Steps [] t (setConnection vm connection t).2 := by
  unfold setConnection
  split
  · exact steps_update t vm _ nofun
  · exact .refl t

theorem steps_removeFlow (t : Transaction K) (flow : FlowId) :
    Steps [] t (t.removeFlow flow) := by
  unfold removeFlow
  cases t.store.flow? flow with
  | none => exact .refl t
  | some record =>
    have unlisted := (steps_lock t flow).quiet_trans
      (steps_update _ record.source (VirtualMachine.removeFlow flow) nofun)
    have unlisted := unlisted.quiet_trans
      (steps_update _ record.destination (VirtualMachine.removeFlow flow) nofun)
    refine Steps.quiet_trans ?_ (steps_remove _ flow nofun)
    cases record.request with
    | none => exact unlisted
    | some request => exact unlisted.quiet_trans (steps_detach _ request)

theorem steps_removeVm (t : Transaction K) (vm : VmId) : Steps [] t (t.removeVm vm) := by
  unfold removeVm
  cases t.store.vm? vm with
  | none => exact .refl t
  | some record =>
    have flows := (steps_lock t vm).quiet_trans (Steps.foldl steps_removeFlow record.flows _)
    have unlisted := flows.quiet_trans
      (steps_update _ record.tenant (Tenant.removeVm vm) nofun)
    exact unlisted.quiet_trans (steps_remove _ vm nofun)

theorem steps_removeTenant (t : Transaction K) (tenant : TenantId) :
    Steps [] t (t.removeTenant tenant) := by
  unfold removeTenant
  cases t.store.tenant? tenant with
  | none => exact .refl t
  | some record =>
    have locked := (steps_lock t tenant).quiet_trans (Steps.foldl steps_lock record.vms _)
    refine Steps.quiet_trans ?_ (steps_remove _ tenant nofun)
    refine Steps.quiet_trans ?_
      (Steps.foldl (fun t (vm : VmId) => steps_remove t vm nofun) record.vms _)
    exact locked.quiet_trans (Steps.foldl steps_removeFlow _ _)

theorem steps_addFlow (flow : Flow K) (t : Transaction K) : Steps [] t (addFlow flow t).2 := by
  have stored := steps_insert (k := .flow) t flow trivial
  unfold addFlow
  refine Steps.quiet_trans ?_ (steps_update _ flow.destination _ nofun)
  refine Steps.quiet_trans ?_ (steps_update _ flow.source _ nofun)
  cases flow.request with
  | none => exact stored
  | some request => exact stored.quiet_trans (steps_point _ request _)

theorem steps_relink (flow : FlowId) (oldRequest newRequest : RequestId) (t : Transaction K) :
    Steps [] t (Rerouting.relink flow oldRequest newRequest t) := by
  have detached := (steps_lock t flow).quiet_trans (steps_detach _ oldRequest)
  have pointed := detached.quiet_trans
    (steps_update (k := .flow) _ flow (fun record => { record with request := some newRequest })
      nofun)
  exact pointed.quiet_trans (steps_point _ newRequest flow)

theorem steps_check [Quantity K] (d : FlowDemand K) (net : Network K) (t : Transaction K) :
    Steps [] t (d.check net t).2 := by
  unfold FlowDemand.check
  split
  · exact .refl t
  · exact steps_lock t d.source
  · rename_i source _ _ _
    have locked := (steps_lock t d.source).quiet_trans (steps_lock _ d.destination)
    exact locked.quiet_trans (steps_anyRead _ _ source.flows)

end Transaction

/-- A flow that can be looked up with its request and path. -/
theorem Rerouting.routed?_eq_some {s : Store K} {flow : FlowId} {old : RequestId}
    {request : Request K} {path : Path} (routed : routed? s flow = some (old, request, path)) :
    ∃ f b, s.flow? flow = some f ∧ f.request = some old ∧ s.request? old = some b ∧
      b.request = request ∧ b.path = some path := by
  simp only [routed?, Option.bind_eq_bind, Option.bind_eq_some_iff] at routed
  obtain ⟨f, live, id, requested, b, held, path', has_path, same⟩ := routed
  cases same
  exact ⟨f, b, live, requested, held, rfl, has_path⟩

namespace Embedder
open Transaction

/-- A new request with its path, on top of a store. -/
theorem steps_embedded (s : Store K) (booking : Booking K) (path : Path)
    (unrouted : booking.path = none) :
    Steps [(path, booking.request)] s.begin
      ((s.begin.insert (k := .request) booking).2.attach
        (s.begin.insert (k := .request) booking).1 path) := by
  have stored := steps_insert (k := .request) s.begin booking unrouted
  have live := s.begin.get?_insert (k := .request) booking (s.begin.insert booking).1
  rw [if_pos rfl] at live
  exact stored.trans (.single (.attach _ _ path booking live unrouted))

variable {R C : Type} [Quantity K] [CostModel C K] [Router R C K]

/-- An embedding is undone, or the path that the router answered has been registered and is
attached. -/
theorem embed_cases (x : Embedder R C K) (net : Network K) (penalized : Std.ExtTreeSet EdgeId)
    (request : Request K) (replaces : Option RequestId) :
    (∃ router, x.embed net penalized request replaces =
      (none, { x with
        store := (x.store.begin.insert (k := .request) { request, replaces }).2.rollback
        router })) ∨
    ∃ router path costs,
      (Router.route x.router net request (⟨x.costs, penalized⟩ : Surcharged C)).1 = some path ∧
      CostModel.register? x.costs net path request = some costs ∧
      x.embed net penalized request replaces =
        (some (x.store.begin.insert (k := .request) { request, replaces }).1,
          Embedder.commit { x with router, costs } net
            ((x.store.begin.insert (k := .request) { request, replaces }).2.attach
              (x.store.begin.insert (k := .request) { request, replaces }).1 path)) := by
  unfold embed
  dsimp only
  split
  · exact .inl ⟨_, rfl⟩
  · rename_i path routed
    cases registered : CostModel.register? x.costs net path request with
    | none =>
      have refused : CostModel.register? (⟨x.costs, penalized⟩ : Surcharged C) net path request =
          none := by simp [CostModel.register?, registered]
      rw [refused]
      exact .inl ⟨_, rfl⟩
    | some costs =>
      have passed : CostModel.register? (⟨x.costs, penalized⟩ : Surcharged C) net path request =
          some ⟨costs, penalized⟩ := by simp [CostModel.register?, registered]
      rw [passed]
      exact .inr ⟨_, path, costs, routed, registered, rfl⟩

end Embedder
end FlowAdmission
