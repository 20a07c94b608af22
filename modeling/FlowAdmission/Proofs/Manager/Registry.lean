import FlowAdmission.Proofs.Manager.Frames
import FlowAdmission.Proofs.Manager.Registered

/-!
# The registry of tenants, machines and flows

In every state of a manager names and matchings are unique where they have to be, and the lists
that tenants and machines keep are those of the live records that name them
(`Manager.registry_of_reachable`).

The checks for a name or a matching that is taken read such a list and nothing else, so they are
right because the lists are (`Store.Registered`).
-/
namespace FlowAdmission
variable {K : Type}

namespace Store.Registered
open Transaction
variable {t : Transaction K}

theorem unlocked (registered : t.store.Registered) : t.unlocked.Registered :=
  registered.of_get? fun _ h => t.get?_unlocked h

theorem locked {k : Kind} (registered : t.store.Registered) (h : Handle k) :
    (t.lock h).store.Registered :=
  registered.of_get? fun _ i => t.get?_lock h i

theorem lockedAll {k : Kind} (registered : t.store.Registered) (handles : List (Handle k)) :
    (handles.foldl lock t).store.Registered :=
  registered.of_get? fun _ i => get?_locks t handles i

/-- A tenant enters under a name that no other has, and no machine names it yet. -/
theorem insertTenant (registered : t.store.Registered) (numbered : t.store.Numbered)
    {name : String} (nonempty : name ≠ "")
    (free : ∀ {i r}, t.store.tenant? i = some r → r.name ≠ name) :
    (t.insert (k := .tenant) { name }).2.store.Registered := by
  have fresh : t.store.tenant? (t.insert (k := .tenant) { name }).1 = none :=
    numbered _ _ (Nat.le_refl _)
  have tenant? : ∀ i, (t.insert (k := .tenant) { name }).2.store.tenant? i =
      if (t.insert (k := .tenant) { name }).1 = i then some { name } else t.store.tenant? i :=
    t.get?_insert (k := .tenant) { name }
  have vm? : ∀ i, (t.insert (k := .tenant) { name }).2.store.vm? i = t.store.vm? i :=
    fun i => t.get?_insert_of_ne (k := .tenant) _ i nofun
  have flow? : ∀ i, (t.insert (k := .tenant) { name }).2.store.flow? i = t.store.flow? i :=
    fun i => t.get?_insert_of_ne (k := .tenant) _ i nofun
  exact ⟨registered.tenants.insertTenant nonempty free tenant?,
    registered.machines.insertTenant fresh tenant? vm?,
    registered.flows.congr (fun v => by rw [vm?]) fun i => by rw [flow?]⟩

theorem addTenant (registered : t.store.Registered) (numbered : t.store.Numbered) {name : String}
    (nonempty : name ≠ "") : (t.addTenant name).2.store.Registered := by
  unfold Transaction.addTenant
  dsimp only
  have read := fun (k : Kind) (h : Handle k) =>
    get?_anyRead (fun other : Tenant => other.name == name) t (t.store.handles .tenant) h
  have steps := steps_anyRead (fun other : Tenant => other.name == name) t
    (t.store.handles .tenant)
  split <;> rename_i u answered <;> rw [answered] at read steps
  · exact registered.of_get? read
  · have unread : (t.anyRead (fun other : Tenant => other.name == name)
        (t.store.handles .tenant)).1 = false := congrArg Prod.fst answered
    refine (registered.of_get? read).insertTenant (steps.numbered numbered) nonempty ?_
    intro i r live
    have live : t.store.get? i = some r := (read _ i).symm.trans live
    have listed : i ∈ t.store.handles .tenant := mem_handles.mpr (Option.isSome_of_eq_some live)
    simpa using test_anyRead_false unread listed live

/-- A machine enters under a name that no other of its tenant has; it has no flows yet. -/
theorem insertVm (registered : t.store.Registered) (numbered : t.store.Numbered)
    {tenant : TenantId} {owner : Tenant} (live : t.store.tenant? tenant = some owner)
    {name : String} (host : HostId)
    (free : ∀ {v m}, t.store.vm? v = some m → m.tenant = tenant → m.name ≠ name) :
    ((t.insert (k := .vm) { name, tenant, host }).2.update tenant
      (Tenant.addVm (t.insert (k := .vm) { name, tenant, host }).1)).store.Registered := by
  have stored := t.get?_insert (k := .vm) { name, tenant, host }
  have kept := fun {j : Kind} (i : Handle j) =>
    t.get?_insert_of_ne (k := .vm) { name, tenant, host } i
  have fresh : t.store.vm? (t.insert (k := .vm) { name, tenant, host }).1 = none :=
    numbered _ _ (Nat.le_refl _)
  generalize t.insert (k := .vm) { name, tenant, host } = inserted at stored kept fresh ⊢
  obtain ⟨id, u⟩ := inserted
  have vm? : ∀ v, (u.update tenant (Tenant.addVm id)).store.vm? v =
      if id = v then some { name, tenant, host } else t.store.vm? v :=
    fun v => (u.get?_update_of_ne tenant _ v nofun).trans (stored v)
  have tenant? : ∀ i, (u.update tenant (Tenant.addVm id)).store.tenant? i =
      if tenant = i then (t.store.tenant? i).map (Tenant.addVm id) else t.store.tenant? i := by
    intro i
    refine (u.get?_update tenant i _).trans ?_
    rw [kept i nofun]
    rfl
  have flow? : ∀ i, (u.update tenant (Tenant.addVm id)).store.flow? i = t.store.flow? i :=
    fun i => (u.get?_update_of_ne tenant _ i nofun).trans (kept i nofun)
  refine ⟨registered.tenants.of_names ?_,
    registered.machines.insertVm fresh live free vm? tenant?,
    registered.flows.insertVm fresh rfl vm? flow?⟩
  intro i r found
  rw [tenant?] at found
  split at found
  · obtain ⟨r, before, rfl⟩ := Option.map_eq_some_iff.mp found
    exact ⟨r, before, rfl⟩
  · exact ⟨r, found, rfl⟩

theorem addVm (registered : t.store.Registered) (numbered : t.store.Numbered) (net : Network K)
    (tenant : TenantId) (name : String) (placement : Placement) :
    (t.addVm net tenant name placement).2.store.Registered := by
  unfold Transaction.addVm
  split
  · exact registered
  · rename_i owner live
    have read := fun (k : Kind) (h : Handle k) =>
      (get?_anyRead (fun other : VirtualMachine => other.name == name) (t.lock tenant) owner.vms
        h).trans (t.get?_lock tenant h)
    have steps := (steps_lock t tenant).quiet_trans
      (steps_anyRead (fun other : VirtualMachine => other.name == name) (t.lock tenant) owner.vms)
    split <;> rename_i u answered <;> rw [answered] at read steps
    · exact registered.of_get? read
    · have unread : ((t.lock tenant).anyRead (fun other : VirtualMachine => other.name == name)
          owner.vms).1 = false := congrArg Prod.fst answered
      split
      · exact registered.of_get? read
      · rename_i host _
        refine (registered.of_get? read).insertVm (steps.numbered numbered)
          ((read _ tenant).trans live) host ?_
        intro v m known its_tenant
        have known : t.store.vm? v = some m := (read _ v).symm.trans known
        have listed : v ∈ owner.vms := (registered.machines.mem_iff live).mpr ⟨m, known, its_tenant⟩
        have known : (t.lock tenant).store.get? v = some m := (t.get?_lock tenant v).trans known
        simpa using test_anyRead_false unread listed known

theorem setConnection (registered : t.store.Registered) (vm : VmId)
    (connection : Option String) : (t.setConnection vm connection).2.store.Registered := by
  unfold Transaction.setConnection
  split
  · have vm? : ∀ v, (t.update (k := .vm) vm fun record => { record with connection }).store.vm? v =
        if vm = v then (t.store.vm? v).map fun record => { record with connection }
        else t.store.vm? v := fun v => t.get?_update (k := .vm) vm v _
    have others := fun {j : Kind} (i : Handle j) =>
      t.get?_update_of_ne (k := .vm) vm (fun record => { record with connection }) i
    have viewed : ∀ {β : Type} (view : VirtualMachine → β),
        (∀ m, view { m with connection } = view m) → ∀ v,
        ((t.update (k := .vm) vm fun record => { record with connection }).store.vm? v).map view =
          (t.store.vm? v).map view := by
      intro β view blind v
      rw [vm?]
      split
      · rw [Option.map_map]
        exact congrArg (Option.map · _) (funext blind)
      · rfl
    refine ⟨registered.tenants.of_names fun {i r} live =>
        ⟨r, (others i nofun).symm.trans live, rfl⟩,
      registered.machines.congr (fun i => others i nofun) (viewed _ fun _ => rfl),
      registered.flows.congr (viewed _ fun _ => rfl) fun i => congrArg _ (others i nofun)⟩
  · exact registered

theorem entry_addFlow (t : Transaction K) (flow : Flow K) (v : VmId) :
    ((t.addFlow flow).2.store.vm? v).map VirtualMachine.entry =
      (t.store.vm? v).map VirtualMachine.entry := by
  rw [t.vm?_addFlow]
  split
  · rw [Option.map_map]
    rfl
  · rfl

theorem entry_removeFlow (t : Transaction K) (flow : FlowId) (v : VmId) :
    ((t.removeFlow flow).store.vm? v).map VirtualMachine.entry =
      (t.store.vm? v).map VirtualMachine.entry := by
  cases found : t.store.flow? flow with
  | none => rw [t.removeFlow_of_none found]
  | some record =>
    rw [t.vm?_removeFlow found]
    split
    · rw [Option.map_map]
      rfl
    · rfl

/-- Machines keep their names and tenants when flows are removed. -/
theorem entry_removeFlows (t : Transaction K) (flows : List FlowId) (v : VmId) :
    ((flows.foldl Transaction.removeFlow t).store.vm? v).map VirtualMachine.entry =
      (t.store.vm? v).map VirtualMachine.entry := by
  induction flows generalizing t with
  | nil => rfl
  | cons flow rest ih => exact (ih _).trans (entry_removeFlow t flow v)

/-- A flow enters between two machines of one tenant, with a matching that its source has not. -/
theorem addFlow (registered : t.store.Registered) (numbered : t.store.Numbered) {flow : Flow K}
    {v w : VirtualMachine} (source : t.store.vm? flow.source = some v)
    (destination : t.store.vm? flow.destination = some w) (one_tenant : v.tenant = w.tenant)
    (free : ∀ {i f}, t.store.flow? i = some f → f.source = flow.source →
      f.matching ≠ flow.matching) : (t.addFlow flow).2.store.Registered := by
  have fresh : t.store.flow? (t.addFlow flow).1 = none := numbered .flow _ (Nat.le_refl _)
  have ends := (⟨v, w, source, destination, one_tenant⟩ : ∃ v w, t.store.vm? flow.source = some v ∧
    t.store.vm? flow.destination = some w ∧ v.tenant = w.tenant)
  exact ⟨registered.tenants.of_names fun {i r} live =>
      ⟨r, (t.tenant?_addFlow flow i).symm.trans live, rfl⟩,
    registered.machines.congr (t.tenant?_addFlow flow) (entry_addFlow t flow),
    registered.flows.addFlow fresh ends free (t.flow?_addFlow flow) (t.vm?_addFlow flow)⟩

theorem removeFlow (registered : t.store.Registered) (flow : FlowId) :
    (t.removeFlow flow).store.Registered := by
  cases found : t.store.flow? flow with
  | none => rwa [t.removeFlow_of_none found]
  | some record =>
    have tenant? := t.tenant?_removeFlow flow
    exact ⟨registered.tenants.of_names fun {i r} live => ⟨r, (tenant? i).symm.trans live, rfl⟩,
      registered.machines.congr tenant? (entry_removeFlow t flow),
      registered.flows.removeFlow found (t.flow?_removeFlow flow) (t.vm?_removeFlow found)⟩

theorem removeFlows (registered : t.store.Registered) (flows : List FlowId) :
    (flows.foldl Transaction.removeFlow t).store.Registered := by
  induction flows generalizing t with
  | nil => exact registered
  | cons flow rest ih => exact ih (registered.removeFlow flow)

theorem removeVm (registered : t.store.Registered) (linked : t.store.Linked) (vm : VmId) :
    (t.removeVm vm).store.Registered := by
  unfold Transaction.removeVm
  cases found : t.store.vm? vm with
  | none => exact registered
  | some record =>
    have idle := fun {i f} => linked.no_flow_left_at found (i := i) (f := f)
    have emptied := (registered.locked vm).removeFlows record.flows
    have its_tenant := entry_removeFlows (t.lock vm) record.flows vm
    rw [show (t.lock vm).store.vm? vm = some record from (t.get?_lock vm vm).trans found]
      at its_tenant
    dsimp only
    generalize record.flows.foldl Transaction.removeFlow (t.lock vm) = u
      at idle emptied its_tenant ⊢
    refine emptied.retain [] [vm] (fun i => ?_) (fun v => ?_) (fun i => ?_)
      (fun _ gone => absurd gone List.not_mem_nil) idle
    · refine (get?_remove_of_ne _ vm i (by decide)).trans ?_
      refine (u.get?_update record.tenant i _).trans ?_
      by_cases its_own : record.tenant = i
      · rw [if_pos its_own, if_neg List.not_mem_nil]
        refine congrArg (Option.map · _) (funext fun r => ?_)
        simp [Tenant.removeVm, delist]
      · rw [if_neg its_own, if_neg List.not_mem_nil, emptied.machines.map_filter_eq_self]
        · rfl
        · intro v m named known same
          obtain rfl := List.mem_singleton.mp named
          rw [known, Option.map_some, Option.map_some, Option.some.injEq] at its_tenant
          exact its_own ((congrArg Prod.snd its_tenant).symm.trans same)
    · refine (get?_remove _ vm v (by decide)).trans ?_
      rw [u.get?_update_of_ne record.tenant _ v (by decide)]
      simp [vm?, eq_comm]
    · exact (get?_remove_of_ne _ vm i (by decide)).trans
        (u.get?_update_of_ne record.tenant _ i (by decide))

theorem removeTenant (registered : t.store.Registered) (linked : t.store.Linked)
    (tenant : TenantId) : (t.removeTenant tenant).store.Registered := by
  unfold Transaction.removeTenant
  cases found : t.store.tenant? tenant with
  | none => exact registered
  | some record =>
    have idle := fun {i f} => linked.no_flow_left_of tenant record.vms (i := i) (f := f)
    have locked := (registered.locked tenant).lockedAll record.vms
    have emptied := locked.removeFlows
      (flowsAt (record.vms.foldl lock (t.lock tenant)).store record.vms)
    have still := tenant?_removeFlows (record.vms.foldl lock (t.lock tenant))
      (flowsAt (record.vms.foldl lock (t.lock tenant)).store record.vms) tenant
    rw [show (record.vms.foldl lock (t.lock tenant)).store.tenant? tenant = some record from
      (get?_locks _ record.vms tenant).trans ((t.get?_lock tenant tenant).trans found)] at still
    dsimp only
    generalize (flowsAt (record.vms.foldl lock (t.lock tenant)).store record.vms).foldl
      Transaction.removeFlow (record.vms.foldl lock (t.lock tenant)) = u at idle emptied still ⊢
    refine emptied.retain [tenant] record.vms (fun i => ?_) (fun v => ?_) (fun i => ?_)
      (fun {v m} known its_tenant => ?_) idle
    · refine (get?_remove _ tenant i (by decide)).trans ?_
      rw [get?_removes_of_ne u record.vms i (by decide)]
      by_cases itself : tenant = i
      · simp [itself]
      · rw [if_neg itself, if_neg (by simpa using Ne.symm itself),
          emptied.machines.map_filter_eq_self]
        · rfl
        · intro v m named known same
          obtain ⟨m', known', its_tenant⟩ := (emptied.machines.mem_iff still).mp named
          rw [known] at known'
          cases known'
          exact itself (its_tenant.symm.trans same)
    · exact (get?_remove_of_ne _ tenant v (by decide)).trans
        (get?_removes u record.vms v (by decide))
    · exact (get?_remove_of_ne _ tenant i (by decide)).trans
        (get?_removes_of_ne u record.vms i (by decide))
    · exact (emptied.machines.mem_iff still).mpr ⟨m, known, List.mem_singleton.mp its_tenant⟩

end Store.Registered

namespace Manager
open Store Transaction
variable {R C : Type} [CostModel C K] {m : Manager R C K}

/-- A transaction that refuses is undone. -/
theorem registered_attempt {α : Type} (registered : m.store.Registered) (linked : m.store.Linked)
    {body : Transaction K → Except Error α × Transaction K}
    (steps : Steps [] m.store.begin (body m.store.begin).2)
    (after : (body m.store.begin).2.store.Registered) :
    (m.attempt body).2.store.Registered := by
  unfold attempt
  split <;> rename_i answered <;> rw [answered] at steps after
  · exact after.unlocked
  · obtain ⟨_, same⟩ := steps.follows_rollback linked.numbered linked.mirrored
    exact registered.of_get? same.records

variable [Quantity K] [Router R C K]

/-- A flow that is created has a matching that its source had not, because the source lists all
flows that leave it. -/
theorem registered_createFlow (sound : m.Sound) (registered : m.store.Registered)
    (d : FlowDemand K) : (m.createFlow d).2.store.Registered := by
  have admission := admission_createFlow sound.linked sound.owned d
  rcases answered : m.createFlow d with ⟨answer, m'⟩
  rw [answered] at admission
  cases admission with
  | refused plain follows same kept => exact registered.of_get? same.records
  | blocked searched => exact registered.of_rerouted searched.rerouted
  | @admitted flow s t booking _ _ _ searched awaits follows _ _ _ stored =>
    obtain ⟨n, n', passed, ⟨request, record, asked⟩, _⟩ := admits_createFlow sound.linked answered
    obtain ⟨v, w, source, destination, one_tenant, _⟩ := d.check_ok m.network passed
    obtain rfl : flow = d.toFlow request record := by
      rw [stored] at asked
      have looked := (get?_unlocked _ _).symm.trans asked
      rw [show (t.begin.addFlow flow).2.store.get? (t.begin.addFlow flow).1 = some flow from
        (t.begin.flow?_addFlow flow _).trans (if_pos rfl)] at looked
      exact Option.some.inj looked
    have vm? : ∀ i, t.vm? i = m.store.vm? i :=
      fun i => (awaits.others .vm i nofun).trans (searched.rerouted.vms i)
    have flow? : ∀ i, (t.flow? i).map Flow.entry = (m.store.flow? i).map Flow.entry := fun i =>
      (congrArg _ (awaits.others .flow i nofun)).trans (searched.rerouted.entry i)
    have waiting : t.Registered := registered.congr
      (fun i => (awaits.others .tenant i nofun).trans (searched.rerouted.tenants i)) vm? flow?
    have free : ∀ {i f}, t.flow? i = some f → f.source = d.source → f.matching ≠ d.matching := by
      intro i f live leaves
      obtain ⟨g, before, same⟩ := exists_of_map_eq (flow? i) live
      simp only [Flow.entry, Prod.mk.injEq] at same
      have leaves : g.source = d.source := same.1.trans leaves
      have listed : i ∈ v.flows := (registered.flows.mem_iff source).mpr ⟨g, before, .inl leaves⟩
      rw [← same.2.2]
      exact d.check_distinct m.network passed source listed before leaves
    have added : (t.begin.addFlow (d.toFlow request record)).2.store.Registered :=
      Registered.addFlow (t := t.begin) waiting follows.numbered ((vm? _).trans source)
        ((vm? _).trans destination) one_tenant free
    show m'.store.Registered
    rw [stored]
    exact added.unlocked

theorem registered_run (sound : m.Sound) (registered : m.store.Registered)
    (operation : Operation K) : (operation.run m).2.store.Registered := by
  have begun : m.store.begin.store.Registered := registered
  have linked : m.store.begin.store.Linked := sound.linked
  cases operation with
  | createTenant name =>
    show (m.createTenant name).2.store.Registered
    unfold Manager.createTenant
    split
    · exact registered
    · rename_i nonempty
      exact registered_attempt registered sound.linked (steps_addTenant name _)
        (begun.addTenant linked.numbered nonempty)
  | createVm tenant name placement =>
    show (m.createVm tenant name placement).2.store.Registered
    unfold Manager.createVm
    split
    · exact registered
    · split
      · exact registered
      · exact registered_attempt registered sound.linked
          (steps_addVm m.network tenant name placement _)
          (begun.addVm linked.numbered m.network tenant name placement)
  | setConnection vm connection =>
    exact registered_attempt registered sound.linked (steps_setConnection vm connection _)
      (begun.setConnection vm connection)
  | createFlow demand => exact registered_createFlow sound registered demand
  | deleteFlow flow => exact (begun.removeFlow flow).unlocked
  | deleteVm vm => exact (begun.removeVm linked vm).unlocked
  | deleteTenant tenant => exact (begun.removeTenant linked tenant).unlocked
  | extendTopology calls => exact registered

theorem Reachable.registered (reachable : m.Reachable) : m.store.Registered := by
  induction reachable with
  | start => exact registered_empty
  | run before operation ih => exact registered_run before.sound ih operation
  | rebuild _ _ _ ih => exact ih

/-- In every state of a manager: tenants have names and no two the same; a tenant lists its live
machines, each once, and they are named apart; the ends of a live flow are live, have one tenant
and list the flow once, and they list no other flows; and no two live flows have the same source
and the same matching. -/
theorem registry_of_reachable (reachable : m.Reachable) :
    (∀ t r, m.store.tenant? t = some r → r.name ≠ "") ∧
    (∀ t t' r r', m.store.tenant? t = some r → m.store.tenant? t' = some r' →
      r.name = r'.name → t = t') ∧
    (∀ t r, m.store.tenant? t = some r → r.vms.Nodup ∧
      ∀ v, v ∈ r.vms ↔ ∃ vm, m.store.vm? v = some vm ∧ vm.tenant = t) ∧
    (∀ v v' vm vm', m.store.vm? v = some vm → m.store.vm? v' = some vm' →
      vm.tenant = vm'.tenant → vm.name = vm'.name → v = v') ∧
    (∀ id f, m.store.flow? id = some f → ∃ v w, m.store.vm? f.source = some v ∧
      m.store.vm? f.destination = some w ∧ v.tenant = w.tenant ∧
      v.flows.count id = 1 ∧ w.flows.count id = 1) ∧
    (∀ v vm id, m.store.vm? v = some vm → id ∈ vm.flows →
      ∃ f, m.store.flow? id = some f ∧ (f.source = v ∨ f.destination = v)) ∧
    (∀ i j f g, m.store.flow? i = some f → m.store.flow? j = some g → f.source = g.source →
      f.matching = g.matching → i = j) := by
  obtain ⟨tenants, machines, flows⟩ := reachable.registered
  have lists_once : ∀ {v vm id f}, m.store.vm? v = some vm → m.store.flow? id = some f →
      f.source = v ∨ f.destination = v → vm.flows.count id = 1 := fun found live at_end =>
    List.count_eq_one_of_mem (flows.nodup found) ((flows.mem_iff found).mpr ⟨_, live, at_end⟩)
  refine ⟨fun t r => tenants.nonempty, fun t t' r r' => tenants.distinct, fun t r live =>
    ⟨machines.nodup live, fun v => machines.mem_iff live⟩, fun v v' vm vm' => machines.distinct,
    fun id f live => ?_, fun v vm id found => (flows.mem_iff found).mp,
    fun i j f g => flows.distinct⟩
  obtain ⟨v, w, source, destination, one_tenant⟩ := flows.ends live
  exact ⟨v, w, source, destination, one_tenant, lists_once source live (.inl rfl),
    lists_once destination live (.inr rfl)⟩

/-- The tenant of the sample lists both its machines, and both list the flow between them. -/
theorem registry_of_sampleManager :
    (∀ v, v ∈ [⟨0⟩, ⟨1⟩] ↔ ∃ vm, sampleManager.store.vm? v = some vm ∧ vm.tenant = ⟨0⟩) ∧
      ∃ v w, sampleManager.store.vm? ⟨0⟩ = some v ∧ sampleManager.store.vm? ⟨1⟩ = some w ∧
        v.tenant = w.tenant ∧ v.flows.count ⟨0⟩ = 1 ∧ w.flows.count ⟨0⟩ = 1 := by
  have reachable : sampleManager.Reachable := (Reachable.start 0 _ _ _ _).runAll _
  obtain ⟨_, _, machines, _, flows, _⟩ := registry_of_reachable reachable
  have tenant : sampleManager.store.tenant? ⟨0⟩ = some ⟨"tenant", [⟨0⟩, ⟨1⟩]⟩ := by decide +kernel
  obtain ⟨f, live, source, destination⟩ : ∃ f, sampleManager.store.flow? ⟨0⟩ = some f ∧
      f.source = ⟨0⟩ ∧ f.destination = ⟨1⟩ := by
    have live : ((sampleManager.store.flow? ⟨0⟩).map fun f => (f.source, f.destination)) =
        some (⟨0⟩, ⟨1⟩) := by decide +kernel
    obtain ⟨f, live, ends⟩ := Option.map_eq_some_iff.mp live
    exact ⟨f, live, congrArg Prod.fst ends, congrArg Prod.snd ends⟩
  refine ⟨(machines _ _ tenant).2, ?_⟩
  rw [← source, ← destination]
  exact flows _ _ live

end Manager
end FlowAdmission
