import Mathlib.Data.List.Nodup
import FlowAdmission.Proofs.Manager.Moves

/-!
# Lists that agree with the records

Tenants list their machines and machines their flows. The lists are right when they name the live
records that name their owner, each once, and names and matchings are unique where they have to be
(`Store.Registered`). Each part of this depends on few fields: whether tenants are named apart on
their names, the lists of machines on names and tenants, and the lists of flows on the ends of
flows. A change that leaves these fields alone keeps the part (`MachinesListed.congr`,
`FlowsListed.congr`); a record that comes or goes is one lemma for each part that it concerns.
-/
namespace FlowAdmission
variable {K : Type}

/-- Values that look the same are there together. -/
theorem exists_of_map_eq {α β : Type} {f : α → β} {x y : Option α} (same : x.map f = y.map f)
    {a : α} (found : x = some a) : ∃ b, y = some b ∧ f b = f a := by
  rw [found, Option.map_some] at same
  exact Option.map_eq_some_iff.mp same.symm

theorem nodup_enlist {α : Type} [DecidableEq α] (a : α) {xs : List α} (distinct : xs.Nodup) :
    (enlist a xs).Nodup := by
  unfold enlist
  split
  · exact distinct
  · rename_i new
    exact (List.perm_append_singleton a xs).nodup_iff.mpr (List.nodup_cons.mpr ⟨new, distinct⟩)

section lookups
variable {α β : Type} [DecidableEq α] {look look' : α → Option β} {new : α} {record : β}

/-- With a new record there is one more that may have a property. -/
theorem exists_inserted (fresh : look new = none)
    (inserted : ∀ a, look' a = if new = a then some record else look a) {p : β → Prop} {a : α} :
    (∃ b, look' a = some b ∧ p b) ↔ (∃ b, look a = some b ∧ p b) ∨ (new = a ∧ p record) := by
  rw [inserted]
  by_cases same : new = a
  · subst same
    simp [fresh]
  · simp [same]

/-- Records are told apart when a new one is apart from all that were there. -/
theorem apart_inserted (clash : β → β → Prop) (symm : ∀ {b b'}, clash b b' → clash b' b)
    (apart : ∀ {a a' b b'}, look a = some b → look a' = some b' → clash b b' → a = a')
    (free : ∀ {a b}, look a = some b → ¬clash b record)
    (inserted : ∀ a, look' a = if new = a then some record else look a) {a a' : α} {b b' : β}
    (found : look' a = some b) (found' : look' a' = some b') (both : clash b b') : a = a' := by
  rw [inserted] at found found'
  split at found <;> split at found'
  · rename_i first second
    exact first.symm.trans second
  · cases found
    exact absurd (symm both) (free found')
  · cases found'
    exact absurd both (free found)
  · exact apart found found' both

end lookups

/-- The fields of a machine that its tenant depends on. -/
def VirtualMachine.entry (m : VirtualMachine) : String × TenantId := (m.name, m.tenant)

/-- The fields of a machine that its flows depend on. -/
def VirtualMachine.port (m : VirtualMachine) : TenantId × List FlowId := (m.tenant, m.flows)

/-- The fields of a flow that its machines depend on. -/
def Flow.entry (f : Flow K) : VmId × VmId × Matching := (f.source, f.destination, f.matching)

namespace Store

/-- Tenants have names, and no two the same. -/
structure TenantsNamed (s : Store K) : Prop where
  nonempty : ∀ {t r}, s.tenant? t = some r → r.name ≠ ""
  distinct : ∀ {t t' r r'}, s.tenant? t = some r → s.tenant? t' = some r' → r.name = r'.name →
    t = t'

/-- A tenant lists its machines, each once, and no two of them have the same name. -/
structure MachinesListed (s : Store K) : Prop where
  nodup : ∀ {t r}, s.tenant? t = some r → r.vms.Nodup
  mem_iff : ∀ {t r v}, s.tenant? t = some r → (v ∈ r.vms ↔ ∃ m, s.vm? v = some m ∧ m.tenant = t)
  owned : ∀ {v m}, s.vm? v = some m → ∃ r, s.tenant? m.tenant = some r
  distinct : ∀ {v v' m m'}, s.vm? v = some m → s.vm? v' = some m' → m.tenant = m'.tenant →
    m.name = m'.name → v = v'

/-- A machine lists the flows that have it at an end, each once. The ends of a flow are live and
have one tenant, and the source tells its flows apart by their matchings. -/
structure FlowsListed (s : Store K) : Prop where
  nodup : ∀ {v m}, s.vm? v = some m → m.flows.Nodup
  mem_iff : ∀ {v m id}, s.vm? v = some m →
    (id ∈ m.flows ↔ ∃ f, s.flow? id = some f ∧ (f.source = v ∨ f.destination = v))
  ends : ∀ {id f}, s.flow? id = some f → ∃ v w, s.vm? f.source = some v ∧
    s.vm? f.destination = some w ∧ v.tenant = w.tenant
  distinct : ∀ {i j f g}, s.flow? i = some f → s.flow? j = some g → f.source = g.source →
    f.matching = g.matching → i = j

structure Registered (s : Store K) : Prop where
  tenants : s.TenantsNamed
  machines : s.MachinesListed
  flows : s.FlowsListed

theorem registered_empty : (empty : Store K).Registered := by
  have no_record : ∀ (k : Kind) (h : Handle k), (empty : Store K).get? h = none := by
    intro k h
    cases k <;> simp [empty, get?, roster]
  constructor <;> constructor <;> simp [tenant?, vm?, flow?, no_record]

variable {s s' : Store K}

theorem TenantsNamed.of_names (named : s.TenantsNamed)
    (kept : ∀ {t r'}, s'.tenant? t = some r' → ∃ r, s.tenant? t = some r ∧ r.name = r'.name) :
    s'.TenantsNamed := by
  constructor
  · intro t r' live
    obtain ⟨r, before, name⟩ := kept live
    rw [← name]
    exact named.nonempty before
  · intro t t' r r' live live' same
    obtain ⟨_, before, name⟩ := kept live
    obtain ⟨_, before', name'⟩ := kept live'
    exact named.distinct before before' ((name.trans same).trans name'.symm)

theorem MachinesListed.congr (listed : s.MachinesListed)
    (tenants : ∀ t, s'.tenant? t = s.tenant? t)
    (vms : ∀ v, (s'.vm? v).map VirtualMachine.entry = (s.vm? v).map VirtualMachine.entry) :
    s'.MachinesListed := by
  have before : ∀ {v m'}, s'.vm? v = some m' →
      ∃ m, s.vm? v = some m ∧ m.name = m'.name ∧ m.tenant = m'.tenant := by
    intro v m' live
    obtain ⟨m, found, same⟩ := exists_of_map_eq (vms v) live
    exact ⟨m, found, congrArg Prod.fst same, congrArg Prod.snd same⟩
  constructor
  · intro t r live
    rw [tenants] at live
    exact listed.nodup live
  · intro t r v live
    rw [tenants] at live
    rw [listed.mem_iff live]
    constructor
    · rintro ⟨m, found, its_tenant⟩
      obtain ⟨m', found', same⟩ := exists_of_map_eq (vms v).symm found
      exact ⟨m', found', (congrArg Prod.snd same).trans its_tenant⟩
    · rintro ⟨m', found', its_tenant⟩
      obtain ⟨m, found, _, tenant⟩ := before found'
      exact ⟨m, found, tenant.trans its_tenant⟩
  · intro v m' live
    obtain ⟨m, found, _, tenant⟩ := before live
    rw [← tenant, tenants]
    exact listed.owned found
  · intro v v' m m' live live' one_tenant same
    obtain ⟨_, found, name, tenant⟩ := before live
    obtain ⟨_, found', name', tenant'⟩ := before live'
    exact listed.distinct found found' ((tenant.trans one_tenant).trans tenant'.symm)
      ((name.trans same).trans name'.symm)

/-- Lists that name none of the machines are as they should be without them. -/
theorem MachinesListed.map_filter_eq_self (machines : s.MachinesListed) {vms : List VmId}
    {i : TenantId} (foreign : ∀ {v m}, v ∈ vms → s.vm? v = some m → m.tenant ≠ i) :
    ((s.tenant? i).map fun r => { r with vms := r.vms.filter (· ∉ vms) }) = s.tenant? i := by
  cases found : s.tenant? i with
  | none => rfl
  | some r =>
    have kept : r.vms.filter (· ∉ vms) = r.vms := by
      refine List.filter_eq_self.mpr fun v listed => decide_eq_true fun named => ?_
      obtain ⟨m, known, its_tenant⟩ := (machines.mem_iff found).mp listed
      exact foreign named known its_tenant
    rw [Option.map_some, kept]

/-- The ends of a flow stay live and of one tenant where machines stay and keep their tenants. -/
theorem ends_of_tenants (kept : ∀ {v m}, s.vm? v = some m →
      ∃ m', s'.vm? v = some m' ∧ m'.tenant = m.tenant) {source destination : VmId}
    (ends : ∃ v w, s.vm? source = some v ∧ s.vm? destination = some w ∧ v.tenant = w.tenant) :
    ∃ v w, s'.vm? source = some v ∧ s'.vm? destination = some w ∧ v.tenant = w.tenant := by
  obtain ⟨v, w, starts, arrives, one_tenant⟩ := ends
  obtain ⟨v', starts', tenant⟩ := kept starts
  obtain ⟨w', arrives', tenant'⟩ := kept arrives
  exact ⟨v', w', starts', arrives', (tenant.trans one_tenant).trans tenant'.symm⟩

theorem FlowsListed.congr (listed : s.FlowsListed)
    (vms : ∀ v, (s'.vm? v).map VirtualMachine.port = (s.vm? v).map VirtualMachine.port)
    (flows : ∀ i, (s'.flow? i).map Flow.entry = (s.flow? i).map Flow.entry) :
    s'.FlowsListed := by
  have before : ∀ {i f'}, s'.flow? i = some f' → ∃ f, s.flow? i = some f ∧
      f.source = f'.source ∧ f.destination = f'.destination ∧ f.matching = f'.matching := by
    intro i f' live
    obtain ⟨f, found, same⟩ := exists_of_map_eq (flows i) live
    simp only [Flow.entry, Prod.mk.injEq] at same
    exact ⟨f, found, same⟩
  have after : ∀ {v m}, s.vm? v = some m →
      ∃ m', s'.vm? v = some m' ∧ m'.tenant = m.tenant := by
    intro v m found
    obtain ⟨m', found', same⟩ := exists_of_map_eq (vms v).symm found
    exact ⟨m', found', congrArg Prod.fst same⟩
  constructor
  · intro v m' live
    obtain ⟨m, found, same⟩ := exists_of_map_eq (vms v) live
    rw [← show m.flows = m'.flows from congrArg Prod.snd same]
    exact listed.nodup found
  · intro v m' id live
    obtain ⟨m, found, same⟩ := exists_of_map_eq (vms v) live
    rw [← show m.flows = m'.flows from congrArg Prod.snd same, listed.mem_iff found]
    constructor
    · rintro ⟨f, live, at_end⟩
      obtain ⟨f', live', same⟩ := exists_of_map_eq (flows id).symm live
      simp only [Flow.entry, Prod.mk.injEq] at same
      exact ⟨f', live', by rwa [same.1, same.2.1]⟩
    · rintro ⟨f', live', at_end⟩
      obtain ⟨f, live, source, destination, _⟩ := before live'
      exact ⟨f, live, by rwa [source, destination]⟩
  · intro id f' live
    obtain ⟨f, found, source, destination, _⟩ := before live
    rw [← source, ← destination]
    exact ends_of_tenants after (listed.ends found)
  · intro i j f g live live' leaves same
    obtain ⟨_, found, source, _, matching⟩ := before live
    obtain ⟨_, found', source', _, matching'⟩ := before live'
    exact listed.distinct found found' ((source.trans leaves).trans source'.symm)
      ((matching.trans same).trans matching'.symm)

section entering
variable {tenant : TenantId} {name : String} {id : VmId} {vm : VirtualMachine}

/-- A tenant enters under a name that no other has. -/
theorem TenantsNamed.insertTenant (named : s.TenantsNamed) (nonempty : name ≠ "")
    (free : ∀ {i r}, s.tenant? i = some r → r.name ≠ name)
    (tenant? : ∀ i, s'.tenant? i = if tenant = i then some { name } else s.tenant? i) :
    s'.TenantsNamed := by
  constructor
  · intro i r live
    rw [tenant?] at live
    split at live
    · cases live
      exact nonempty
    · exact named.nonempty live
  · intro i i' r r'
    exact apart_inserted (·.name = ·.name) Eq.symm named.distinct free tenant?

/-- No machine names a tenant that is new. -/
theorem MachinesListed.insertTenant (listed : s.MachinesListed) (fresh : s.tenant? tenant = none)
    (tenant? : ∀ i, s'.tenant? i = if tenant = i then some { name } else s.tenant? i)
    (vm? : ∀ v, s'.vm? v = s.vm? v) : s'.MachinesListed := by
  have owned : ∀ {v m}, s.vm? v = some m → tenant ≠ m.tenant ∧
      ∃ r, s'.tenant? m.tenant = some r := by
    intro v m found
    obtain ⟨r, known⟩ := listed.owned found
    have other : tenant ≠ m.tenant := by
      rintro rfl
      rw [fresh] at known
      cases known
    exact ⟨other, r, by rw [tenant?, if_neg other, known]⟩
  constructor
  · intro i r live
    rw [tenant?] at live
    split at live
    · cases live
      exact List.nodup_nil
    · exact listed.nodup live
  · intro i r v live
    rw [tenant?] at live
    rw [vm?]
    split at live
    · rename_i itself
      cases live
      refine ⟨nofun, ?_⟩
      rintro ⟨m, found, rfl⟩
      exact absurd itself (owned found).1
    · exact listed.mem_iff live
  · intro v m live
    rw [vm?] at live
    exact (owned live).2
  · intro v v' m m' live live'
    rw [vm?] at live live'
    exact listed.distinct live live'

/-- A machine enters the list of its tenant, under a name that no other there has. -/
theorem MachinesListed.insertVm (listed : s.MachinesListed) (fresh : s.vm? id = none)
    {owner : Tenant} (live : s.tenant? vm.tenant = some owner)
    (free : ∀ {v m}, s.vm? v = some m → m.tenant = vm.tenant → m.name ≠ vm.name)
    (vm? : ∀ v, s'.vm? v = if id = v then some vm else s.vm? v)
    (tenant? : ∀ i, s'.tenant? i =
      if vm.tenant = i then (s.tenant? i).map (Tenant.addVm id) else s.tenant? i) :
    s'.MachinesListed := by
  have alive : ∀ {i r}, s.tenant? i = some r → ∃ r, s'.tenant? i = some r := by
    intro i r found
    rw [tenant?, found]
    split
    · exact ⟨_, rfl⟩
    · exact ⟨r, rfl⟩
  constructor
  · intro i r found
    rw [tenant?] at found
    split at found
    · obtain ⟨r, before, rfl⟩ := Option.map_eq_some_iff.mp found
      exact nodup_enlist _ (listed.nodup before)
    · exact listed.nodup found
  · intro i r v found
    rw [exists_inserted fresh vm?]
    rw [tenant?] at found
    split at found
    · rename_i itself
      obtain ⟨r, before, rfl⟩ := Option.map_eq_some_iff.mp found
      rw [Tenant.addVm, mem_enlist, listed.mem_iff before]
      exact or_congr_right ⟨fun new => ⟨new.symm, itself⟩, fun new => new.1.symm⟩
    · rename_i another
      simp [listed.mem_iff found, another]
  · intro v m known
    rw [vm?] at known
    split at known
    · cases known
      exact alive live
    · obtain ⟨r, found⟩ := listed.owned known
      exact alive found
  · intro v v' m m' known known' one_tenant same
    exact apart_inserted (fun m m' => m.tenant = m'.tenant ∧ m.name = m'.name)
      (fun both => ⟨both.1.symm, both.2.symm⟩) (fun found found' both =>
        listed.distinct found found' both.1 both.2)
      (fun found both => free found both.1 both.2) vm? known known' ⟨one_tenant, same⟩

/-- A machine enters without flows. -/
theorem FlowsListed.insertVm (listed : s.FlowsListed) (fresh : s.vm? id = none)
    (idle : vm.flows = []) (vm? : ∀ v, s'.vm? v = if id = v then some vm else s.vm? v)
    (flow? : ∀ i, s'.flow? i = s.flow? i) : s'.FlowsListed := by
  -- What names a live machine does not name the new one.
  have kept : ∀ {v m}, s.vm? v = some m → id ≠ v ∧ s'.vm? v = some m := by
    intro v m found
    have other : id ≠ v := by
      rintro rfl
      rw [fresh] at found
      cases found
    exact ⟨other, by rw [vm?, if_neg other, found]⟩
  constructor
  · intro v m known
    rw [vm?] at known
    split at known
    · cases known
      exact idle ▸ List.nodup_nil
    · exact listed.nodup known
  · intro v m i known
    rw [vm?] at known
    rw [flow?]
    split at known
    · rename_i new
      cases known
      rw [idle]
      refine ⟨nofun, ?_⟩
      rintro ⟨f, found, at_end⟩
      obtain ⟨_, _, source, destination, _⟩ := listed.ends found
      rcases at_end with rfl | rfl
      · exact absurd new (kept source).1
      · exact absurd new (kept destination).1
    · exact listed.mem_iff known
  · intro i f found
    rw [flow?] at found
    exact ends_of_tenants (fun known => ⟨_, (kept known).2, rfl⟩) (listed.ends found)
  · intro i j f g found found'
    rw [flow?] at found found'
    exact listed.distinct found found'

end entering

/-- A flow enters the lists of its machines, with a matching that its source has not. -/
theorem FlowsListed.addFlow (listed : s.FlowsListed) {id : FlowId} {flow : Flow K}
    (fresh : s.flow? id = none)
    (ends : ∃ v w, s.vm? flow.source = some v ∧ s.vm? flow.destination = some w ∧
      v.tenant = w.tenant)
    (free : ∀ {i f}, s.flow? i = some f → f.source = flow.source → f.matching ≠ flow.matching)
    (flow? : ∀ i, s'.flow? i = if id = i then some flow else s.flow? i)
    (vm? : ∀ v, s'.vm? v = if flow.source = v ∨ flow.destination = v then
      (s.vm? v).map (VirtualMachine.addFlow id) else s.vm? v) : s'.FlowsListed := by
  have alive : ∀ {v m}, s.vm? v = some m → ∃ m', s'.vm? v = some m' ∧ m'.tenant = m.tenant := by
    intro v m known
    rw [vm?, known]
    split
    · exact ⟨_, rfl, rfl⟩
    · exact ⟨m, rfl, rfl⟩
  constructor
  · intro v m live
    rw [vm?] at live
    split at live
    · obtain ⟨m, before, rfl⟩ := Option.map_eq_some_iff.mp live
      exact nodup_enlist _ (listed.nodup before)
    · exact listed.nodup live
  · intro v m i live
    rw [exists_inserted fresh flow?]
    rw [vm?] at live
    split at live
    · rename_i at_end
      obtain ⟨m, before, rfl⟩ := Option.map_eq_some_iff.mp live
      rw [VirtualMachine.addFlow, mem_enlist, listed.mem_iff before]
      exact or_congr_right ⟨fun new => ⟨new.symm, at_end⟩, fun new => new.1.symm⟩
    · rename_i foreign
      simp [listed.mem_iff live, foreign]
  · intro i f live
    refine ends_of_tenants alive ?_
    rw [flow?] at live
    split at live
    · cases live
      exact ends
    · exact listed.ends live
  · intro i j f g live live' leaves same
    exact apart_inserted (fun f g => f.source = g.source ∧ f.matching = g.matching)
      (fun both => ⟨both.1.symm, both.2.symm⟩) (fun found found' both =>
        listed.distinct found found' both.1 both.2)
      (fun found both => free found both.1 both.2) flow? live live' ⟨leaves, same⟩

/-- A flow goes off the lists of its machines. -/
theorem FlowsListed.removeFlow (listed : s.FlowsListed) {id : FlowId} {flow : Flow K}
    (found : s.flow? id = some flow)
    (flow? : ∀ i, s'.flow? i = if id = i then none else s.flow? i)
    (vm? : ∀ v, s'.vm? v = if flow.source = v ∨ flow.destination = v then
      (s.vm? v).map (VirtualMachine.removeFlow id) else s.vm? v) : s'.FlowsListed := by
  have before : ∀ {i f}, s'.flow? i = some f → s.flow? i = some f := by
    intro i f live
    rw [flow?] at live
    split at live
    · cases live
    · exact live
  have alive : ∀ {v m}, s.vm? v = some m → ∃ m', s'.vm? v = some m' ∧ m'.tenant = m.tenant := by
    intro v m known
    rw [vm?, known]
    split
    · exact ⟨_, rfl, rfl⟩
    · exact ⟨m, rfl, rfl⟩
  have left : ∀ {i} {p : Flow K → Prop}, (∃ f, s'.flow? i = some f ∧ p f) ↔
      (∃ f, s.flow? i = some f ∧ p f) ∧ id ≠ i := by
    intro i p
    rw [flow?]
    by_cases same : id = i <;> simp [same]
  constructor
  · intro v m live
    rw [vm?] at live
    split at live
    · obtain ⟨m, before, rfl⟩ := Option.map_eq_some_iff.mp live
      exact (listed.nodup before).filter _
    · exact listed.nodup live
  · intro v m i live
    rw [left]
    rw [vm?] at live
    split at live
    · obtain ⟨m, before, rfl⟩ := Option.map_eq_some_iff.mp live
      rw [VirtualMachine.removeFlow, mem_delist, listed.mem_iff before]
      exact and_congr_right fun _ => ne_comm
    · rename_i foreign
      rw [listed.mem_iff live]
      refine (and_iff_left_of_imp ?_).symm
      rintro ⟨f, known, its_own⟩ rfl
      rw [found] at known
      cases known
      exact foreign its_own
  · intro i f live
    exact ends_of_tenants alive (listed.ends (before live))
  · intro i j f g live live'
    exact listed.distinct (before live) (before live')

section leaving
variable {vms : List VmId}

/-- Machines go off the lists of their tenants, and tenants whose machines all go may go. -/
theorem MachinesListed.retain (listed : s.MachinesListed) {gone : List TenantId}
    (tenant? : ∀ i, s'.tenant? i = if i ∈ gone then none
      else (s.tenant? i).map fun r => { r with vms := r.vms.filter (· ∉ vms) })
    (vm? : ∀ v, s'.vm? v = if v ∈ vms then none else s.vm? v)
    (left : ∀ {v m}, s.vm? v = some m → m.tenant ∈ gone → v ∈ vms) : s'.MachinesListed := by
  have tenant_before : ∀ {i r'}, s'.tenant? i = some r' →
      ∃ r, s.tenant? i = some r ∧ r' = { r with vms := r.vms.filter (· ∉ vms) } := by
    intro i r' live
    rw [tenant?] at live
    split at live
    · cases live
    · obtain ⟨r, before, rfl⟩ := Option.map_eq_some_iff.mp live
      exact ⟨r, before, rfl⟩
  have vm_iff : ∀ {v m}, s'.vm? v = some m ↔ s.vm? v = some m ∧ v ∉ vms := by
    intro v m
    rw [vm?]
    by_cases named : v ∈ vms <;> simp [named]
  constructor
  · intro i r' live
    obtain ⟨r, before, rfl⟩ := tenant_before live
    exact (listed.nodup before).filter _
  · intro i r' v live
    obtain ⟨r, before, rfl⟩ := tenant_before live
    simp only [List.mem_filter, decide_eq_true_eq, listed.mem_iff before, vm_iff]
    constructor
    · rintro ⟨⟨m, found, its_tenant⟩, kept⟩
      exact ⟨m, ⟨found, kept⟩, its_tenant⟩
    · rintro ⟨m, ⟨found, kept⟩, its_tenant⟩
      exact ⟨⟨m, found, its_tenant⟩, kept⟩
  · intro v m live
    obtain ⟨before, kept⟩ := vm_iff.mp live
    obtain ⟨r, found⟩ := listed.owned before
    rw [tenant?, if_neg fun its_tenant => kept (left before its_tenant), found]
    exact ⟨_, rfl⟩
  · intro v v' m m' live live'
    exact listed.distinct (vm_iff.mp live).1 (vm_iff.mp live').1

/-- Machines without flows may go. -/
theorem FlowsListed.retain (listed : s.FlowsListed)
    (vm? : ∀ v, s'.vm? v = if v ∈ vms then none else s.vm? v)
    (flow? : ∀ i, s'.flow? i = s.flow? i)
    (idle : ∀ {i f}, s.flow? i = some f → f.source ∉ vms ∧ f.destination ∉ vms) :
    s'.FlowsListed := by
  have before : ∀ {v m}, s'.vm? v = some m → s.vm? v = some m := by
    intro v m live
    rw [vm?] at live
    split at live
    · cases live
    · exact live
  constructor
  · intro v m live
    exact listed.nodup (before live)
  · intro v m id live
    rw [flow?]
    exact listed.mem_iff (before live)
  · intro id f live
    rw [flow?] at live
    obtain ⟨starts, arrives⟩ := idle live
    rw [vm?, vm?, if_neg starts, if_neg arrives]
    exact listed.ends live
  · intro i j f g live live'
    rw [flow?] at live live'
    exact listed.distinct live live'

end leaving

/-- Machines without flows go off the lists of their tenants, and tenants without machines may
go. -/
theorem Registered.retain (registered : s.Registered) (gone : List TenantId) (vms : List VmId)
    (tenant? : ∀ i, s'.tenant? i = if i ∈ gone then none
      else (s.tenant? i).map fun r => { r with vms := r.vms.filter (· ∉ vms) })
    (vm? : ∀ v, s'.vm? v = if v ∈ vms then none else s.vm? v)
    (flow? : ∀ i, s'.flow? i = s.flow? i)
    (left : ∀ {v m}, s.vm? v = some m → m.tenant ∈ gone → v ∈ vms)
    (idle : ∀ {i f}, s.flow? i = some f → f.source ∉ vms ∧ f.destination ∉ vms) :
    s'.Registered := by
  refine ⟨registered.tenants.of_names fun {i r'} live => ?_,
    registered.machines.retain tenant? vm? left, registered.flows.retain vm? flow? idle⟩
  rw [tenant?] at live
  split at live
  · cases live
  · obtain ⟨r, before, rfl⟩ := Option.map_eq_some_iff.mp live
    exact ⟨r, before, rfl⟩

theorem Registered.congr (registered : s.Registered)
    (tenants : ∀ t, s'.tenant? t = s.tenant? t) (vms : ∀ v, s'.vm? v = s.vm? v)
    (flows : ∀ i, (s'.flow? i).map Flow.entry = (s.flow? i).map Flow.entry) :
    s'.Registered := by
  refine ⟨registered.tenants.of_names ?_, registered.machines.congr tenants fun v => ?_,
    registered.flows.congr (fun v => ?_) flows⟩
  · intro t r live
    rw [tenants] at live
    exact ⟨r, live, rfl⟩
  · rw [vms]
  · rw [vms]

theorem Registered.of_get? (registered : s.Registered)
    (same : ∀ (k : Kind) (h : Handle k), s'.get? h = s.get? h) : s'.Registered :=
  registered.congr (same .tenant) (same .vm) fun i => congrArg _ (same .flow i)

/-- A moved flow keeps its ends and its matching. -/
theorem Rerouted.entry {moved : List FlowId} (rerouted : Rerouted moved s s') (i : FlowId) :
    (s'.flow? i).map Flow.entry = (s.flow? i).map Flow.entry := by
  by_cases listed : i ∈ moved
  · obtain ⟨f, _, _, _, _, live, _, _, now, _⟩ := rerouted.moved listed
    rw [live, now]
    rfl
  · cases live : s.flow? i with
    | none => rw [rerouted.flows i live]
    | some f => rw [(rerouted.kept listed live).1]

theorem Registered.of_rerouted (registered : s.Registered) {moved : List FlowId}
    (rerouted : Rerouted moved s s') : s'.Registered :=
  registered.congr rerouted.tenants rerouted.vms rerouted.entry

end Store
end FlowAdmission
