import FlowAdmission.Store.Roster
import FlowAdmission.Tenancy

/-!
# The store

One roster per kind of record, the crossings of queue edges by routed requests, and the read locks
that are held. Records of one kind are untouched by changes to another (`get?_put_of_ne`), and
crossings and records do not touch each other (`crossings_setRoster`, `get?_addCrossings`).
-/
namespace FlowAdmission

/-- What is stored under a handle of each kind. -/
abbrev Record (K : Type) : Kind → Type
  | .tenant => Tenant
  | .vm => VirtualMachine
  | .flow => Flow K
  | .request => Booking K

/-- A request whose path runs over an edge. -/
structure Crossing where
  edge : EdgeId
  request : RequestId
  deriving DecidableEq

namespace Crossing

/-- By edge, then by request. -/
instance : Ord Crossing := ⟨compareLex (compareOn edge) (compareOn request)⟩

instance : Std.TransOrd Crossing :=
  inferInstanceAs (Std.TransCmp (compareLex (compareOn edge) (compareOn request)))

instance : Std.LawfulEqOrd Crossing where
  eq_of_compare {a b} h := by
    obtain ⟨he, hr⟩ := compareLex_eq_eq.mp h
    cases a; cases b
    cases Nat.compare_eq_eq.mp he
    cases Std.LawfulEqOrd.eq_of_compare hr
    rfl

end Crossing

structure Store (K : Type) where
  tenants : Roster Tenant
  vms : Roster VirtualMachine
  flows : Roster (Flow K)
  requests : Roster (Booking K)
  /-- Which requests run over which queue edges. -/
  crossings : Std.ExtTreeSet Crossing
  /-- One entry per lock held, newest first. -/
  locks : List AnyHandle

namespace Store
variable {K : Type} {k : Kind}

def empty : Store K := ⟨.empty, .empty, .empty, .empty, ∅, []⟩

def roster (s : Store K) : (k : Kind) → Roster (Record K k)
  | .tenant => s.tenants
  | .vm => s.vms
  | .flow => s.flows
  | .request => s.requests

def setRoster (s : Store K) : (k : Kind) → Roster (Record K k) → Store K
  | .tenant, a => { s with tenants := a }
  | .vm, a => { s with vms := a }
  | .flow, a => { s with flows := a }
  | .request, a => { s with requests := a }

def get? (s : Store K) (h : Handle k) : Option (Record K k) := (s.roster k).get? h.index

def tenant? (s : Store K) (h : TenantId) : Option Tenant := s.get? h

def vm? (s : Store K) (h : VmId) : Option VirtualMachine := s.get? h

def flow? (s : Store K) (h : FlowId) : Option (Flow K) := s.get? h

def request? (s : Store K) (h : RequestId) : Option (Booking K) := s.get? h

def contains (s : Store K) (h : Handle k) : Bool := (s.get? h).isSome

/-- Handles of the live records of a kind, in order of creation. -/
def handles (s : Store K) (k : Kind) : List (Handle k) := (s.roster k).indices.map .mk

def insert (s : Store K) (r : Record K k) : Handle k × Store K :=
  let (index, a) := (s.roster k).insert r
  (⟨index⟩, s.setRoster k a)

def put (s : Store K) (h : Handle k) (r : Record K k) : Store K :=
  s.setRoster k ((s.roster k).put h.index r)

def erase (s : Store K) (h : Handle k) : Store K := s.setRoster k ((s.roster k).erase h.index)

/-- Live requests that hold a path. -/
def routedRequests (s : Store K) : List RequestId :=
  (s.handles .request).filter fun id => (s.request? id).any (·.path.isSome)

/-- Requests that run over an edge, in order of creation. -/
def requestsOn (s : Store K) (e : EdgeId) : List RequestId :=
  (s.crossings.toList.filter (·.edge == e)).map (·.request)

/-- Enters a request on every edge of a path. -/
def addCrossings (s : Store K) (request : RequestId) (path : Path) : Store K :=
  { s with
    crossings := path.foldl (fun crossings e => crossings.insert ⟨e, request⟩) s.crossings }

/-- Strikes a request off every edge of a path. -/
def removeCrossings (s : Store K) (request : RequestId) (path : Path) : Store K :=
  { s with
    crossings := path.foldl (fun crossings e => crossings.erase ⟨e, request⟩) s.crossings }

def isLocked (s : Store K) (h : Handle k) : Bool := s.locks.contains h.any

def lockCount (s : Store K) : Nat := s.locks.length

@[simp] theorem roster_setRoster (s : Store K) (a : Roster (Record K k)) :
    (s.setRoster k a).roster k = a := by
  cases k <;> rfl

theorem roster_setRoster_of_ne (s : Store K) {j : Kind} (a : Roster (Record K k)) (h : j ≠ k) :
    (s.setRoster k a).roster j = s.roster j := by
  cases k <;> cases j <;> simp_all [roster, setRoster]

@[simp] theorem crossings_setRoster (s : Store K) (a : Roster (Record K k)) :
    (s.setRoster k a).crossings = s.crossings := by
  cases k <;> rfl

@[simp] theorem locks_setRoster (s : Store K) (a : Roster (Record K k)) :
    (s.setRoster k a).locks = s.locks := by
  cases k <;> rfl

theorem get?_put (s : Store K) (h i : Handle k) (r : Record K k) :
    (s.put h r).get? i = if h = i then some r else s.get? i := by
  cases h; cases i
  simp [put, get?, Roster.get?_put]

theorem get?_erase (s : Store K) (h i : Handle k) :
    (s.erase h).get? i = if h = i then none else s.get? i := by
  cases h; cases i
  simp [erase, get?, Roster.get?_erase]

theorem get?_put_of_ne (s : Store K) {j : Kind} (h : Handle k) (i : Handle j) (r : Record K k)
    (hk : j ≠ k) : (s.put h r).get? i = s.get? i := by
  simp [put, get?, roster_setRoster_of_ne _ _ hk]

theorem get?_erase_of_ne (s : Store K) {j : Kind} (h : Handle k) (i : Handle j) (hk : j ≠ k) :
    (s.erase h).get? i = s.get? i := by
  simp [erase, get?, roster_setRoster_of_ne _ _ hk]

/-- A new record stands under the number that was next, and nothing else changes. -/
theorem get?_insert (s : Store K) (r : Record K k) (i : Handle k) :
    (s.insert r).2.get? i = if (s.roster k).next = i.index then some r else s.get? i := by
  simp [insert, get?, Roster.get?_insert]

theorem mem_handles {s : Store K} {h : Handle k} : h ∈ s.handles k ↔ (s.get? h).isSome := by
  simp only [handles, List.mem_map, Roster.mem_indices]
  exact ⟨fun ⟨_, live, same⟩ => same ▸ live, fun live => ⟨h.index, live, rfl⟩⟩

theorem mem_requestsOn {s : Store K} {e : EdgeId} {id : RequestId} :
    id ∈ s.requestsOn e ↔ ⟨e, id⟩ ∈ s.crossings := by
  simp only [requestsOn, List.mem_map, List.mem_filter, Std.ExtTreeSet.mem_toList, beq_iff_eq]
  constructor
  · rintro ⟨⟨_, _⟩, ⟨h, rfl⟩, rfl⟩
    exact h
  · exact fun h => ⟨⟨e, id⟩, ⟨h, rfl⟩, rfl⟩

theorem mem_crossings_addCrossings {s : Store K} {id : RequestId} {path : Path} {c : Crossing} :
    c ∈ (s.addCrossings id path).crossings ↔
      c ∈ s.crossings ∨ (c.edge ∈ path ∧ c.request = id) := by
  have entered : ∀ crossings : Std.ExtTreeSet Crossing,
      c ∈ path.foldl (fun crossings e => crossings.insert ⟨e, id⟩) crossings ↔
        c ∈ crossings ∨ (c.edge ∈ path ∧ c.request = id) := by
    induction path with
    | nil => simp
    | cons e rest ih =>
      intro crossings
      rw [List.foldl_cons, ih, Std.ExtTreeSet.mem_insert, Std.LawfulEqOrd.compare_eq_iff_eq]
      cases c
      grind
  exact entered s.crossings

theorem mem_crossings_removeCrossings {s : Store K} {id : RequestId} {path : Path}
    {c : Crossing} :
    c ∈ (s.removeCrossings id path).crossings ↔
      c ∈ s.crossings ∧ ¬(c.edge ∈ path ∧ c.request = id) := by
  have struck : ∀ crossings : Std.ExtTreeSet Crossing,
      c ∈ path.foldl (fun crossings e => crossings.erase ⟨e, id⟩) crossings ↔
        c ∈ crossings ∧ ¬(c.edge ∈ path ∧ c.request = id) := by
    induction path with
    | nil => simp
    | cons e rest ih =>
      intro crossings
      rw [List.foldl_cons, ih, Std.ExtTreeSet.mem_erase]
      cases c
      grind [Std.LawfulEqOrd.compare_eq_iff_eq]
  exact struck s.crossings

@[simp] theorem roster_withLocks (s : Store K) (locks : List AnyHandle) :
    ({ s with locks } : Store K).roster k = s.roster k := by
  cases k <;> rfl

@[simp] theorem get?_withLocks (s : Store K) (locks : List AnyHandle) (h : Handle k) :
    ({ s with locks } : Store K).get? h = s.get? h := by
  cases k <;> rfl

@[simp] theorem roster_addCrossings (s : Store K) (id : RequestId) (path : Path) :
    (s.addCrossings id path).roster k = s.roster k := by
  cases k <;> rfl

@[simp] theorem roster_removeCrossings (s : Store K) (id : RequestId) (path : Path) :
    (s.removeCrossings id path).roster k = s.roster k := by
  cases k <;> rfl

/-- Of the counters only that of the new record's kind moves on. -/
theorem next_insert (s : Store K) (r : Record K k) (j : Kind) :
    ((s.insert r).2.roster j).next = (s.roster j).next + if j = k then 1 else 0 := by
  by_cases h : j = k
  · subst h
    simp [insert, Roster.insert]
  · simp [insert, roster_setRoster_of_ne _ _ h, h]

@[simp] theorem next_put (s : Store K) (h : Handle k) (r : Record K k) (j : Kind) :
    ((s.put h r).roster j).next = (s.roster j).next := by
  by_cases hk : j = k
  · subst hk
    simp [put, Roster.put]
  · simp [put, roster_setRoster_of_ne _ _ hk]

@[simp] theorem next_erase (s : Store K) (h : Handle k) (j : Kind) :
    ((s.erase h).roster j).next = (s.roster j).next := by
  by_cases hk : j = k
  · subst hk
    simp [erase, Roster.erase]
  · simp [erase, roster_setRoster_of_ne _ _ hk]

theorem get?_insert_of_ne (s : Store K) {j : Kind} (r : Record K k) (i : Handle j) (hk : j ≠ k) :
    (s.insert r).2.get? i = s.get? i := by
  simp [insert, get?, roster_setRoster_of_ne _ _ hk]

@[simp] theorem crossings_put (s : Store K) (h : Handle k) (r : Record K k) :
    (s.put h r).crossings = s.crossings := crossings_setRoster s _

@[simp] theorem crossings_erase (s : Store K) (h : Handle k) :
    (s.erase h).crossings = s.crossings := crossings_setRoster s _

@[simp] theorem crossings_insert (s : Store K) (r : Record K k) :
    (s.insert r).2.crossings = s.crossings := crossings_setRoster s _

@[simp] theorem get?_addCrossings (s : Store K) (id : RequestId) (path : Path) (h : Handle k) :
    (s.addCrossings id path).get? h = s.get? h := by
  cases k <;> rfl

@[simp] theorem get?_removeCrossings (s : Store K) (id : RequestId) (path : Path)
    (h : Handle k) : (s.removeCrossings id path).get? h = s.get? h := by
  cases k <;> rfl

end Store
end FlowAdmission
