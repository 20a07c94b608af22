import FlowAdmission.Store.Transaction
import Mathlib.Data.List.Perm.Basic

/-!
# What the live requests hold

The live requests as a list, and the paths among them. The order of the list never matters: an
entry that is taken out or replaced changes the list by itself alone, up to a permutation
(`listed_perm_erase`, `outstanding_erase`, `outstanding_put`).
-/
namespace FlowAdmission
namespace Roster
variable {α : Type}

/-- The entries with their numbers, in order of creation. -/
def listed (r : Roster α) : List (Nat × α) := r.entries.toList

theorem mem_listed {r : Roster α} {i : Nat} {v : α} :
    (i, v) ∈ r.listed ↔ r.get? i = some v := by
  simp [listed, get?, Std.ExtTreeMap.mem_toList_iff_getElem?_eq_some]

theorem nodup_listed (r : Roster α) : r.listed.Nodup := by
  apply r.entries.distinct_keys_toList.imp
  intro a b apart same
  subst same
  simp at apart

/-- An entry stands in the list once; taking it out leaves the others. -/
theorem listed_perm_erase {r : Roster α} {i : Nat} {v : α} (found : r.get? i = some v) :
    r.listed.Perm ((i, v) :: (r.erase i).listed) := by
  have absent : (i, v) ∉ (r.erase i).listed := by simp [mem_listed, get?_erase]
  refine (List.perm_ext_iff_of_nodup r.nodup_listed
    (List.nodup_cons.mpr ⟨absent, (r.erase i).nodup_listed⟩)).mpr ?_
  rintro ⟨j, w⟩
  by_cases hj : i = j
  · subst hj
    simp [mem_listed, get?_erase, found, eq_comm]
  · simp [mem_listed, get?_erase, hj, Ne.symm hj]

theorem erase_put (r : Roster α) (i : Nat) (v : α) : (r.put i v).erase i = r.erase i := by
  refine ext_get? rfl fun j => ?_
  by_cases h : i = j <;> simp [get?_erase, get?_put, h]

/-- Taking out what is not there changes nothing. -/
theorem erase_of_get?_eq_none {r : Roster α} {i : Nat} (h : r.get? i = none) : r.erase i = r := by
  refine ext_get? rfl fun j => ?_
  by_cases hj : i = j
  · subst hj
    simp [get?_erase, h]
  · simp [get?_erase, hj]

end Roster

variable {K : Type}

/-- The path of a routed request with the request. -/
def Booking.held? (b : Booking K) : Option (Path × Request K) := b.path.map (·, b.request)

/-- How often the path of a request runs over an edge. -/
def Booking.crossingsAt (b : Booking K) (e : EdgeId) : Nat := (b.path.getD []).count e

namespace Store

/-- Live requests, in order of creation. -/
def bookings (s : Store K) : List (Booking K) := s.requests.listed.map (·.2)

/-- The paths of the live requests, each with its request. -/
def outstanding (s : Store K) : List (Path × Request K) := s.bookings.filterMap Booking.held?

theorem mem_bookings {s : Store K} {b : Booking K} :
    b ∈ s.bookings ↔ ∃ id, s.request? id = some b := by
  simp only [bookings, List.mem_map, Prod.exists, exists_eq_right, Roster.mem_listed]
  constructor
  · rintro ⟨i, found⟩
    exact ⟨⟨i⟩, found⟩
  · rintro ⟨⟨i⟩, found⟩
    exact ⟨i, found⟩

theorem mem_outstanding {s : Store K} {item : Path × Request K} :
    item ∈ s.outstanding ↔
      ∃ id b, s.request? id = some b ∧ b.path = some item.1 ∧ b.request = item.2 := by
  obtain ⟨path, request⟩ := item
  simp only [outstanding, List.mem_filterMap, mem_bookings, Booking.held?, Option.map_eq_some_iff,
    Prod.mk.injEq]
  constructor
  · rintro ⟨b, ⟨id, live⟩, p, hp, rfl, rfl⟩
    exact ⟨id, b, live, hp, rfl⟩
  · rintro ⟨id, b, live, hp, hr⟩
    exact ⟨b, ⟨id, live⟩, path, hp, rfl, hr⟩

@[simp] theorem outstanding_empty : (empty : Store K).outstanding = [] := by
  simp [outstanding, bookings, empty, Roster.listed, Roster.empty]

/-- The paths held depend on the entries of the requests alone. -/
theorem outstanding_congr {s s' : Store K} (same : s'.requests.entries = s.requests.entries) :
    s'.outstanding = s.outstanding := by
  simp [outstanding, bookings, Roster.listed, same]

/-- A live request holds its own path and leaves the rest to the others. -/
theorem outstanding_erase {s : Store K} {id : RequestId} {b : Booking K}
    (live : s.request? id = some b) :
    s.outstanding.Perm (b.held?.toList ++ (s.erase id).outstanding) := by
  have listed := (Roster.listed_perm_erase (r := s.requests) live).map (·.2)
  have held := listed.filterMap Booking.held?
  cases hb : b.held? with
  | none => simpa [outstanding, bookings, hb, erase, setRoster, roster] using held
  | some item => simpa [outstanding, bookings, hb, erase, setRoster, roster] using held

/-- What a request is replaced with holds its path in place of the old one. -/
theorem outstanding_put (s : Store K) (id : RequestId) (b : Booking K) :
    (s.put id b).outstanding.Perm (b.held?.toList ++ (s.erase id).outstanding) := by
  have live : (s.put id b).request? id = some b := by simp [request?, get?_put]
  have taken := outstanding_erase live
  have same : ((s.put id b).erase id).requests = (s.erase id).requests :=
    s.requests.erase_put id.index b
  rwa [outstanding_congr (congrArg Roster.entries same)] at taken

/-- Taking out a request that is not live changes nothing. -/
theorem outstanding_erase_of_get?_eq_none {s : Store K} {id : RequestId}
    (absent : s.request? id = none) : (s.erase id).outstanding = s.outstanding :=
  outstanding_congr (congrArg Roster.entries (Roster.erase_of_get?_eq_none absent))

end Store
end FlowAdmission
