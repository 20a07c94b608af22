import Std.Data.ExtTreeMap

/-!
# Rosters

A roster gives out each number once, also when the entry under it goes away again. Every operation
is known by the look-ups it leaves (`get?_insert`, `get?_put`, `get?_erase`).
-/
namespace FlowAdmission

structure Roster (α : Type) where
  /-- The number of the next entry. -/
  next : Nat
  entries : Std.ExtTreeMap Nat α

namespace Roster
variable {α : Type}

def empty : Roster α := ⟨0, ∅⟩

/-- Enters a new value and tells its number. -/
def insert (r : Roster α) (value : α) : Nat × Roster α :=
  (r.next, ⟨r.next + 1, r.entries.insert r.next value⟩)

/-- Enters a value under a number that was given out before. -/
def put (r : Roster α) (index : Nat) (value : α) : Roster α :=
  { r with entries := r.entries.insert index value }

def erase (r : Roster α) (index : Nat) : Roster α := { r with entries := r.entries.erase index }

def get? (r : Roster α) (index : Nat) : Option α := r.entries[index]?

/-- Numbers in use, in order of creation. -/
def indices (r : Roster α) : List Nat := r.entries.keys

@[simp] theorem get?_empty (i : Nat) : (empty : Roster α).get? i = none := by
  simp [empty, get?]

theorem get?_insert (r : Roster α) (value : α) (i : Nat) :
    (r.insert value).2.get? i = if r.next = i then some value else r.get? i := by
  simp only [insert, get?, Std.ExtTreeMap.getElem?_insert, Nat.compare_eq_eq]

theorem get?_put (r : Roster α) (index : Nat) (value : α) (i : Nat) :
    (r.put index value).get? i = if index = i then some value else r.get? i := by
  simp only [put, get?, Std.ExtTreeMap.getElem?_insert, Nat.compare_eq_eq]

theorem get?_erase (r : Roster α) (index i : Nat) :
    (r.erase index).get? i = if index = i then none else r.get? i := by
  simp only [erase, get?, Std.ExtTreeMap.getElem?_erase, Nat.compare_eq_eq]

theorem mem_indices {r : Roster α} {i : Nat} : i ∈ r.indices ↔ (r.get? i).isSome := by
  simp [indices, get?]

/-- Rosters with the same entries and the same next number are equal. -/
theorem ext_get? {r s : Roster α} (next : r.next = s.next) (entries : ∀ i, r.get? i = s.get? i) :
    r = s := by
  cases r; cases s
  cases next
  congr
  exact Std.ExtTreeMap.ext_getElem? entries

end Roster
end FlowAdmission
