import Mathlib.Algebra.Order.Ring.Rat
import Mathlib.Algebra.Order.Field.Rat
import Mathlib.Algebra.BigOperators.Group.List.Basic
import Mathlib.Algebra.Order.BigOperators.Group.List
import FlowAdmission.Quantity

/-!
# Arithmetic without rounding

Laws of numbers are stated for types that hold the rationals and reckon with them exactly. Such a
type may have further values, infinite ones for instance, of which nothing is asked.

Amounts are the rationals among its values that are not negative. Sums of amounts do not depend
on their order (`total_perm`), and a summand can be taken out again (`remainder_total_cons`).

Where amounts are compared with other values, the laws of comparison are asked of these as well
(`Exact.Ordered`). Where only whole numbers occur, it is enough that these are exact up to a bound
(`WholeUpTo`).
-/
namespace FlowAdmission

/-- Sums and products of whole numbers are exact as long as they and the numbers themselves stay
within the bound. Doubles reckon so up to 2^53 (`Double.wholeUpTo`). -/
structure WholeUpTo (K : Type) [Quantity K] (bound : ℕ) : Prop where
  zero : (0 : K) = ((0 : ℕ) : K)
  one : (1 : K) = ((1 : ℕ) : K)
  add {m n : ℕ} : m + n ≤ bound → (m : K) + (n : K) = ((m + n : ℕ) : K)
  mul {m n : ℕ} : m ≤ bound → n ≤ bound → m * n ≤ bound → (m : K) * (n : K) = ((m * n : ℕ) : K)
  lt_iff {m n : ℕ} : m ≤ bound → n ≤ bound → ((m : K) < (n : K) ↔ m < n)

/-- A value that stands for a whole number which is reckoned with exactly. -/
def StandsFor {K : Type} [Quantity K] (bound : ℕ) (c : K) (x : ℚ) : Prop :=
  ∃ n : ℕ, n ≤ bound ∧ c = (n : K) ∧ x = (n : ℚ)

namespace StandsFor
variable {K : Type} [Quantity K] {bound : ℕ} {c c' : K} {x x' : ℚ}

theorem zero (whole : WholeUpTo K bound) : StandsFor bound (0 : K) 0 :=
  ⟨0, Nat.zero_le _, whole.zero, Nat.cast_zero.symm⟩

theorem add (whole : WholeUpTo K bound) (first : StandsFor bound c x)
    (second : StandsFor bound c' x') (fits : x + x' ≤ (bound : ℚ)) :
    StandsFor bound (c + c') (x + x') := by
  obtain ⟨n, _, rfl, rfl⟩ := first
  obtain ⟨m, _, rfl, rfl⟩ := second
  have fits : n + m ≤ bound := by exact_mod_cast fits
  exact ⟨n + m, fits, whole.add fits, (Nat.cast_add n m).symm⟩

theorem lt_iff (whole : WholeUpTo K bound) (first : StandsFor bound c x)
    (second : StandsFor bound c' x') : c < c' ↔ x < x' := by
  obtain ⟨n, small, rfl, rfl⟩ := first
  obtain ⟨m, small', rfl, rfl⟩ := second
  rw [whole.lt_iff small small', Nat.cast_lt]

theorem unique (first : StandsFor bound c x) (second : StandsFor bound c' x) : c = c' := by
  obtain ⟨n, _, rfl, rfl⟩ := first
  obtain ⟨m, _, rfl, same⟩ := second
  rw [Nat.cast_injective same]

end StandsFor

/-- The rationals as values of `K`, with the operations of `K` exact on them. -/
class Exact (K : Type) [Quantity K] where
  value : ℚ → K
  value_zero : value 0 = 0
  value_one : value 1 = 1
  value_natCast (n : ℕ) : value n = (n : K)
  value_add (x y : ℚ) : value (x + y) = value x + value y
  value_sub (x y : ℚ) : value (x - y) = value x - value y
  value_mul (x y : ℚ) : value (x * y) = value x * value y
  value_div (x y : ℚ) (nonzero : y ≠ 0) : value (x / y) = value x / value y
  value_lt (x y : ℚ) : value x < value y ↔ x < y
  value_le (x y : ℚ) : value x ≤ value y ↔ x ≤ y

instance : Quantity ℚ where
  decideLt := inferInstance
  decideLe := inferInstance

instance : Exact ℚ where
  value := id
  value_zero := rfl
  value_one := rfl
  value_natCast _ := rfl
  value_add _ _ := rfl
  value_sub _ _ := rfl
  value_mul _ _ := rfl
  value_div _ _ _ := rfl
  value_lt _ _ := Iff.rfl
  value_le _ _ := Iff.rfl

namespace Exact
variable {K : Type} [Quantity K] [Exact K]

/-- Where rationals are exact, so are all whole numbers. -/
theorem wholeUpTo (bound : ℕ) : WholeUpTo K bound where
  zero := by rw [← value_natCast, Nat.cast_zero, value_zero]
  one := by rw [← value_natCast, Nat.cast_one, value_one]
  add {m n} _ := by
    rw [← value_natCast (K := K) m, ← value_natCast (K := K) n, ← value_natCast (K := K) (m + n),
      ← value_add, Nat.cast_add]
  mul {m n} _ _ _ := by
    rw [← value_natCast (K := K) m, ← value_natCast (K := K) n, ← value_natCast (K := K) (m * n),
      ← value_mul, Nat.cast_mul]
  lt_iff {m n} _ _ := by
    rw [← value_natCast (K := K) m, ← value_natCast (K := K) n, value_lt, Nat.cast_lt]

/-- A rational that is not negative. -/
def IsAmount (x : K) : Prop := ∃ q : ℚ, 0 ≤ q ∧ x = value q

theorem isAmount_natCast (n : ℕ) : IsAmount (n : K) :=
  ⟨n, Nat.cast_nonneg n, (value_natCast n).symm⟩

theorem IsAmount.div_natCast {x : K} (amount : IsAmount x) {n : ℕ} (positive : 0 < n) :
    IsAmount (x / (n : K)) := by
  obtain ⟨q, nonneg, rfl⟩ := amount
  have nonzero : (n : ℚ) ≠ 0 := Nat.cast_ne_zero.mpr (Nat.pos_iff_ne_zero.mp positive)
  refine ⟨q / n, div_nonneg nonneg (Nat.cast_nonneg n), ?_⟩
  rw [value_div q n nonzero, value_natCast]

/-- Amounts are the values of a list of rationals. -/
theorem exists_values {xs : List K} (amounts : ∀ x ∈ xs, IsAmount x) :
    ∃ qs : List ℚ, xs = qs.map value ∧ ∀ q ∈ qs, 0 ≤ q := by
  induction xs with
  | nil => exact ⟨[], rfl, by simp⟩
  | cons x rest ih =>
    obtain ⟨q, nonneg, rfl⟩ := amounts x List.mem_cons_self
    obtain ⟨qs, rfl, rest_nonneg⟩ := ih fun y hy => amounts y (List.mem_cons_of_mem _ hy)
    exact ⟨q :: qs, rfl, List.forall_mem_cons.mpr ⟨nonneg, rest_nonneg⟩⟩

theorem total_values (qs : List ℚ) : Weight.total (qs.map value : List K) = value qs.sum := by
  have summed : ∀ q : ℚ, (qs.map value : List K).foldl (· + ·) (value q) = value (q + qs.sum) := by
    induction qs with
    | nil => simp
    | cons p rest ih =>
      intro q
      rw [List.map_cons, List.foldl_cons, ← value_add, ih, List.sum_cons, add_assoc]
  rw [Weight.total, ← value_zero, summed, zero_add]

theorem value_injective : Function.Injective (value : ℚ → K) := by
  intro x y same
  have incomparable : ∀ a b : ℚ, (value a : K) = value b → ¬ a < b := by
    intro a b equal less
    have strict := (value_lt (K := K) a b).mpr less
    rw [equal, value_lt] at strict
    exact lt_irrefl b strict
  exact le_antisymm (not_lt.mp (incomparable y x same.symm)) (not_lt.mp (incomparable x y same))

/-- The order of the summands does not matter. -/
theorem total_perm {xs ys : List K} (amounts : ∀ x ∈ xs, IsAmount x) (perm : xs.Perm ys) :
    Weight.total xs = Weight.total ys := by
  obtain ⟨qs, rfl, _⟩ := exists_values amounts
  obtain ⟨ps, rfl, _⟩ := exists_values fun y hy => amounts y (perm.mem_iff.mpr hy)
  have same : qs.Perm ps := (List.map_perm_map_iff value_injective).mp perm
  rw [total_values, total_values, same.sum_eq]

/-- A summand in front is added as well as one behind. -/
theorem total_cons {x : K} {xs : List K} (amounts : ∀ y ∈ x :: xs, IsAmount y) :
    Weight.total (x :: xs) = Weight.total xs + x := by
  obtain ⟨qs, equal, _⟩ := exists_values amounts
  cases qs with
  | nil => cases equal
  | cons q qs =>
    rw [List.map_cons, List.cons.injEq] at equal
    obtain ⟨rfl, rfl⟩ := equal
    rw [← List.map_cons, total_values, total_values, List.sum_cons, add_comm, value_add]

/-- What is left of a sum of amounts without one of them is the sum of the others. -/
theorem remainder_total_cons {x : K} {xs : List K} (amounts : ∀ y ∈ x :: xs, IsAmount y) :
    Quantity.remainder (Weight.total (x :: xs) - x) = Weight.total xs := by
  obtain ⟨qs, equal, nonneg⟩ := exists_values amounts
  cases qs with
  | nil => cases equal
  | cons q qs =>
    rw [List.map_cons, List.cons.injEq] at equal
    obtain ⟨rfl, rfl⟩ := equal
    have rest : 0 ≤ qs.sum :=
      List.sum_nonneg fun p hp => nonneg p (List.mem_cons_of_mem _ hp)
    rw [← List.map_cons, total_values, total_values, ← value_sub, List.sum_cons,
      add_sub_cancel_left]
    have positive := value_lt (K := K) 0 qs.sum
    rw [value_zero] at positive
    unfold Quantity.remainder
    by_cases some_left : 0 < qs.sum
    · rw [if_pos (positive.mpr some_left)]
    · have none_left : qs.sum = 0 := le_antisymm (not_lt.mp some_left) rest
      rw [if_neg (mt positive.mp some_left), none_left, value_zero]

/-- What is left of a list of amounts sums up to no more. -/
theorem total_le_append {xs ys : List K} (amounts : ∀ x ∈ xs ++ ys, IsAmount x) :
    Weight.total ys ≤ Weight.total (xs ++ ys) := by
  obtain ⟨qs, rfl, nonneg⟩ := exists_values fun x mem => amounts x (List.mem_append_left _ mem)
  obtain ⟨ps, rfl, _⟩ := exists_values fun y mem => amounts y (List.mem_append_right _ mem)
  rw [← List.map_append, total_values, total_values, List.sum_append, value_le]
  exact le_add_of_nonneg_left (List.sum_nonneg nonneg)

/-- All values are compared as numbers are: comparisons are transitive, and the product of positive
values is not negative. -/
class Ordered (K : Type) [Quantity K] extends Exact K where
  le_trans {x y z : K} : x ≤ y → y ≤ z → x ≤ z
  le_of_lt {x y : K} : x < y → x ≤ y
  mul_nonneg {x y : K} : 0 < x → 0 < y → 0 ≤ x * y

instance : Ordered ℚ where
  le_trans first second := Rat.le_trans first second
  le_of_lt less := Rat.le_of_lt less
  mul_nonneg first second := Rat.mul_nonneg (Rat.le_of_lt first) (Rat.le_of_lt second)

/-- An even share is positive. -/
theorem share_pos {n : ℕ} (positive : 0 < n) : (0 : K) < 1 / (n : K) := by
  have cast : (0 : ℚ) < n := Nat.cast_pos.mpr positive
  rw [← value_natCast, ← value_one, ← value_zero, ← value_div _ _ (ne_of_gt cast), value_lt]
  exact one_div_pos.mpr cast

end Exact
end FlowAdmission
