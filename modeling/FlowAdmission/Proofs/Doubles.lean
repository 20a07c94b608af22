import Mathlib.Algebra.Order.Ring.Int
import Mathlib.Tactic.Ring

/-!
# Doubles in their order

The bits of a double that is not negative, read as a number, tell its place among these doubles
(`lt_iff`). A whole number becomes the nearest double, of two nearest the even one, and
`place_ofNat` says which place that is. So a larger whole number never becomes a smaller double
(`placeOf_mono`), and up to `2 ^ 53` different numbers stay different (`placeOf_strict`). Beyond,
two of them can become one double. Sums of doubles that are not negative stay among them
(`place_add_le_top`).
-/
namespace FlowAdmission.Double
open Float.Model Float.Model.UnpackedFloat

/-- The place of infinity, behind all finite doubles. -/
def top : ℕ := 2047 * 2 ^ 52

theorem toNat_packComponents (e : BitVec 11) (m : BitVec 52) :
    BitVec.toNat (packComponents Format.binary64 .positive e m) = e.toNat * 2 ^ 52 + m.toNat := by
  have joined : ∀ s : BitVec 1,
      (s ++ e ++ m).toNat = s.toNat * 2 ^ 63 + e.toNat * 2 ^ 52 + m.toNat := by
    intro s
    rw [BitVec.toNat_append, BitVec.toNat_append, ← Nat.shiftLeft_add_eq_or_of_lt m.isLt,
      ← Nat.shiftLeft_add_eq_or_of_lt e.isLt]
    simp only [Nat.shiftLeft_eq]
    ring
  exact (joined 0#1).trans (by simp)

theorem toNat_unpackExponent (b : BitVec 64) :
    BitVec.toNat (@unpackExponent Format.binary64 b) = b.toNat / 2 ^ 52 % 2 ^ 11 := by
  simp [unpackExponent, BitVec.extractLsb, Nat.shiftRight_eq_div_pow]

theorem toNat_unpackMantissa (b : BitVec 64) :
    BitVec.toNat (@unpackMantissa Format.binary64 b) = b.toNat % 2 ^ 52 := by
  simp [unpackMantissa, BitVec.extractLsb]

theorem unpackExponent_eq_iff (b : BitVec 64) (e : BitVec 11) :
    @unpackExponent Format.binary64 b = e ↔ b.toNat / 2 ^ 52 % 2 ^ 11 = e.toNat := by
  rw [← toNat_unpackExponent]
  exact BitVec.toNat_inj.symm

theorem unpackMantissa_eq_iff (b : BitVec 64) (m : BitVec 52) :
    @unpackMantissa Format.binary64 b = m ↔ b.toNat % 2 ^ 52 = m.toNat := by
  rw [← toNat_unpackMantissa]
  exact BitVec.toNat_inj.symm

theorem sign_unpackSign (b : BitVec 64) :
    Sign.ofBitVec (@unpackSign Format.binary64 b) =
      if b.toNat < 2 ^ 63 then .positive else .negative := by
  have bit : (@unpackSign Format.binary64 b).toNat = b.toNat / 2 ^ 63 := by
    show (b.extractLsb 63 63).toNat = _
    have bound := b.isLt
    simp only [BitVec.extractLsb, BitVec.extractLsb'_toNat, Nat.shiftRight_eq_div_pow]
    omega
  split
  · rename_i unsigned
    have none : @unpackSign Format.binary64 b = 0#1 := by
      apply BitVec.eq_of_toNat_eq
      rw [bit, Nat.div_eq_of_lt unsigned]
      rfl
    rw [none]
    rfl
  · rename_i signed
    have one : @unpackSign Format.binary64 b = 1#1 := by
      apply BitVec.eq_of_toNat_eq
      have bound := b.isLt
      rw [bit]
      show _ = 1
      omega
    rw [one]
    rfl

/-- The unpacked doubles that are not negative, with their places. The numbers with a full mantissa
follow those with a shorter one, which exist for the least exponent only. -/
inductive Stands : UnpackedFloat → ℕ → Prop
  | zero : Stands (.zero .positive) 0
  | finite {m : ℕ} (pos : 0 < m) (e : ℕ) (below : m < 2 ^ 53) (normal : 2 ^ 52 ≤ m ∨ e = 0)
      (small : e * 2 ^ 52 + m < top) :
      Stands (.finite .positive m (e - 1074) pos) (e * 2 ^ 52 + m)
  | infinity : Stands (.infinity .positive) top

theorem stands_finite {m n : ℕ} {exponent : ℤ} (pos : 0 < m) (e : ℕ) (scale : exponent = e - 1074)
    (place : n = e * 2 ^ 52 + m) (below : m < 2 ^ 53) (normal : 2 ^ 52 ≤ m ∨ e = 0)
    (small : n < top) : Stands (.finite .positive m exponent pos) n := by
  subst scale place
  exact .finite pos e below normal small

theorem lt_finite_iff {m m' : ℕ} (pos : 0 < m) (pos' : 0 < m') (e e' : ℤ) :
    (UnpackedFloat.finite .positive m e pos).lt (.finite .positive m' e' pos') = true ↔
      e < e' ∨ e = e' ∧ m < m' := by
  show (some ((compare e e').then (compare m m')) == some .lt) = true ↔ _
  rw [beq_iff_eq, Option.some.injEq, Ordering.then_eq_lt, Int.compare_eq_lt, Int.compare_eq_eq,
    Nat.compare_eq_lt]

theorem lt_iff_of_stands {u v : UnpackedFloat} {i j : ℕ} (first : Stands u i)
    (second : Stands v j) : u.lt v = true ↔ i < j := by
  cases first with
  | zero =>
    cases second with
    | zero => exact iff_of_false Bool.false_ne_true (Nat.lt_irrefl 0)
    | finite pos e below normal small => exact iff_of_true rfl (by omega)
    | infinity => exact iff_of_true rfl (by decide)
  | finite pos e below normal small =>
    cases second with
    | zero => exact iff_of_false Bool.false_ne_true (Nat.not_lt_zero _)
    | finite pos' e' below' normal' small' =>
      rw [lt_finite_iff]
      omega
    | infinity => exact iff_of_true rfl small
  | infinity =>
    cases second with
    | zero => exact iff_of_false Bool.false_ne_true (Nat.not_lt_zero _)
    | finite pos e below normal small =>
      exact iff_of_false Bool.false_ne_true (Nat.lt_asymm small)
    | infinity => exact iff_of_false Bool.false_ne_true (Nat.lt_irrefl _)

/-- Doubles that are not negative are read off their bits. -/
theorem stands_unpack {b : BitVec 64} (bounded : b.toNat ≤ top) :
    Stands (UnpackedFloat.unpack Format.binary64 b) b.toNat := by
  have below : b.toNat ≤ 2047 * 2 ^ 52 := bounded
  have bias : (Format.binary64.exponentBias : ℤ) = 1023 := rfl
  have sign : Sign.ofBitVec (@unpackSign Format.binary64 b) = .positive :=
    (sign_unpackSign b).trans (if_pos (by omega))
  unfold UnpackedFloat.unpack
  dsimp only
  rw [sign]
  by_cases last : @unpackExponent Format.binary64 b = -1#11
  · have exponent : b.toNat / 2 ^ 52 % 2 ^ 11 = 2047 := (unpackExponent_eq_iff b _).mp last
    have here : b.toNat = top := by
      unfold top at bounded ⊢
      omega
    have bare : @unpackMantissa Format.binary64 b = 0#52 := by
      rw [unpackMantissa_eq_iff, here]
      rfl
    rw [if_pos last, if_pos bare, here]
    exact .infinity
  have small : b.toNat < top := by
    refine lt_of_le_of_ne bounded fun here => last ((unpackExponent_eq_iff b _).mpr ?_)
    rw [here]
    rfl
  rw [if_neg last]
  by_cases first : @unpackExponent Format.binary64 b = 0#11
  · have exponent : b.toNat / 2 ^ 52 % 2 ^ 11 = 0 := (unpackExponent_eq_iff b _).mp first
    have here : b.toNat = (@unpackMantissa Format.binary64 b).toNat := by
      rw [toNat_unpackMantissa]
      omega
    rw [if_pos first]
    by_cases bare : @unpackMantissa Format.binary64 b = 0#52
    · rw [dif_pos bare, here, bare]
      exact .zero
    · rw [dif_neg bare]
      refine stands_finite _ 0 ?_ ?_ ?_ (.inr rfl) small
      · simp [bias, first]
      · simpa using here
      · omega
  · -- The leading bit is not stored, so the place has the exponent one lower.
    have counted : (@unpackExponent Format.binary64 b).toNat ≠ 0 :=
      fun none => first (BitVec.eq_of_toNat_eq none)
    have joined : (1#1 ++ @unpackMantissa Format.binary64 b).toNat = 2 ^ 52 + b.toNat % 2 ^ 52 := by
      rw [BitVec.toNat_append, ← Nat.shiftLeft_add_eq_or_of_lt (BitVec.isLt _),
        toNat_unpackMantissa]
      rfl
    have exponent := toNat_unpackExponent b
    rw [if_neg first]
    refine stands_finite _ ((@unpackExponent Format.binary64 b).toNat - 1) ?_ ?_ ?_ ?_ small
    · rw [bias]
      push_cast [Nat.cast_sub (Nat.one_le_iff_ne_zero.mpr counted)]
      ring
    all_goals
      rw [joined]
      omega

/-! ### Rounding -/

/-- How many times `2 ^ s` goes into `x`, rounded to the nearest whole, of two the even one. -/
def nearest (x s : ℕ) : ℕ :=
  if 2 * (x % 2 ^ s) < 2 ^ s then x / 2 ^ s
  else if 2 * (x % 2 ^ s) = 2 ^ s then x / 2 ^ s + x / 2 ^ s % 2
  else x / 2 ^ s + 1

theorem nearest_zero (x : ℕ) : nearest x 0 = x := by
  simp [nearest, Nat.mod_one]

theorem nearest_mono {x y : ℕ} (s : ℕ) (le : x ≤ y) : nearest x s ≤ nearest y s := by
  have quotients : x / 2 ^ s ≤ y / 2 ^ s := Nat.div_le_div_right le
  rcases Nat.lt_or_eq_of_le quotients with less | same
  · unfold nearest
    split_ifs <;> omega
  · have remainders : x % 2 ^ s ≤ y % 2 ^ s := by
      have whole := Nat.div_add_mod x (2 ^ s)
      have whole' := Nat.div_add_mod y (2 ^ s)
      rw [same] at whole
      omega
    unfold nearest
    rw [same]
    split_ifs <;> omega

/-- What is a multiple is not rounded. -/
theorem nearest_mul (x s : ℕ) : nearest (x * 2 ^ s) s = x := by
  have positive : 0 < 2 ^ s := Nat.two_pow_pos s
  simp [nearest, Nat.mul_div_cancel x positive, Nat.mul_mod_left, positive]

/-- The bits that were shifted out tell how the rest compares with one half. -/
theorem shiftRight_eq (x s : ℕ) :
    (⟨x, false, false⟩ : ExtendedMantissa) >>> s =
      ⟨x / 2 ^ s, decide (2 ^ s ≤ 2 * (x % 2 ^ s)), decide (2 * x % 2 ^ s ≠ 0)⟩ := by
  induction s with
  | zero => simp [HShiftRight.hShiftRight, Nat.repeat, Nat.mod_one]
  | succ s ih =>
    have step : (⟨x, false, false⟩ : ExtendedMantissa) >>> (s + 1) =
        ((⟨x, false, false⟩ : ExtendedMantissa) >>> s).shiftRightOne := rfl
    have bound : x % 2 ^ s < 2 ^ s := Nat.mod_lt _ (Nat.two_pow_pos s)
    have round : (x / 2 ^ s % 2 != 0) = decide (2 ^ (s + 1) ≤ 2 * (x % 2 ^ (s + 1))) := by
      rw [Nat.mod_pow_succ, Nat.pow_succ]
      rcases Nat.mod_two_eq_zero_or_one (x / 2 ^ s) with bit | bit
      · simp [bit]
        omega
      · simp [bit]
        omega
    have sticky : (decide (2 ^ s ≤ 2 * (x % 2 ^ s)) || decide (2 * x % 2 ^ s ≠ 0)) =
        decide (2 * x % 2 ^ (s + 1) ≠ 0) := by
      rw [Nat.pow_succ', Nat.mul_mod_mul_left, ← Bool.decide_or]
      refine decide_eq_decide.mpr ?_
      rcases Nat.lt_or_ge (2 * (x % 2 ^ s)) (2 ^ s) with below | above
      · rw [← Nat.mul_mod_mod, Nat.mod_eq_of_lt below]
        omega
      · exact iff_of_true (.inl above) (by omega)
    rw [step, ih]
    simp only [ExtendedMantissa.shiftRightOne, round, sticky, Nat.div_div_eq_div_mul,
      ← Nat.pow_succ]

/-- Shifting and rounding is division to the nearest. -/
theorem roundedMantissa_shiftRight (x s : ℕ) :
    ((⟨x, false, false⟩ : ExtendedMantissa) >>> s).roundedMantissa = nearest x s := by
  have bound : x % 2 ^ s < 2 ^ s := Nat.mod_lt _ (Nat.two_pow_pos s)
  rw [shiftRight_eq, nearest]
  rcases Nat.lt_or_ge (2 * (x % 2 ^ s)) (2 ^ s) with below | above
  · have round : ¬2 ^ s ≤ 2 * (x % 2 ^ s) := by omega
    rw [if_pos below, decide_eq_false round]
    cases decide (2 * x % 2 ^ s ≠ 0) <;> rfl
  · have sticky : 2 * x % 2 ^ s ≠ 0 ↔ 2 * (x % 2 ^ s) ≠ 2 ^ s := by
      rw [← Nat.mul_mod_mod, Nat.mod_eq_sub_mod above, Nat.mod_eq_of_lt (by omega)]
      omega
    rw [if_neg (by omega), decide_eq_true above, decide_eq_decide.mpr sticky]
    split
    · rename_i half
      rw [decide_eq_false (not_not.mpr half)]
      rfl
    · rename_i not_half
      rw [decide_eq_true not_half]
      rfl

/-- A number of 53 bits and more is shifted down to 53 bits. -/
theorem shiftToTargetExponent_eq {x s : ℕ} (e : ℕ) (bits : x.log2 = 52 + s) :
    shiftToTargetExponent Format.binary64 x (e - 1074 - s) .exact =
      ((⟨x, false, false⟩ : ExtendedMantissa) >>> s, (e : ℤ) - 1074) := by
  have target : Format.binary64.targetExponent (totalExponent x (e - 1074 - s)) =
      (e : ℤ) - 1074 := by
    have least : Format.binary64.minExponent = -1074 := rfl
    have width : Format.binary64.mantissaBits = 53 := rfl
    rw [Format.targetExponent, totalExponent, bits, least, width]
    omega
  have amount : ((e : ℤ) - 1074 - (e - 1074 - s)).toNat = s := by omega
  unfold shiftToTargetExponent shiftToExponent
  dsimp only
  rw [target, amount]
  exact Prod.ext rfl (by show (e : ℤ) - 1074 - s + s = e - 1074; omega)

/-- Rounding leaves a number of 53 bits, or it carries into the next bit. -/
theorem nearest_bounds {x s : ℕ} (bits : x.log2 = 52 + s) :
    2 ^ 52 ≤ nearest x s ∧ nearest x s ≤ 2 ^ 53 := by
  have nonzero : x ≠ 0 := by
    rintro rfl
    simp at bits
    omega
  have lower : 2 ^ 52 * 2 ^ s ≤ x := by
    rw [← Nat.pow_add, ← bits]
    exact Nat.log2_self_le nonzero
  have upper : x ≤ 2 ^ 53 * 2 ^ s := by
    rw [← Nat.pow_add, show 53 + s = x.log2 + 1 by omega]
    exact Nat.le_of_lt Nat.lt_log2_self
  constructor
  · rw [← nearest_mul (2 ^ 52) s]
    exact nearest_mono s lower
  · rw [← nearest_mul (2 ^ 53) s]
    exact nearest_mono s upper

/-- The place of a number of 53 bits. Beyond the largest double there is infinity. -/
theorem toNat_pack {m : ℕ} (pos : 0 < m) (e : ℕ) (normal : 2 ^ 52 ≤ m) (below : m < 2 ^ 53) :
    BitVec.toNat (UnpackedFloat.pack Format.binary64 (.finite .positive m (e - 1074) pos)) =
      min top (e * 2 ^ 52 + m) := by
  have bits : m.log2 = 52 := (Nat.log2_eq_iff (Nat.ne_of_gt pos)).mpr ⟨normal, below⟩
  have biased : ((e : ℤ) - 1074 + Format.binary64.exponentBias + (52 : ℕ)).toNat =
      e + 1 := by
    have bias : (Format.binary64.exponentBias : ℤ) = 1023 := rfl
    rw [bias]
    omega
  have width : Format.binary64.mantissaBits = 53 := rfl
  unfold UnpackedFloat.pack
  dsimp only
  rw [biased, bits, width, if_pos rfl]
  unfold top
  split
  · rw [packedInfinity, toNat_packComponents]
    refine Eq.trans (by rfl) (min_eq_left ?_).symm
    omega
  · rw [toNat_packComponents, BitVec.toNat_ofNat, BitVec.toNat_ofNat]
    omega

/-- The place of a rounded number. A carry moves on to the next exponent by itself. -/
theorem toNat_pack_round {x s : ℕ} (e : ℕ) (bits : x.log2 = 52 + s) :
    BitVec.toNat (UnpackedFloat.pack Format.binary64
        (roundWithAccuracy Format.binary64 .positive x (e - 1074 - s) .exact)) =
      min top (e * 2 ^ 52 + nearest x s) := by
  obtain ⟨lower, upper⟩ := nearest_bounds bits
  unfold roundWithAccuracy
  rw [shiftToTargetExponent_eq e bits]
  dsimp only
  rw [roundedMantissa_shiftRight]
  -- A mantissa of 53 bits stays; one that was carried to 54 bits is shifted once more.
  rcases Nat.lt_or_eq_of_le upper with below | carry
  · have kept : (nearest x s).log2 = 52 + 0 :=
      (Nat.log2_eq_iff (by omega)).mpr ⟨lower, below⟩
    have again := shiftToTargetExponent_eq e kept
    rw [Nat.cast_zero, sub_zero] at again
    rw [again]
    dsimp only
    have same : ((⟨nearest x s, false, false⟩ : ExtendedMantissa) >>> 0).mantissa = nearest x s := by
      rw [shiftRight_eq]
      simp
    rw [same, dif_neg (by omega)]
    exact toNat_pack _ e lower below
  · have longer : (2 ^ 53 : ℕ).log2 = 52 + 1 := Nat.log2_two_pow
    have again := shiftToTargetExponent_eq (e + 1) longer
    have scale : ((e + 1 : ℕ) : ℤ) - 1074 - (1 : ℕ) = e - 1074 := by omega
    rw [scale] at again
    rw [carry, again]
    dsimp only
    have half : ((⟨2 ^ 53, false, false⟩ : ExtendedMantissa) >>> 1).mantissa = 2 ^ 52 := by
      rw [shiftRight_eq]
      rfl
    rw [half, dif_neg (by omega)]
    refine (toNat_pack _ (e + 1) (Nat.le_refl _) (by omega)).trans ?_
    omega

/-! ### Whole numbers -/

/-- The place of a double. -/
def place (x : Float) : ℕ := x.toModel.toBits.toBitVec.toNat

/-- The place of the double that a whole number becomes. -/
def placeOf (n : ℕ) : ℕ :=
  if n = 0 then 0 else min top ((n.log2 + 1022) * 2 ^ 52 + nearest (n * 2 ^ 53) (n.log2 + 1))

theorem place_injective : Function.Injective place := by
  rintro ⟨⟨⟨b⟩, valid⟩⟩ ⟨⟨⟨b'⟩, valid'⟩⟩ same
  cases BitVec.eq_of_toNat_eq same
  rfl

theorem lt_iff {x y : Float} (first : place x ≤ top) (second : place y ≤ top) :
    x < y ↔ place x < place y := by
  have compared := lt_iff_of_stands (stands_unpack first) (stands_unpack second)
  show decide (x.toModel < y.toModel) = true ↔ _
  rw [decide_eq_true_iff]
  exact compared

/-- Of the doubles above zero none is negative and none is no number. -/
theorem toNat_le_top {b : BitVec 64}
    (positive : (UnpackedFloat.zero .positive).lt
      (UnpackedFloat.unpack Format.binary64 b) = true) : b.toNat ≤ top := by
  by_contra beyond
  unfold top at beyond
  have negative (signed : ¬b.toNat < 2 ^ 63) :
      Sign.ofBitVec (@unpackSign Format.binary64 b) = .negative :=
    (sign_unpackSign b).trans (if_neg signed)
  unfold UnpackedFloat.unpack at positive
  dsimp only at positive
  by_cases last : @unpackExponent Format.binary64 b = -1#11
  · have exponent : b.toNat / 2 ^ 52 % 2 ^ 11 = 2047 := (unpackExponent_eq_iff b _).mp last
    rw [if_pos last] at positive
    by_cases bare : @unpackMantissa Format.binary64 b = 0#52
    · have mantissa : b.toNat % 2 ^ 52 = 0 := (unpackMantissa_eq_iff b _).mp bare
      rw [if_pos bare, negative (by omega)] at positive
      cases positive
    · rw [if_neg bare] at positive
      cases positive
  · have exponent : b.toNat / 2 ^ 52 % 2 ^ 11 ≠ 2047 := fun full =>
      last ((unpackExponent_eq_iff b _).mpr full)
    have bound := b.isLt
    rw [if_neg last, negative (by omega)] at positive
    by_cases first : @unpackExponent Format.binary64 b = 0#11
    · rw [if_pos first] at positive
      by_cases bare : @unpackMantissa Format.binary64 b = 0#52
      · rw [dif_pos bare] at positive
        cases positive
      · rw [dif_neg bare] at positive
        cases positive
    · rw [if_neg first] at positive
      cases positive

theorem place_le_top {x : Float} (positive : 0 < x) : place x ≤ top := by
  have compared : decide ((0 : Float).toModel < x.toModel) = true := positive
  exact toNat_le_top (of_decide_eq_true compared)

/-- Where a number of 53 bits stands tells its mantissa and its exponent. -/
theorem unpack_eq {b : BitVec 64} {m : ℕ} (pos : 0 < m) (e : ℕ) (normal : 2 ^ 52 ≤ m)
    (below : m < 2 ^ 53) (here : b.toNat = e * 2 ^ 52 + m) (small : b.toNat < top) :
    UnpackedFloat.unpack Format.binary64 b = .finite .positive m (e - 1074) pos := by
  have stands := stands_unpack (Nat.le_of_lt small)
  generalize UnpackedFloat.unpack Format.binary64 b = u at stands ⊢
  generalize b.toNat = n at stands here small
  cases stands with
  | zero => omega
  | @finite m' pos' e' below' normal' small' =>
    have exponent : e' = e := by omega
    have mantissa : m' = m := by omega
    subst exponent mantissa
    rfl
  | infinity => omega

theorem log2_scale {n : ℕ} (k : ℕ) (zero : n ≠ 0) : (n * 2 ^ k).log2 = n.log2 + k := by
  have positive : 0 < 2 ^ k := Nat.two_pow_pos k
  refine (Nat.log2_eq_iff (Nat.mul_ne_zero zero (Nat.ne_of_gt positive))).mpr ⟨?_, ?_⟩
  · rw [Nat.pow_add]
    exact Nat.mul_le_mul_right _ (Nat.log2_self_le zero)
  · rw [Nat.add_right_comm, Nat.pow_add]
    exact (Nat.mul_lt_mul_right positive).mpr Nat.lt_log2_self

/-- A whole number of at most 53 bits is written with 53 bits. -/
theorem normalized_bounds {n : ℕ} (zero : n ≠ 0) (small : n < 2 ^ 53) :
    n.log2 ≤ 52 ∧ 2 ^ 52 ≤ n * 2 ^ (52 - n.log2) ∧ n * 2 ^ (52 - n.log2) < 2 ^ 53 := by
  have least : n.log2 < 53 := (Nat.log2_lt zero).mpr small
  have positive : 0 < 2 ^ (52 - n.log2) := Nat.two_pow_pos _
  refine ⟨by omega, ?_, ?_⟩
  · calc 2 ^ 52 = 2 ^ n.log2 * 2 ^ (52 - n.log2) := by rw [← Nat.pow_add]; congr 1; omega
      _ ≤ n * 2 ^ (52 - n.log2) := Nat.mul_le_mul_right _ (Nat.log2_self_le zero)
  · calc n * 2 ^ (52 - n.log2) < 2 ^ (n.log2 + 1) * 2 ^ (52 - n.log2) :=
        (Nat.mul_lt_mul_right positive).mpr Nat.lt_log2_self
      _ = 2 ^ 53 := by rw [← Nat.pow_add]; congr 1; omega

theorem toNat_pack_ofNat {n : ℕ} (zero : n ≠ 0) (small : n < 2 ^ 53) :
    BitVec.toNat (UnpackedFloat.pack Format.binary64 (UnpackedFloat.ofNat Format.binary64 n)) =
      (n.log2 + 1022) * 2 ^ 52 + n * 2 ^ (52 - n.log2) := by
  obtain ⟨least, lower, upper⟩ := normalized_bounds zero small
  have positive : compare (n : ℤ) 0 = .gt := by
    rw [Int.compare_eq_gt]
    omega
  have target : Format.binary64.targetExponent (totalExponent n 0) = (n.log2 : ℤ) - 52 := by
    have first : Format.binary64.minExponent = -1074 := rfl
    have width : Format.binary64.mantissaBits = 53 := rfl
    rw [Format.targetExponent, totalExponent, first, width]
    omega
  have amount : (0 - ((n.log2 : ℤ) - 52)).toNat = 52 - n.log2 := by omega
  have bits : (n * 2 ^ (52 - n.log2)).log2 = 52 + 0 :=
    (Nat.log2_eq_iff (by omega)).mpr ⟨lower, upper⟩
  have rounded := toNat_pack_round (n.log2 + 1022) bits
  have scale : ((n.log2 + 1022 : ℕ) : ℤ) - 1074 - (0 : ℕ) = 0 - ((52 - n.log2 : ℕ) : ℤ) := by
    omega
  rw [scale, nearest_zero] at rounded
  unfold UnpackedFloat.ofNat UnpackedFloat.ofInt UnpackedFloat.normalize
  rw [positive]
  dsimp only
  unfold UnpackedFloat.round decreaseExponent
  dsimp only
  rw [Int.toNat_natCast, target, amount, Nat.shiftLeft_eq]
  refine rounded.trans (min_eq_right ?_)
  unfold top
  omega

theorem place_mul (x y : Float) :
    place (x * y) = BitVec.toNat (UnpackedFloat.pack Format.binary64
      (UnpackedFloat.mul Format.binary64
        (UnpackedFloat.unpack Format.binary64 x.toModel.toBits.toBitVec)
        (UnpackedFloat.unpack Format.binary64 y.toModel.toBits.toBitVec))) := rfl

/-- The factor one, by which a small whole number is multiplied. -/
theorem unpack_one :
    UnpackedFloat.unpack Format.binary64
        (Float.ofBits 4607182418800017408).toModel.toBits.toBitVec =
      .finite .positive (2 ^ 52) (-52) (by decide) := by
  refine (unpack_eq (by decide) 1022 (Nat.le_refl _) (by decide) ?_ ?_).trans (by rfl)
  · decide +kernel
  · decide +kernel

theorem toBits_toFloat {n : ℕ} (small : n < 2 ^ 53) :
    n.toUInt64.toFloat.toModel.toBits.toBitVec =
      UnpackedFloat.pack Format.binary64 (UnpackedFloat.ofNat Format.binary64 n) := by
  have whole : n.toUInt64.toNat = n := by
    show n % 2 ^ 64 = n
    omega
  show UnpackedFloat.pack Format.binary64
    (UnpackedFloat.ofNat Format.binary64 n.toUInt64.toNat) = _
  rw [whole]

theorem place_ofNat_of_lt {n : ℕ} (zero : n ≠ 0) (small : n < 2 ^ 53) :
    place (Float.ofNat n) =
      min top ((n.log2 + 1022) * 2 ^ 52 + nearest (n * 2 ^ 53) (n.log2 + 1)) := by
  obtain ⟨least, lower, upper⟩ := normalized_bounds zero small
  -- A small number is converted without rounding and multiplied by one.
  have fast : Float.ofNat n = n.toUInt64.toFloat * Float.ofBits 4607182418800017408 := by
    unfold Float.ofNat
    show Float.ofScientific n false 0 = _
    unfold Float.ofScientific
    rw [dif_pos ⟨small, by omega⟩]
    rfl
  have factor := unpack_eq (by omega) (n.log2 + 1022) lower upper
    (toNat_pack_ofNat zero small) (by rw [toNat_pack_ofNat zero small]; unfold top; omega)
  have bits : (n * 2 ^ (52 - n.log2) * 2 ^ 52).log2 = 52 + 52 :=
    (log2_scale 52 (by omega)).trans
      (congrArg (· + 52) ((Nat.log2_eq_iff (by omega)).mpr ⟨lower, upper⟩))
  have rounded := toNat_pack_round (n.log2 + 1022) bits
  have same : nearest (n * 2 ^ 53) (n.log2 + 1) = n * 2 ^ (52 - n.log2) := by
    have exponents : 52 - n.log2 + (n.log2 + 1) = 53 := by omega
    have split : n * 2 ^ 53 = n * 2 ^ (52 - n.log2) * 2 ^ (n.log2 + 1) := by
      rw [Nat.mul_assoc, ← Nat.pow_add, exponents]
    rw [split, nearest_mul]
  rw [nearest_mul] at rounded
  rw [same, ← rounded, fast, place_mul, toBits_toFloat small, factor, unpack_one]
  have scale : ((n.log2 + 1022 : ℕ) : ℤ) - 1074 + -52 =
      (n.log2 + 1022 : ℕ) - 1074 - (52 : ℕ) := by omega
  unfold UnpackedFloat.mul
  dsimp only
  rw [scale]
  rfl

theorem place_ofNat_of_le {n : ℕ} (large : 2 ^ 53 ≤ n) :
    place (Float.ofNat n) =
      min top ((n.log2 + 1022) * 2 ^ 52 + nearest (n * 2 ^ 53) (n.log2 + 1)) := by
  have zero : n ≠ 0 := by omega
  have slow : Float.ofNat n = ⟨Float.Model.ofScientific n 0⟩ := by
    unfold Float.ofNat
    show Float.ofScientific n false 0 = _
    unfold Float.ofScientific
    rw [dif_neg (by omega)]
    rfl
  have bits : (n * 2 ^ 53).log2 = 52 + (n.log2 + 1) := by
    rw [log2_scale 53 zero]
    omega
  have rounded := toNat_pack_round (n.log2 + 1022) bits
  have scale : ((n.log2 + 1022 : ℕ) : ℤ) - 1074 - (n.log2 + 1 : ℕ) = -53 := by omega
  rw [scale] at rounded
  rw [slow, ← rounded]
  unfold place Float.Model.ofScientific UnpackedFloat.ofScientific
  have width : Format.binary64.exponentBits = 11 := rfl
  rw [dif_neg zero, width, if_neg (by omega), if_neg (by omega), if_pos (by omega)]
  unfold UnpackedFloat.mul
  simp only [Nat.shiftLeft_eq, Int.toNat_zero, Nat.pow_zero, Nat.mul_one]
  rfl

/-- A whole number becomes the nearest double. -/
theorem place_ofNat (n : ℕ) : place (Float.ofNat n) = placeOf n := by
  unfold placeOf
  split_ifs with zero
  · subst zero
    decide +kernel
  · rcases Nat.lt_or_ge n (2 ^ 53) with small | large
    · exact place_ofNat_of_lt zero small
    · exact place_ofNat_of_le large

theorem placeOf_le_top (n : ℕ) : placeOf n ≤ top := by
  unfold placeOf
  split_ifs
  · exact Nat.zero_le _
  · exact min_le_left _ _

theorem nearest_ofNat_bounds {n : ℕ} (zero : n ≠ 0) :
    2 ^ 52 ≤ nearest (n * 2 ^ 53) (n.log2 + 1) ∧ nearest (n * 2 ^ 53) (n.log2 + 1) ≤ 2 ^ 53 := by
  apply nearest_bounds
  rw [log2_scale 53 zero]
  omega

/-- Larger whole numbers do not become smaller doubles. -/
theorem placeOf_mono {m n : ℕ} (le : m ≤ n) : placeOf m ≤ placeOf n := by
  unfold placeOf
  by_cases zero : m = 0
  · rw [if_pos zero]
    exact Nat.zero_le _
  have zero' : n ≠ 0 := by omega
  rw [if_neg zero, if_neg zero']
  refine min_le_min (Nat.le_refl _) ?_
  have logs : m.log2 ≤ n.log2 := (Nat.le_log2 zero').mpr ((Nat.log2_self_le zero).trans le)
  -- A number with fewer bits is at most the first one with more bits, even after a carry.
  rcases Nat.lt_or_eq_of_le logs with less | same
  · obtain ⟨-, upper⟩ := nearest_ofNat_bounds zero
    obtain ⟨lower, -⟩ := nearest_ofNat_bounds zero'
    omega
  · rw [same]
    have scaled := nearest_mono (n.log2 + 1) (Nat.mul_le_mul_right (2 ^ 53) le)
    omega

/-- Whole numbers up to `2 ^ 53` are not rounded. -/
theorem nearest_ofNat {n : ℕ} (bounded : n ≤ 2 ^ 53) :
    nearest (n * 2 ^ 53) (n.log2 + 1) * 2 ^ (n.log2 + 1) = n * 2 ^ 53 := by
  rcases Nat.lt_or_eq_of_le bounded with small | last
  · have short : n.log2 + 1 ≤ 53 := by
      by_cases zero : n = 0
      · rw [zero]
        decide
      · exact (Nat.log2_lt zero).mpr small
    have split : n * 2 ^ 53 = n * 2 ^ (53 - (n.log2 + 1)) * 2 ^ (n.log2 + 1) := by
      rw [Nat.mul_assoc, ← Nat.pow_add, Nat.sub_add_cancel short]
    rw [split, nearest_mul, ← split]
  · rw [last, Nat.log2_two_pow, ← Nat.pow_add]
    rfl

/-- Up to `2 ^ 53` nothing is carried. -/
theorem nearest_ofNat_lt {n : ℕ} (zero : n ≠ 0) (bounded : n ≤ 2 ^ 53) :
    nearest (n * 2 ^ 53) (n.log2 + 1) < 2 ^ 53 := by
  refine lt_of_le_of_ne (nearest_ofNat_bounds zero).2 fun carry => ?_
  have whole := nearest_ofNat bounded
  rw [carry, Nat.mul_comm (2 ^ 53), Nat.mul_left_inj (by decide)] at whole
  have bound : n < 2 ^ (n.log2 + 1) := Nat.lt_log2_self
  exact absurd whole (Nat.ne_of_gt bound)

/-- Different whole numbers up to `2 ^ 53` become different doubles. -/
theorem placeOf_strict {m n : ℕ} (less : m < n) (bounded : n ≤ 2 ^ 53) :
    placeOf m < placeOf n := by
  have zero' : n ≠ 0 := by omega
  have last : n.log2 < 54 := (Nat.log2_lt zero').mpr (by omega)
  obtain ⟨lower', upper'⟩ := nearest_ofNat_bounds zero'
  have finite : (n.log2 + 1022) * 2 ^ 52 + nearest (n * 2 ^ 53) (n.log2 + 1) < top := by
    unfold top
    omega
  unfold placeOf
  rw [if_neg zero', min_eq_right (Nat.le_of_lt finite)]
  by_cases zero : m = 0
  · rw [if_pos zero]
    omega
  rw [if_neg zero]
  refine lt_of_le_of_lt (min_le_right _ _) ?_
  have logs : m.log2 ≤ n.log2 :=
    (Nat.le_log2 zero').mpr ((Nat.log2_self_le zero).trans (Nat.le_of_lt less))
  rcases Nat.lt_or_eq_of_le logs with shorter | same
  · have upper := nearest_ofNat_lt zero (Nat.le_trans (Nat.le_of_lt less) bounded)
    calc (m.log2 + 1022) * 2 ^ 52 + nearest (m * 2 ^ 53) (m.log2 + 1)
        < (m.log2 + 1022) * 2 ^ 52 + 2 ^ 53 := Nat.add_lt_add_left upper _
      _ ≤ (n.log2 + 1022) * 2 ^ 52 + 2 ^ 52 := by omega
      _ ≤ _ := Nat.add_le_add_left lower' _
  · have scaled : nearest (m * 2 ^ 53) (n.log2 + 1) < nearest (n * 2 ^ 53) (n.log2 + 1) := by
      have whole := nearest_ofNat (Nat.le_trans (Nat.le_of_lt less) bounded)
      rw [same] at whole
      refine Nat.lt_of_mul_lt_mul_right (a := 2 ^ (n.log2 + 1)) ?_
      rw [whole, nearest_ofNat bounded]
      exact (Nat.mul_lt_mul_right (by decide)).mpr less
    rw [same]
    exact Nat.add_lt_add_left scaled _

/-! ### Sums -/

/-- The unpacked numbers without a sign bit. -/
inductive Unsigned : UnpackedFloat → Prop
  | zero : Unsigned (.zero .positive)
  | finite {m : ℕ} (pos : 0 < m) (e : ℤ) : Unsigned (.finite .positive m e pos)
  | infinity : Unsigned (.infinity .positive)

theorem Stands.unsigned {u : UnpackedFloat} {n : ℕ} (stands : Stands u n) : Unsigned u := by
  cases stands with
  | zero => exact .zero
  | finite pos e => exact .finite pos _
  | infinity => exact .infinity

/-- Such a number is packed without a sign bit. -/
theorem Unsigned.toNat_pack_le_top {u : UnpackedFloat} (unsigned : Unsigned u) :
    BitVec.toNat (UnpackedFloat.pack Format.binary64 u) ≤ top := by
  cases unsigned with
  | zero => exact of_decide_eq_true rfl
  | infinity => exact of_decide_eq_true rfl
  | @finite m pos e =>
    have mantissa : BitVec.toNat (BitVec.ofNat 52 m) < 2 ^ 52 := (BitVec.ofNat 52 m).isLt
    unfold UnpackedFloat.pack
    dsimp only
    split
    · exact of_decide_eq_true rfl
    · rename_i finite
      unfold top
      have small : (e + Format.binary64.exponentBias + (52 : ℕ)).toNat + 1 < 2 ^ 11 :=
        Nat.lt_of_not_le finite
      split
      · rw [toNat_packComponents, BitVec.toNat_ofNat, Nat.mod_eq_of_lt (Nat.lt_of_succ_lt small)]
        omega
      · rw [toNat_packComponents, BitVec.toNat_ofNat, Nat.zero_mod]
        omega

theorem unsigned_roundWithAccuracy (m : ℕ) (e : ℤ) (accuracy : Accuracy) :
    Unsigned (roundWithAccuracy Format.binary64 .positive m e accuracy) := by
  have unsigned (m : ℕ) (e : ℤ) : Unsigned
      (if none : m = 0 then .zero .positive
        else .finite .positive m e (Nat.pos_of_ne_zero none)) := by
    by_cases none : m = 0
    · rw [dif_pos none]
      exact .zero
    · rw [dif_neg none]
      exact .finite _ e
  exact unsigned _ _

/-- What is not below zero is the negative zero or has no sign bit. -/
theorem eq_or_unsigned {v : UnpackedFloat} (nonneg : (UnpackedFloat.zero .positive).le v = true) :
    v = .zero .negative ∨ Unsigned v := by
  cases v with
  | notANumber => cases nonneg
  | zero s => cases s with
    | positive => exact .inr .zero
    | negative => exact .inl rfl
  | infinity s => cases s with
    | positive => exact .inr .infinity
    | negative => cases nonneg
  | finite s m e pos => cases s with
    | positive => exact .inr (.finite pos e)
    | negative => cases nonneg

/-- A sum gets a sign bit or becomes no number only if a summand was below zero or no number. -/
theorem Unsigned.add {u v : UnpackedFloat} (first : Unsigned u)
    (second : v = .zero .negative ∨ Unsigned v) :
    Unsigned (UnpackedFloat.add Format.binary64 u v) := by
  rcases second with rfl | second
  · cases first with
    | zero => exact .zero
    | finite pos e => exact .finite pos e
    | infinity => exact .infinity
  · cases first with
    | zero => cases second with
      | zero => exact .zero
      | finite pos e => exact .finite pos e
      | infinity => exact .infinity
    | infinity => cases second <;> exact .infinity
    | @finite m pos e => cases second with
      | zero => exact .finite pos e
      | infinity => exact .infinity
      | @finite m' pos' e' =>
        unfold UnpackedFloat.add UnpackedFloat.normalize
        dsimp only [Sign.apply]
        split
        · rename_i below
          rw [Int.compare_eq_lt] at below
          omega
        · exact .zero
        · exact unsigned_roundWithAccuracy _ _ _

/-- A sum stays among the doubles that are not negative, whatever of them is added. -/
theorem place_add_le_top {x y : Float} (first : place x ≤ top) (second : 0 ≤ y) :
    place (x + y) ≤ top := by
  have compared : decide ((0 : Float).toModel ≤ y.toModel) = true := second
  have summands := eq_or_unsigned (of_decide_eq_true compared)
  exact ((stands_unpack first).unsigned.add summands).toNat_pack_le_top

end FlowAdmission.Double
