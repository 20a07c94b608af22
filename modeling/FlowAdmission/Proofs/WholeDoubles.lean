import FlowAdmission.Proofs.Doubles
import FlowAdmission.Proofs.Exact

/-!
# Whole numbers as doubles

Sums and products of whole numbers up to `2 ^ 53` are exact as doubles if they stay up to there
(`Double.wholeUpTo`).

The double of such a number has a full mantissa, which is the number at some scale
(`unpack_ofNat`). Sums and products are made of the mantissas at one scale, and then rounded once.
What is rounded is the whole result at a fine scale, and rounding that gives its double
(`toNat_pack_round_whole`).
-/
namespace FlowAdmission.Double
open Float.Model Float.Model.UnpackedFloat

/-- Rounding does not depend on the scale. -/
theorem nearest_scale (x s k : ℕ) : nearest (x * 2 ^ k) (s + k) = nearest x s := by
  have positive : 0 < 2 ^ k := Nat.two_pow_pos k
  have remainder : x * 2 ^ k % 2 ^ (s + k) = x % 2 ^ s * 2 ^ k := by
    rw [Nat.pow_add, Nat.mul_mod_mul_right]
  have quotient : x * 2 ^ k / 2 ^ (s + k) = x / 2 ^ s := by
    rw [Nat.pow_add, Nat.mul_div_mul_right _ _ positive]
  have below : 2 * (x % 2 ^ s * 2 ^ k) < 2 ^ (s + k) ↔ 2 * (x % 2 ^ s) < 2 ^ s := by
    rw [← Nat.mul_assoc, Nat.pow_add, Nat.mul_lt_mul_right positive]
  have half : 2 * (x % 2 ^ s * 2 ^ k) = 2 ^ (s + k) ↔ 2 * (x % 2 ^ s) = 2 ^ s := by
    rw [← Nat.mul_assoc, Nat.pow_add, Nat.mul_left_inj (Nat.ne_of_gt positive)]
  simp only [nearest, remainder, quotient, below, half]

/-- A whole number at a fine scale is rounded to its double. -/
theorem toNat_pack_round_whole {n x k : ℕ} (same : x = n * 2 ^ k) (full : 2 ^ 52 ≤ x) :
    BitVec.toNat (UnpackedFloat.pack Format.binary64
      (roundWithAccuracy Format.binary64 .positive x (-k) .exact)) = placeOf n := by
  have zero : n ≠ 0 := by
    rintro rfl
    omega
  have scaled : x.log2 = n.log2 + k := by rw [same, log2_scale k zero]
  have long : 52 ≤ x.log2 := (Nat.le_log2 (by omega)).mpr full
  have bits : x.log2 = 52 + (x.log2 - 52) := by omega
  have rounded := toNat_pack_round (n.log2 + 1022) bits
  have scale : ((n.log2 + 1022 : ℕ) : ℤ) - 1074 - (x.log2 - 52 : ℕ) = -k := by omega
  have shift : x.log2 - 52 + 53 = n.log2 + 1 + k := by omega
  have mantissa : nearest x (x.log2 - 52) = nearest (n * 2 ^ 53) (n.log2 + 1) := by
    calc nearest x (x.log2 - 52) = nearest (x * 2 ^ 53) (x.log2 - 52 + 53) :=
          (nearest_scale _ _ _).symm
      _ = nearest (n * 2 ^ 53 * 2 ^ k) (n.log2 + 1 + k) := by
          rw [shift, same, Nat.mul_right_comm]
      _ = nearest (n * 2 ^ 53) (n.log2 + 1) := nearest_scale _ _ _
  rw [scale, mantissa] at rounded
  rw [rounded, placeOf, if_neg zero]

/-- The mantissa of a whole number up to `2 ^ 53` is full and stands for nothing but the number. -/
theorem unpack_ofNat {n : ℕ} (zero : n ≠ 0) (bounded : n ≤ 2 ^ 53) :
    ∃ (m : ℕ) (pos : 0 < m), UnpackedFloat.unpack Format.binary64
        (Float.ofNat n).toModel.toBits.toBitVec =
          .finite .positive m ((n.log2 + 1 : ℕ) - 53) pos ∧
      2 ^ 52 ≤ m ∧ m * 2 ^ (n.log2 + 1) = n * 2 ^ 53 := by
  obtain ⟨lower, -⟩ := nearest_ofNat_bounds zero
  have upper := nearest_ofNat_lt zero bounded
  have short : n.log2 < 54 := (Nat.log2_lt zero).mpr (by omega)
  have finite : (n.log2 + 1022) * 2 ^ 52 + nearest (n * 2 ^ 53) (n.log2 + 1) < top := by
    unfold top
    omega
  have here : (Float.ofNat n).toModel.toBits.toBitVec.toNat =
      (n.log2 + 1022) * 2 ^ 52 + nearest (n * 2 ^ 53) (n.log2 + 1) := by
    refine (place_ofNat n).trans ?_
    rw [placeOf, if_neg zero, min_eq_right (Nat.le_of_lt finite)]
  have scale : ((n.log2 + 1022 : ℕ) : ℤ) - 1074 = (n.log2 + 1 : ℕ) - 53 := by omega
  refine ⟨_, by omega, ?_, lower, nearest_ofNat bounded⟩
  rw [← scale]
  exact unpack_eq _ _ lower upper here (here ▸ finite)

/-- A double is packed to its place. -/
theorem Stands.toNat_pack {u : UnpackedFloat} {n : ℕ} (stands : Stands u n) :
    BitVec.toNat (UnpackedFloat.pack Format.binary64 u) = n := by
  cases stands with
  | zero => rfl
  | infinity => rfl
  | @finite m pos e below normal small =>
    by_cases full : 2 ^ 52 ≤ m
    · rw [Double.toNat_pack pos e full below, min_eq_right (Nat.le_of_lt small)]
    · obtain rfl : e = 0 := normal.resolve_left full
      have short : m.log2 < 52 := (Nat.log2_lt (Nat.ne_of_gt pos)).mpr (by omega)
      have width : Format.binary64.mantissaBits = 53 := rfl
      unfold UnpackedFloat.pack
      dsimp only
      rw [width, if_neg (by decide), if_neg (by omega), toNat_packComponents, BitVec.toNat_ofNat]
      simp
      omega

theorem Stands.zero_add {u : UnpackedFloat} {n : ℕ} (stands : Stands u n) :
    UnpackedFloat.add Format.binary64 (.zero .positive) u = u := by
  cases stands <;> rfl

theorem Stands.add_zero {u : UnpackedFloat} {n : ℕ} (stands : Stands u n) :
    UnpackedFloat.add Format.binary64 u (.zero .positive) = u := by
  cases stands <;> rfl

theorem unpack_ofNat_zero :
    UnpackedFloat.unpack Format.binary64 (Float.ofNat 0).toModel.toBits.toBitVec =
      .zero .positive := rfl

theorem place_add (x y : Float) :
    place (x + y) = BitVec.toNat (UnpackedFloat.pack Format.binary64
      (UnpackedFloat.add Format.binary64
        (UnpackedFloat.unpack Format.binary64 x.toModel.toBits.toBitVec)
        (UnpackedFloat.unpack Format.binary64 y.toModel.toBits.toBitVec))) := rfl

/-- A full mantissa is not shifted to the left before it is rounded. -/
theorem toNat_pack_normalize {n x k : ℕ} (same : x = n * 2 ^ k) (full : 2 ^ 52 ≤ x) :
    BitVec.toNat (UnpackedFloat.pack Format.binary64
      (normalize Format.binary64 x (-k) .positive)) = placeOf n := by
  have long : 52 ≤ x.log2 := (Nat.le_log2 (by omega)).mpr full
  have positive : compare (x : ℤ) 0 = .gt := by
    rw [Int.compare_eq_gt]
    omega
  have amount : (-(k : ℤ) - Format.binary64.targetExponent (totalExponent x (-k))).toNat = 0 := by
    have width : Format.binary64.mantissaBits = 53 := rfl
    rw [Format.targetExponent, totalExponent, width]
    omega
  unfold UnpackedFloat.normalize
  rw [positive]
  dsimp only
  unfold UnpackedFloat.round decreaseExponent
  dsimp only
  rw [Int.toNat_natCast, amount, Nat.shiftLeft_zero, Nat.cast_zero, sub_zero]
  exact toNat_pack_round_whole same full

/-- The sum of two mantissas at the lesser scale is the sum of the numbers at that scale. -/
theorem toNat_pack_add {i j m m' a a' : ℕ} (pos : 0 < m) (pos' : 0 < m') (full : 2 ^ 52 ≤ m)
    (same : m * 2 ^ a = i * 2 ^ 53) (same' : m' * 2 ^ a' = j * 2 ^ 53) (fine : a ≤ 53) :
    BitVec.toNat (UnpackedFloat.pack Format.binary64 (UnpackedFloat.add Format.binary64
      (.finite .positive m (a - 53) pos) (.finite .positive m' (a' - 53) pos'))) =
      placeOf (i + j) := by
  have first : ((a : ℤ) - 53 - min ((a : ℤ) - 53) (a' - 53)).toNat = a - min a a' := by omega
  have second : ((a' : ℤ) - 53 - min ((a : ℤ) - 53) (a' - 53)).toNat = a' - min a a' := by omega
  have scale : min ((a : ℤ) - 53) (a' - 53) = -((53 - min a a' : ℕ) : ℤ) := by omega
  unfold UnpackedFloat.add decreaseExponent
  dsimp only [Sign.apply]
  rw [first, second, scale, Nat.shiftLeft_eq, Nat.shiftLeft_eq, ← Nat.cast_add]
  refine toNat_pack_normalize ?_ ?_
  · have positive : 0 < 2 ^ min a a' := Nat.two_pow_pos _
    refine Nat.eq_of_mul_eq_mul_right positive ?_
    calc (m * 2 ^ (a - min a a') + m' * 2 ^ (a' - min a a')) * 2 ^ min a a'
        = m * 2 ^ a + m' * 2 ^ a' := by
          rw [Nat.add_mul, Nat.mul_assoc, Nat.mul_assoc, ← Nat.pow_add, ← Nat.pow_add,
            Nat.sub_add_cancel (Nat.min_le_left a a'), Nat.sub_add_cancel (Nat.min_le_right a a')]
      _ = (i + j) * 2 ^ 53 := by rw [same, same', Nat.add_mul]
      _ = (i + j) * 2 ^ (53 - min a a') * 2 ^ min a a' := by
          rw [Nat.mul_assoc, ← Nat.pow_add, Nat.sub_add_cancel (by omega)]
  · have scaled : m ≤ m * 2 ^ (a - min a a') := Nat.le_mul_of_pos_right m (Nat.two_pow_pos _)
    omega

/-- The product of two mantissas is the product of the numbers at the product of the scales. -/
theorem toNat_pack_mul {i j m m' a a' : ℕ} (pos : 0 < m) (pos' : 0 < m') (full : 2 ^ 52 ≤ m)
    (same : m * 2 ^ a = i * 2 ^ 53) (same' : m' * 2 ^ a' = j * 2 ^ 53) (fine : a + a' ≤ 106) :
    BitVec.toNat (UnpackedFloat.pack Format.binary64 (UnpackedFloat.mul Format.binary64
      (.finite .positive m (a - 53) pos) (.finite .positive m' (a' - 53) pos'))) =
      placeOf (i * j) := by
  have scale : (a : ℤ) - 53 + (a' - 53) = -((106 - (a + a') : ℕ) : ℤ) := by omega
  unfold UnpackedFloat.mul
  dsimp only
  rw [scale]
  refine toNat_pack_round_whole ?_ ?_
  · have positive : 0 < 2 ^ (a + a') := Nat.two_pow_pos _
    refine Nat.eq_of_mul_eq_mul_right positive ?_
    calc m * m' * 2 ^ (a + a') = m * 2 ^ a * (m' * 2 ^ a') := by
          rw [Nat.pow_add, Nat.mul_mul_mul_comm]
      _ = i * j * 2 ^ 106 := by rw [same, same', Nat.mul_mul_mul_comm, ← Nat.pow_add]
      _ = i * j * 2 ^ (106 - (a + a')) * 2 ^ (a + a') := by
          rw [Nat.mul_assoc (i * j), ← Nat.pow_add, Nat.sub_add_cancel fine]
  · exact Nat.le_trans full (Nat.le_mul_of_pos_right m pos')

theorem ofNat_add {i j : ℕ} (bounded : i + j ≤ 2 ^ 53) :
    Float.ofNat i + Float.ofNat j = Float.ofNat (i + j) := by
  have stands (n : ℕ) := stands_unpack ((place_ofNat n).trans_le (placeOf_le_top n))
  apply place_injective
  rw [place_add, place_ofNat]
  by_cases first : i = 0
  · rw [first, unpack_ofNat_zero, (stands j).zero_add, (stands j).toNat_pack, Nat.zero_add]
    exact place_ofNat j
  by_cases second : j = 0
  · rw [second, unpack_ofNat_zero, (stands i).add_zero, (stands i).toNat_pack, Nat.add_zero]
    exact place_ofNat i
  obtain ⟨m, pos, unpacked, full, same⟩ := unpack_ofNat first (by omega)
  obtain ⟨m', pos', unpacked', -, same'⟩ := unpack_ofNat second (by omega)
  -- Below a sum of two numbers there are at most 53 bits.
  have short : i.log2 < 53 := (Nat.log2_lt first).mpr (by omega)
  rw [unpacked, unpacked']
  exact toNat_pack_add pos pos' full same same' short

theorem ofNat_mul {i j : ℕ} (first : i ≤ 2 ^ 53) (second : j ≤ 2 ^ 53)
    (bounded : i * j ≤ 2 ^ 53) : Float.ofNat i * Float.ofNat j = Float.ofNat (i * j) := by
  apply place_injective
  rw [place_mul, place_ofNat]
  by_cases none : i = 0
  · rw [none, unpack_ofNat_zero, Nat.zero_mul]
    by_cases none' : j = 0
    · rw [none', unpack_ofNat_zero]
      rfl
    · obtain ⟨m', pos', unpacked', -, -⟩ := unpack_ofNat none' second
      rw [unpacked']
      rfl
  obtain ⟨m, pos, unpacked, full, same⟩ := unpack_ofNat none first
  rw [unpacked]
  by_cases none' : j = 0
  · rw [none', unpack_ofNat_zero, Nat.mul_zero]
    rfl
  obtain ⟨m', pos', unpacked', -, same'⟩ := unpack_ofNat none' second
  have short : i.log2 + j.log2 ≤ 53 := by
    refine (Nat.pow_le_pow_iff_right (Nat.lt_succ_self 1)).mp (Nat.le_trans ?_ bounded)
    rw [Nat.pow_add]
    exact Nat.mul_le_mul (Nat.log2_self_le none) (Nat.log2_self_le none')
  rw [unpacked']
  exact toNat_pack_mul pos pos' full same same' (by omega)

/-- Doubles reckon exactly with whole numbers up to `2 ^ 53`. -/
theorem wholeUpTo {bound : ℕ} (bounded : bound ≤ 2 ^ 53) : WholeUpTo Float bound where
  zero := rfl
  one := rfl
  add within := ofNat_add (within.trans bounded)
  mul first second within :=
    ofNat_mul (first.trans bounded) (second.trans bounded) (within.trans bounded)
  lt_iff {m n} first second := by
    have placed (n : ℕ) : place (Float.ofNat n) ≤ top :=
      (place_ofNat n).trans_le (placeOf_le_top n)
    show Float.ofNat m < Float.ofNat n ↔ m < n
    rw [Double.lt_iff (placed m) (placed n), place_ofNat, place_ofNat]
    refine ⟨fun less => ?_, fun less => placeOf_strict less (second.trans bounded)⟩
    exact not_le.mp fun le => absurd less (not_lt.mpr (placeOf_mono le))

end FlowAdmission.Double
