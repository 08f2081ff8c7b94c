import CountedHeap.Proofs.Integers
import Mathlib.Algebra.Order.Field.Basic
import Mathlib.Algebra.Order.Field.Rat
import Mathlib.Data.Int.Cast.Lemmas
import Mathlib.Data.Nat.Cast.Field
import Mathlib.Order.Monotone.Basic

/-!
The numbers that doubles stand for. A finite double is a natural number times a power of
two, with a sign. On the scale of `2 ^ (-1075)` all of them are natural numbers, and the
bits below the sign order them: one step up in the bits is one step up in the number, also
where the exponent changes. So the bits of a double and its number say the same, but for
the sign of zero, and every question about a number can be put to the bits.
-/

namespace CountedHeap

/-- The number that a finite double stands for. -/
def Binary64.value? (d : Binary64) : Option ℚ :=
  if d.isFinite then
    some ((if d.isNegative then -1 else 1) * (d.significand * 2 ^ ((d.scale : ℤ) - 1075)))
  else
    none

/-- One, on the scale of `2 ^ (-1075)`. -/
def scaledOne : Nat := 2 ^ 1075

/-- What a magnitude stands for, on that scale. -/
def scaledOf (m : Nat) : Nat :=
  (if m / Binary64.leadingBit = 0 then m % Binary64.leadingBit
    else Binary64.leadingBit + m % Binary64.leadingBit) * 2 ^ max (m / Binary64.leadingBit) 1

/-! ### Magnitudes are in order -/

section

variable {d d' : Binary64} {q : ℚ} {n : Int} {k m s : Nat}

theorem scaledOne_pos : 0 < scaledOne :=
  pow_pos two_pos _

theorem cast_two_pow (n : Nat) : ((2 ^ n : Nat) : ℚ) = 2 ^ (n : ℤ) := by
  rw [Nat.cast_pow, Nat.cast_ofNat, zpow_natCast]

theorem cast_scaledOne : (scaledOne : ℚ) = 2 ^ (1075 : ℤ) :=
  cast_two_pow 1075

theorem cast_scaledOne_pos : (0 : ℚ) < scaledOne :=
  Nat.cast_pos.2 scaledOne_pos

theorem two_pow_eq_of_le (large : 1075 ≤ s) : 2 ^ s = 2 ^ (s - 1075) * scaledOne := by
  rw [scaledOne, ← Nat.pow_add, Nat.sub_add_cancel large]

theorem scaledOne_eq_of_le (small : s ≤ 1075) : scaledOne = 2 ^ (1075 - s) * 2 ^ s := by
  rw [scaledOne, ← Nat.pow_add, Nat.sub_add_cancel small]

theorem Binary64.scaledOf_magnitude : scaledOf d.magnitude = d.significand * 2 ^ d.scale := rfl

/-- The least magnitude with the exponent `k`. -/
theorem scaledOf_exponent (pos : 0 < k) :
    scaledOf (k * Binary64.leadingBit) = 2 ^ (52 + k) := by
  have exponent : k * Binary64.leadingBit / Binary64.leadingBit = k :=
    Nat.mul_div_cancel k (by decide)
  rw [scaledOf, exponent, Nat.mul_mod_left, if_neg pos.ne', Nat.max_eq_left pos, Nat.add_zero,
    Nat.pow_add]
  rfl

theorem scaledOf_lt_succ (m : Nat) : scaledOf m < scaledOf (m + 1) := by
  have parts := Nat.div_add_mod m Binary64.leadingBit
  have parts' := Nat.div_add_mod (m + 1) Binary64.leadingBit
  have low := Nat.mod_lt m (y := Binary64.leadingBit) (by decide)
  have low' := Nat.mod_lt (m + 1) (y := Binary64.leadingBit) (by decide)
  have leading : Binary64.leadingBit = 0x10000000000000 := rfl
  have step : ((m + 1) / Binary64.leadingBit = m / Binary64.leadingBit ∧
      (m + 1) % Binary64.leadingBit = m % Binary64.leadingBit + 1) ∨
      ((m + 1) / Binary64.leadingBit = m / Binary64.leadingBit + 1 ∧
        (m + 1) % Binary64.leadingBit = 0 ∧
        m % Binary64.leadingBit + 1 = Binary64.leadingBit) := by
    rw [leading] at *
    omega
  rw [scaledOf, scaledOf]
  rcases step with ⟨exponent, fraction⟩ | ⟨exponent, fraction, full⟩
  · -- The exponent stays, and the fraction grows by one.
    rw [exponent, fraction]
    refine Nat.mul_lt_mul_of_pos_right ?_ (Nat.two_pow_pos _)
    split <;> omega
  · -- The fraction runs over into the exponent.
    rw [exponent, fraction, if_neg (Nat.succ_ne_zero _), Nat.max_eq_left (Nat.succ_pos _),
      Nat.add_zero, Nat.pow_succ', ← Nat.mul_assoc]
    split
    · rename_i subnormal
      have one : max 0 1 = 1 := rfl
      rw [subnormal, one, Nat.pow_one, Nat.pow_zero]
      omega
    · rename_i normal
      rw [Nat.max_eq_left (Nat.pos_of_ne_zero normal)]
      exact Nat.mul_lt_mul_of_pos_right (by omega) (Nat.two_pow_pos _)

theorem scaledOf_strictMono : StrictMono scaledOf :=
  strictMono_nat_of_lt_succ scaledOf_lt_succ

/-! ### Numbers and magnitudes -/

theorem Binary64.value?_of_isFinite (finite : d.isFinite = true) : d.value? =
    some ((if d.isNegative then -1 else 1) * ((scaledOf d.magnitude : ℚ) / scaledOne)) := by
  have power : (2 : ℚ) ^ ((d.scale : ℤ) - 1075) = 2 ^ d.scale / scaledOne := by
    rw [cast_scaledOne, zpow_sub₀ two_ne_zero, zpow_natCast]
  rw [Binary64.value?, if_pos finite, power, Binary64.scaledOf_magnitude, Nat.cast_mul,
    Nat.cast_pow, Nat.cast_ofNat, mul_div_assoc]

theorem Binary64.value?_isSome : d.value?.isSome = d.isFinite := by
  rw [Binary64.value?]
  split <;> simp_all

theorem Binary64.isFinite_of_value? (value : d.value? = some q) : d.isFinite = true := by
  rw [← Binary64.value?_isSome, value]
  rfl

theorem Binary64.abs_value (value : d.value? = some q) :
    |q| = (scaledOf d.magnitude : ℚ) / scaledOne := by
  have sign : |(if d.isNegative then -1 else 1 : ℚ)| = 1 := by split <;> simp
  have nonneg : (0 : ℚ) ≤ (scaledOf d.magnitude : ℚ) / scaledOne :=
    div_nonneg (Nat.cast_nonneg _) (Nat.cast_nonneg _)
  rw [Binary64.value?_of_isFinite (Binary64.isFinite_of_value? value)] at value
  cases value
  rw [abs_mul, sign, one_mul, abs_of_nonneg nonneg]

/-- Whether a double reaches a number is read off its magnitude. -/
theorem Binary64.le_abs_value_iff (value : d.value? = some q) :
    (scaledOf m : ℚ) / scaledOne ≤ |q| ↔ m ≤ d.magnitude := by
  rw [Binary64.abs_value value, div_le_div_iff_of_pos_right cast_scaledOne_pos, Nat.cast_le]
  exact scaledOf_strictMono.le_iff_le

theorem Binary64.abs_value_le_iff (value : d.value? = some q) :
    |q| ≤ (scaledOf m : ℚ) / scaledOne ↔ d.magnitude ≤ m := by
  rw [Binary64.abs_value value, div_le_div_iff_of_pos_right cast_scaledOne_pos, Nat.cast_le]
  exact scaledOf_strictMono.le_iff_le

theorem leastFloatMagnitude_eq :
    (scaledOf Word.leastFloatMagnitude : ℚ) / scaledOne = 2 ^ (-127 : ℤ) := by
  have exponent : Word.leastFloatMagnitude = 896 * Binary64.leadingBit := by decide
  rw [exponent, scaledOf_exponent (by decide), cast_scaledOne, cast_two_pow,
    ← zpow_sub₀ two_ne_zero]
  rfl

theorem greatestFloatMagnitude_eq :
    (scaledOf Word.greatestFloatMagnitude : ℚ) / scaledOne = 2 ^ (128 : ℤ) := by
  have exponent : Word.greatestFloatMagnitude = 1151 * Binary64.leadingBit := by decide
  rw [exponent, scaledOf_exponent (by decide), cast_scaledOne, cast_two_pow,
    ← zpow_sub₀ two_ne_zero]
  rfl

/-- The window of the short floats, in numbers. -/
theorem Binary64.inWindow_iff :
    (∃ q, d.value? = some q ∧ 2 ^ (-127 : ℤ) ≤ |q| ∧ |q| ≤ 2 ^ (128 : ℤ)) ↔
      Word.leastFloatMagnitude ≤ d.magnitude ∧ d.magnitude ≤ Word.greatestFloatMagnitude := by
  rw [← leastFloatMagnitude_eq, ← greatestFloatMagnitude_eq]
  constructor
  · rintro ⟨q, value, least, greatest⟩
    exact ⟨(Binary64.le_abs_value_iff value).1 least,
      (Binary64.abs_value_le_iff value).1 greatest⟩
  · rintro ⟨least, greatest⟩
    have finite : d.isFinite = true := by
      rw [Binary64.isFinite, decide_eq_true_eq]
      exact greatest.trans_lt (by decide)
    obtain ⟨q, value⟩ := Option.isSome_iff_exists.1 (Binary64.value?_isSome.trans finite)
    exact ⟨q, value, (Binary64.le_abs_value_iff value).2 least,
      (Binary64.abs_value_le_iff value).2 greatest⟩

/-! ### Integers among the doubles -/

theorem Binary64.floorMagnitude_eq (d : Binary64) :
    d.floorMagnitude = scaledOf d.magnitude / scaledOne := by
  rw [Binary64.floorMagnitude, Binary64.scaledOf_magnitude]
  split
  · rename_i large
    rw [Nat.shiftLeft_eq, two_pow_eq_of_le large, ← Nat.mul_assoc,
      Nat.mul_div_cancel _ scaledOne_pos]
  · rename_i small
    rw [Nat.shiftRight_eq_div_pow, scaledOne_eq_of_le (Nat.le_of_not_le small),
      Nat.mul_div_mul_right _ _ (Nat.two_pow_pos _)]

theorem Binary64.isIntegral_iff :
    d.isIntegral = true ↔ d.isFinite = true ∧ scaledOne ∣ scaledOf d.magnitude := by
  rw [Binary64.isIntegral, Bool.and_eq_true, Binary64.scaledOf_magnitude]
  refine and_congr_right fun _ => ?_
  by_cases large : 1075 ≤ d.scale
  · have whole : scaledOne ∣ d.significand * 2 ^ d.scale := by
      rw [two_pow_eq_of_le large, ← Nat.mul_assoc]
      exact Nat.dvd_mul_left _ _
    simp only [large, decide_true, Bool.true_or, whole]
  · rw [scaledOne_eq_of_le (Nat.le_of_not_le large), Nat.mul_dvd_mul_iff_right (Nat.two_pow_pos _),
      Nat.one_shiftLeft, Nat.dvd_iff_mod_eq_zero]
    simp only [large, decide_false, Bool.false_or, beq_iff_eq]

theorem Binary64.value?_of_integer? (integer : d.integer? = some n) :
    d.value? = some (n : ℚ) := by
  rw [Binary64.integer?] at integer
  split at integer
  · rename_i integral
    cases integer
    obtain ⟨finite, divides⟩ := Binary64.isIntegral_iff.1 integral
    have whole : (scaledOf d.magnitude : ℚ) / scaledOne = d.floorMagnitude := by
      rw [Binary64.floorMagnitude_eq, Nat.cast_div divides cast_scaledOne_pos.ne']
    rw [Binary64.value?_of_isFinite finite, whole]
    split <;> simp
  · cases integer

/-- A double stands for an integer just if it says so. -/
theorem Binary64.integer?_eq_some_iff : d.integer? = some n ↔ d.value? = some (n : ℚ) := by
  refine ⟨Binary64.value?_of_integer?, fun value => ?_⟩
  have absolute := Binary64.abs_value value
  have whole : scaledOf d.magnitude = n.natAbs * scaledOne := by
    rw [eq_div_iff cast_scaledOne_pos.ne', ← Int.cast_abs, Int.abs_eq_natAbs,
      Int.cast_natCast] at absolute
    exact_mod_cast absolute.symm
  have integral : d.isIntegral = true :=
    Binary64.isIntegral_iff.2 ⟨Binary64.isFinite_of_value? value, whole ▸ Nat.dvd_mul_left _ _⟩
  obtain ⟨n', integer⟩ : ∃ n', d.integer? = some n' := ⟨_, if_pos integral⟩
  have same : (n : ℚ) = n' :=
    Option.some.inj (value.symm.trans (Binary64.value?_of_integer? integer))
  rw [integer, Int.cast_inj.1 same]

/-! ### Doubles with the same number -/

theorem Binary64.toNat_bits (d : Binary64) :
    d.bits.toNat = (if d.isNegative then Binary64.signBit else 0) + d.magnitude := by
  have bound := d.bits.toNat_lt
  have half : Binary64.signBit = 0x8000000000000000 := rfl
  rw [Binary64.magnitude, half]
  cases sign : d.isNegative
  · have low := of_decide_eq_false sign
    rw [if_neg Bool.false_ne_true]
    omega
  · have high := of_decide_eq_true sign
    rw [if_pos rfl]
    omega

theorem Binary64.ext_magnitude (sign : d.isNegative = d'.isNegative)
    (magnitude : d.magnitude = d'.magnitude) : d = d' := by
  have bits : d.bits = d'.bits := by
    rw [← UInt64.toNat_inj, Binary64.toNat_bits, Binary64.toNat_bits, sign, magnitude]
  cases d
  cases d'
  exact congrArg Binary64.mk bits

theorem Binary64.isNegative_eq (value : d.value? = some q) (nonzero : q ≠ 0) :
    d.isNegative = decide (q < 0) := by
  rw [Binary64.value?_of_isFinite (Binary64.isFinite_of_value? value)] at value
  have nonneg : (0 : ℚ) ≤ (scaledOf d.magnitude : ℚ) / scaledOne :=
    div_nonneg (Nat.cast_nonneg _) (Nat.cast_nonneg _)
  generalize (scaledOf d.magnitude : ℚ) / scaledOne = a at value nonneg
  cases value
  cases sign : d.isNegative
  · simpa using nonneg
  · simp only [sign, if_true, neg_one_mul, ne_eq, neg_eq_zero] at nonzero
    simpa using lt_of_le_of_ne nonneg (Ne.symm nonzero)

/-- A double is determined by its number, but for the sign of zero. -/
theorem Binary64.eq_of_value? (value : d.value? = some q) (value' : d'.value? = some q)
    (sign : q = 0 → d.isNegative = d'.isNegative) : d = d' := by
  have magnitude : d.magnitude = d'.magnitude := by
    have absolute := (Binary64.abs_value value).symm.trans (Binary64.abs_value value')
    rw [div_left_inj' cast_scaledOne_pos.ne', Nat.cast_inj] at absolute
    exact scaledOf_strictMono.injective absolute
  refine Binary64.ext_magnitude ?_ magnitude
  by_cases zero : q = 0
  · exact sign zero
  · rw [Binary64.isNegative_eq value zero, Binary64.isNegative_eq value' zero]

/-- An integer that a double stands for leads back to it, unless it is negative zero. -/
theorem Binary64.ofInt_of_integer? (integer : d.integer? = some n)
    (small : n.natAbs < 0x20000000000000) (positive : d ≠ Binary64.negativeZero) :
    Binary64.ofInt n = d := by
  have value := Binary64.integer?_eq_some_iff.1 integer
  have value' := Binary64.integer?_eq_some_iff.1 (Binary64.integer?_ofInt small)
  refine Binary64.eq_of_value? value' value fun zero => ?_
  rw [Int.cast_eq_zero] at zero
  subst n
  rw [Binary64.isNegative_ofInt small]
  cases sign : d.isNegative
  · rfl
  · -- Zero with its sign set is negative zero.
    have zero := Binary64.integer?_eq_some_iff.1
      (show Binary64.negativeZero.integer? = some 0 by decide)
    exact absurd (Binary64.eq_of_value? value zero fun _ => sign) positive

end

end CountedHeap
