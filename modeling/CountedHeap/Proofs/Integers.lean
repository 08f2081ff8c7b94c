import CountedHeap.Value.Word
import Mathlib.Data.Nat.Log

/-!
Integers in words and in doubles. An integer word gives back what 31 bits of the integer
say, read with their sign. A double holds every integer of absolute value below `2 ^ 53`
exactly: the leading bit of the integer is where the exponent says, and the rest of it is
the fraction.
-/

namespace CountedHeap

/-! ### Words -/

theorem Word.toNat_ofInt (n : Int) :
    (Word.ofInt n).bits.toNat = (n % Word.halfRange).toNat * 2 := by
  have bound : (n % Word.halfRange).toNat < 0x100000000 := by
    simp only [Word.halfRange]
    omega
  rw [Word.ofInt, UInt64.toNat_ofNat_of_lt']
  generalize (n % Word.halfRange).toNat = low at bound
  rw [UInt64.size]
  omega

theorem Word.isInt_ofInt (n : Int) : (Word.ofInt n).isInt = true := by
  rw [Word.isInt, beq_iff_eq, ← UInt64.toNat_inj, UInt64.toNat_and, Word.toNat_ofInt]
  simp [Nat.and_one_is_mod]

theorem Word.kind_ofInt (n : Int) : (Word.ofInt n).kind = .integer := by
  rw [Word.kind, if_pos (Word.isInt_ofInt n)]

/-- The low 31 bits of an integer come back, the highest of them as the sign. -/
theorem Word.toInt_ofInt (n : Int) : (Word.ofInt n).toInt = n.bmod 0x80000000 := by
  rw [Word.toInt, Word.lowHalf, Word.toNat_ofInt]
  simp only [Word.halfRange, Int.bmod_def]
  omega

theorem Word.number?_ofInt (n : Int) :
    (Word.ofInt n).number? = some (Binary64.ofInt (n.bmod 0x80000000)) := by
  rw [Word.number?, Word.kind_ofInt, Word.toInt_ofInt]

/-! ### Doubles -/

section

variable {n : Nat} {z : Int} {d : Binary64}

/-- A positive number below `2 ^ 53`, shifted to the width of a significand. -/
theorem shifted_bounds (pos : 0 < n) (small : n < 0x20000000000000) :
    n.log2 ≤ 52 ∧ Binary64.leadingBit ≤ n <<< (52 - n.log2) ∧
      n <<< (52 - n.log2) < 2 * Binary64.leadingBit := by
  have low : n.log2 < 53 := (Nat.log2_lt pos.ne').2 small
  have self := Nat.log2_self_le pos.ne'
  have above : n < 2 ^ (n.log2 + 1) := Nat.lt_log2_self
  have width : 2 ^ n.log2 * 2 ^ (52 - n.log2) = Binary64.leadingBit := by
    rw [← Nat.pow_add, Nat.add_sub_cancel' (Nat.le_of_lt_succ low)]
    rfl
  refine ⟨Nat.le_of_lt_succ low, ?_, ?_⟩
  · rw [Nat.shiftLeft_eq, ← width]
    exact Nat.mul_le_mul_right _ self
  · rw [Nat.shiftLeft_eq, ← width, ← Nat.mul_assoc, ← Nat.pow_succ']
    exact Nat.mul_lt_mul_of_pos_right above (Nat.two_pow_pos _)

theorem Binary64.magnitudeOfNat_of_pos (pos : 0 < n) : Binary64.magnitudeOfNat n =
    (n.log2 + 1023) * Binary64.leadingBit + (n <<< (52 - n.log2) - Binary64.leadingBit) :=
  if_neg pos.ne'

/-- The fields of the double of a positive integer. -/
theorem Binary64.fields_of_magnitude (pos : 0 < n) (small : n < 0x20000000000000)
    (magnitude : d.magnitude = Binary64.magnitudeOfNat n) :
    d.exponentField = n.log2 + 1023 ∧ d.significand = n <<< (52 - n.log2) := by
  obtain ⟨-, low, high⟩ := shifted_bounds pos small
  rw [Binary64.magnitudeOfNat_of_pos pos] at magnitude
  have rest : n <<< (52 - n.log2) - Binary64.leadingBit < Binary64.leadingBit := by omega
  have exponent : d.exponentField = n.log2 + 1023 := by
    rw [Binary64.exponentField, magnitude, Nat.mul_comm, Nat.mul_add_div (by decide),
      Nat.div_eq_of_lt rest, Nat.add_zero]
  refine ⟨exponent, ?_⟩
  rw [Binary64.significand, exponent, if_neg (by omega), Binary64.fractionField, magnitude,
    Nat.mul_comm, Nat.mul_add_mod, Nat.mod_eq_of_lt rest]
  omega

theorem Binary64.scale_of_magnitude (pos : 0 < n) (small : n < 0x20000000000000)
    (magnitude : d.magnitude = Binary64.magnitudeOfNat n) :
    d.scale = n.log2 + 1023 ∧ 1075 - d.scale = 52 - n.log2 := by
  have scale : d.scale = n.log2 + 1023 := by
    rw [Binary64.scale, (Binary64.fields_of_magnitude pos small magnitude).1]
    omega
  exact ⟨scale, by omega⟩

theorem Binary64.floorMagnitude_of_magnitude (pos : 0 < n) (small : n < 0x20000000000000)
    (magnitude : d.magnitude = Binary64.magnitudeOfNat n) : d.floorMagnitude = n := by
  obtain ⟨within, -⟩ := shifted_bounds pos small
  obtain ⟨scale, down⟩ := Binary64.scale_of_magnitude pos small magnitude
  obtain ⟨-, significand⟩ := Binary64.fields_of_magnitude pos small magnitude
  rw [Binary64.floorMagnitude, significand]
  split
  · -- The significand is the number itself, and nothing is shifted.
    have full : n.log2 = 52 := by omega
    rw [scale, full]
    exact (Nat.shiftLeft_zero).trans Nat.shiftLeft_zero
  · rw [down, Nat.shiftLeft_shiftRight]

theorem Binary64.isIntegral_of_magnitude (pos : 0 < n) (small : n < 0x20000000000000)
    (magnitude : d.magnitude = Binary64.magnitudeOfNat n) : d.isIntegral = true := by
  obtain ⟨within, low, high⟩ := shifted_bounds pos small
  obtain ⟨scale, down⟩ := Binary64.scale_of_magnitude pos small magnitude
  obtain ⟨-, significand⟩ := Binary64.fields_of_magnitude pos small magnitude
  have finite : d.isFinite = true := by
    rw [Binary64.isFinite, decide_eq_true_eq, magnitude, Binary64.magnitudeOfNat_of_pos pos]
    have exponent : (n.log2 + 1023) * Binary64.leadingBit ≤ 1075 * Binary64.leadingBit :=
      Nat.mul_le_mul_right _ (by omega)
    simp only [Binary64.leadingBit, Binary64.infinityMagnitude] at *
    omega
  have whole : d.significand % (1 <<< (1075 - d.scale)) = 0 := by
    rw [significand, down, Nat.shiftLeft_eq, Nat.one_shiftLeft, Nat.mul_mod_left]
  rw [Binary64.isIntegral, finite, whole]
  simp

theorem Binary64.magnitudeOfNat_lt (small : n < 0x20000000000000) :
    Binary64.magnitudeOfNat n < Binary64.signBit := by
  by_cases pos : 0 < n
  · obtain ⟨within, low, high⟩ := shifted_bounds pos small
    have exponent : (n.log2 + 1023) * Binary64.leadingBit ≤ 1075 * Binary64.leadingBit :=
      Nat.mul_le_mul_right _ (by omega)
    rw [Binary64.magnitudeOfNat_of_pos pos]
    simp only [Binary64.leadingBit, Binary64.signBit] at *
    omega
  · rw [Nat.eq_zero_of_not_pos pos]
    decide

theorem Binary64.toNat_ofInt (small : z.natAbs < 0x20000000000000) :
    (Binary64.ofInt z).bits.toNat =
      (if z < 0 then Binary64.signBit else 0) + Binary64.magnitudeOfNat z.natAbs := by
  have below := Binary64.magnitudeOfNat_lt small
  rw [Binary64.ofInt, UInt64.toNat_ofNat_of_lt']
  simp only [Binary64.signBit, UInt64.size] at *
  split <;> omega

theorem Binary64.magnitude_ofInt (small : z.natAbs < 0x20000000000000) :
    (Binary64.ofInt z).magnitude = Binary64.magnitudeOfNat z.natAbs := by
  have below := Binary64.magnitudeOfNat_lt small
  rw [Binary64.magnitude, Binary64.toNat_ofInt small]
  simp only [Binary64.signBit] at *
  split <;> omega

theorem Binary64.isNegative_ofInt (small : z.natAbs < 0x20000000000000) :
    (Binary64.ofInt z).isNegative = decide (z < 0) := by
  have below := Binary64.magnitudeOfNat_lt small
  rw [Binary64.isNegative, Binary64.toNat_ofInt small, decide_eq_decide]
  simp only [Binary64.signBit] at *
  split <;> omega

/-- A double gives back the integer that it was made from. -/
theorem Binary64.integer?_ofInt (small : z.natAbs < 0x20000000000000) :
    (Binary64.ofInt z).integer? = some z := by
  by_cases pos : 0 < z.natAbs
  · have magnitude := Binary64.magnitude_ofInt small
    rw [Binary64.integer?, if_pos (Binary64.isIntegral_of_magnitude pos small magnitude),
      Binary64.floorMagnitude_of_magnitude pos small magnitude,
      Binary64.isNegative_ofInt small]
    simp only [decide_eq_true_eq, Option.some.injEq]
    split <;> omega
  · have zero : z = 0 := by omega
    subst z
    decide

end

end CountedHeap
