/-!
Doubles as bit patterns. Nothing in this library computes with a double: it
stores one, gives it back, and asks where it lies on the line. So a double is
its 64 bits, and every question is answered in exact integer arithmetic on the
sign, the exponent field and the fraction field.
-/

namespace CountedHeap

/-- A double in the binary64 format: sign, 11 exponent bits, 52 fraction bits. -/
structure Binary64 where
  bits : UInt64
  deriving DecidableEq, Repr, Inhabited

/-- The place of the sign in the bits of a double. -/
def Binary64.signBit : Nat := 0x8000000000000000

/-- The place of the bit that the significand of a normal double begins with.
The bits of a double leave it out, and the exponent field begins there. -/
def Binary64.leadingBit : Nat := 0x10000000000000

/-- The bits below the sign. Among doubles that are not NaN they order the
absolute values. -/
def Binary64.magnitude (d : Binary64) : Nat :=
  d.bits.toNat % Binary64.signBit

/-- Whether the sign bit is set; true of negative zero too. -/
def Binary64.isNegative (d : Binary64) : Bool :=
  Binary64.signBit ≤ d.bits.toNat

/-- The exponent field; 0 marks zeros and subnormals, 2047 infinities and NaN. -/
def Binary64.exponentField (d : Binary64) : Nat :=
  d.magnitude / Binary64.leadingBit

def Binary64.fractionField (d : Binary64) : Nat :=
  d.magnitude % Binary64.leadingBit

/-- The bits of positive infinity, the largest magnitude that is not NaN. -/
def Binary64.infinityMagnitude : Nat :=
  0x7ff0000000000000

def Binary64.isNaN (d : Binary64) : Bool :=
  Binary64.infinityMagnitude < d.magnitude

def Binary64.isFinite (d : Binary64) : Bool :=
  d.magnitude < Binary64.infinityMagnitude

/-- A finite double has absolute value `significand * 2 ^ (scale - 1075)`. -/
def Binary64.significand (d : Binary64) : Nat :=
  if d.exponentField = 0 then d.fractionField else Binary64.leadingBit + d.fractionField

def Binary64.scale (d : Binary64) : Nat :=
  max d.exponentField 1

/-- The absolute value of a finite double, without its fractional part. -/
def Binary64.floorMagnitude (d : Binary64) : Nat :=
  if 1075 ≤ d.scale then d.significand <<< (d.scale - 1075)
  else d.significand >>> (1075 - d.scale)

/-- Whether a finite double has no fractional part. -/
def Binary64.isIntegral (d : Binary64) : Bool :=
  d.isFinite &&
    (1075 ≤ d.scale || d.significand % (1 <<< (1075 - d.scale)) == 0)

/-- The integer that a double stands for, if it stands for one. Both zeros
stand for 0. -/
def Binary64.integer? (d : Binary64) : Option Int :=
  if d.isIntegral then
    some (if d.isNegative then -(d.floorMagnitude : Int) else d.floorMagnitude)
  else
    none

/-- Negative zero. -/
def Binary64.negativeZero : Binary64 :=
  ⟨0x8000000000000000⟩

/-- The magnitude bits of a natural number below `2 ^ 53`, which a double holds
exactly: its highest bit is the implicit one, the rest is the fraction. -/
def Binary64.magnitudeOfNat (n : Nat) : Nat :=
  if n = 0 then 0
  else (n.log2 + 1023) * Binary64.leadingBit + (n <<< (52 - n.log2) - Binary64.leadingBit)

/-- The double of an integer of absolute value below `2 ^ 53`. -/
def Binary64.ofInt (n : Int) : Binary64 :=
  ⟨UInt64.ofNat ((if n < 0 then Binary64.signBit else 0) + Binary64.magnitudeOfNat n.natAbs)⟩

end CountedHeap
