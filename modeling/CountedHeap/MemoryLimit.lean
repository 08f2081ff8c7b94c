import CountedHeap.Text.Blank
import CountedHeap.Text.Decimal

/-!
Memory limits as text: a decimal number of bytes, or of kilo-, mega- or
gigabytes where one of the letters k, m and g follows. The number is a double
and so is its product with the unit. The product is cut down to whole bytes,
and to what a 64-bit word holds.
-/

namespace CountedHeap

inductive MemoryLimitError
  | missing
  | invalid
  deriving DecidableEq, Repr

def MemoryLimitError.message : MemoryLimitError → String
  | .missing => "expecting memory limit"
  | .invalid => "invalid memory limit"

/-- The power of two that a unit letter stands for. -/
def unitExponent? (c : Char) : Option Nat :=
  if c = 'k' ∨ c = 'K' then some 10
  else if c = 'm' ∨ c = 'M' then some 20
  else if c = 'g' ∨ c = 'G' then some 30
  else none

/-- The number of a limit, and the power of two of its unit. -/
def splitUnit (text : List Char) : List Char × Nat :=
  match text.getLast?.bind unitExponent? with
  | some exponent => (text.dropLast, exponent)
  | none => (text, 0)

/-- The absolute value of a finite double times `2 ^ k`, without its fractional
part. -/
def Binary64.floorTimes (d : Binary64) (k : Nat) : Nat :=
  d.significand <<< (d.scale + k) >>> 1075

/-- The whole bytes in `d * 2 ^ k`, if that product is a finite double that is
not negative. The product is exact unless it is too large. -/
def limitBytes? (d : Binary64) (k : Nat) : Option Nat :=
  if d.isNegative || !d.isFinite || decide (1 <<< 1024 ≤ d.floorTimes k) then none
  else some (min (d.floorTimes k) (wordLimit - 1))

/-- The bytes that a text sets as the limit. -/
def memoryLimit (text : String) : Except MemoryLimitError Nat :=
  match splitUnit (trimBlanks text.toList) with
  | (number, k) =>
    if number.isEmpty then .error .missing
    else
      match (Binary64.ofText? number).bind (limitBytes? · k) with
      | some bytes => .ok bytes
      | none => .error .invalid

end CountedHeap
