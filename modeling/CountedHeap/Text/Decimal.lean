import CountedHeap.Value.Binary64
import CountedHeap.Text.Numeral

/-!
Doubles in decimal text. The text is an optional sign, digits with at most one
point among them, and an optional exponent; or it is a name of infinity or of
NaN. The double is the nearest one to the number that is written, and the even
one of two that are equally near. The number is held as an exact quotient, and
all rounding is done once, at the end.
-/

namespace CountedHeap

/-- The nearest integer to `n / d`, and the even one of two. -/
def roundQuotient (n d : Nat) : Nat :=
  if d < 2 * (n % d) ∨ (d = 2 * (n % d) ∧ n / d % 2 = 1) then n / d + 1 else n / d

/-- The magnitude of the double that is nearest to `n / d`. Measured in units of
the least positive double, `2 ^ -1074`, the quotient is cut down to 53 bits by
dropping `shift` places, and the result counts the doubles from zero upwards:
the leading bit for each place dropped, and the rounded significand on top. -/
def Binary64.nearestMagnitude (n d : Nat) : Nat :=
  let units := n <<< 1074
  let shift := (units / d).log2 - 52
  min (shift * Binary64.leadingBit + roundQuotient units (d <<< shift))
    Binary64.infinityMagnitude

/-- The magnitude of the double nearest to `digits * 10 ^ exponent`. Exponents
that leave no doubt about the result are not computed with. -/
def Binary64.decimalMagnitude (digits : Nat) : Int → Nat
  | .ofNat n =>
    if digits = 0 then 0
    else if 400 < n then Binary64.infinityMagnitude
    else Binary64.nearestMagnitude (digits * Nat.pow 10 n) 1
  | .negSucc n =>
    if digits.log2 + 1201 ≤ 3 * (n + 1) then 0
    else Binary64.nearestMagnitude digits (Nat.pow 10 (n + 1))

/-- The magnitude of the NaN that is read. -/
def Binary64.quietNaNMagnitude : Nat :=
  0x7ff8000000000000

/-- A sign, if there is one: whether it is a minus, and the rest of the text. -/
def splitSign : List Char → Bool × List Char
  | '-' :: rest => (true, rest)
  | '+' :: rest => (false, rest)
  | text => (false, text)

/-- The exponent that ends a decimal number; 0 where there is none. -/
def exponentPart? : List Char → Option Int
  | [] => some 0
  | mark :: rest =>
    if mark = 'e' ∨ mark = 'E' then
      match splitSign rest with
      | (negative, digits) =>
        (numeral? digits).map fun n => if negative then -(n : Int) else n
    else
      none

/-- The digits before the point, the digits after it, and what follows. -/
def splitPoint (text : List Char) : List Char × List Char × List Char :=
  let whole := text.takeWhile Char.isDigit
  match text.dropWhile Char.isDigit with
  | '.' :: rest => (whole, rest.takeWhile Char.isDigit, rest.dropWhile Char.isDigit)
  | rest => (whole, [], rest)

/-- The magnitude of a decimal number without sign. -/
def decimalNumber? (text : List Char) : Option Nat :=
  match splitPoint text with
  | (whole, fraction, rest) =>
    if whole.isEmpty && fraction.isEmpty then none
    else
      (exponentPart? rest).map fun exponent =>
        Binary64.decimalMagnitude (digitsValue 0 (whole ++ fraction)) (exponent - fraction.length)

/-- The magnitude that a name stands for, in letters of either case. -/
def namedNumber? (text : List Char) : Option Nat :=
  let name := String.ofList (text.map Char.toLower)
  if name = "inf" ∨ name = "infinity" then some Binary64.infinityMagnitude
  else if name = "nan" then some Binary64.quietNaNMagnitude
  else none

/-- The double that a text writes. -/
def Binary64.ofText? (text : List Char) : Option Binary64 :=
  match splitSign text with
  | (negative, body) =>
    ((decimalNumber? body).or (namedNumber? body)).map fun magnitude =>
      ⟨UInt64.ofNat ((if negative then Binary64.signBit else 0) + magnitude)⟩

end CountedHeap
