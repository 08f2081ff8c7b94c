/-!
Natural numbers in decimal. A numeral is a run of ASCII digits, at least one,
with as many leading zeros as one likes. Where a machine word is read, a plus
sign may come first and the number must fit into 64 bits.
-/

namespace CountedHeap

/-- The value of an ASCII digit. -/
def digitValue (c : Char) : Nat :=
  c.toNat - '0'.toNat

/-- The number that a run of digits continues, read from the left. -/
def digitsValue (start : Nat) (digits : List Char) : Nat :=
  digits.foldl (fun n c => 10 * n + digitValue c) start

/-- The number written by a numeral. -/
def numeral? (text : List Char) : Option Nat :=
  if text ≠ [] ∧ text.all Char.isDigit then some (digitsValue 0 text) else none

/-- The numbers that a 64-bit word holds. -/
def wordLimit : Nat := 0x10000000000000000

/-- The word written by a numeral with an optional plus sign. -/
def wordNumeral? (text : List Char) : Option Nat :=
  match text with
  | '+' :: digits => (numeral? digits).filter (· < wordLimit)
  | digits => (numeral? digits).filter (· < wordLimit)

theorem digitsValue_append (start : Nat) (a b : List Char) :
    digitsValue start (a ++ b) = digitsValue (digitsValue start a) b :=
  List.foldl_append ..

end CountedHeap
