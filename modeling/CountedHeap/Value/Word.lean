import CountedHeap.Value.Binary64

/-!
The 64-bit words that hold immediate values. The low bit of an integer is
clear; every other kind has its low bit set and is told apart by its low three
bits (1 for a heap address, 5 for a short float) or, where those are 3 or 7, by
its low five bits (the special tags). The payload sits above the tag.

A short float is a double whose exponent lies within 127 or so of zero. Moving
the exponent window down to zero leaves the top bits free, and a rotation by
four then brings them to the low end, where the subtraction has already put the
tag.
-/

namespace CountedHeap

/-- A tagged machine word. -/
structure Word where
  bits : UInt64
  deriving DecidableEq, Repr, Inhabited

/-- What a word says it holds, read from its bits alone. -/
inductive Kind
  | integer
  | float
  | boolean
  | null
  | undefined
  | uninitialized
  | exception
  | object
  deriving DecidableEq, Repr

/-- The tag of the special words is five bits wide. -/
def Word.specialTagWidth : UInt64 := 5

def Word.booleanTag : UInt64 := 3
def Word.nullTag : UInt64 := 7
def Word.undefinedTag : UInt64 := 11
def Word.exceptionTag : UInt64 := 15
def Word.uninitializedTag : UInt64 := 19

/-- A special word: `payload` above the tag. A wider tag runs into the
payload, and the two are then joined bit by bit. -/
def Word.special (tag : UInt64) (payload : UInt32) : Word :=
  ⟨tag ||| (payload.toUInt64 <<< Word.specialTagWidth)⟩

def Word.null : Word := Word.special Word.nullTag 0
def Word.undefined : Word := Word.special Word.undefinedTag 0
def Word.exception : Word := Word.special Word.exceptionTag 0
def Word.uninitialized : Word := Word.special Word.uninitializedTag 0

def Word.ofBool (b : Bool) : Word :=
  Word.special Word.booleanTag (if b then 1 else 0)

/-- The number of the values that the low half of a word takes. -/
def Word.halfRange : Nat := 0x100000000

/-- An integer as the 32 bits of its two's complement, one place up. -/
def Word.ofInt (n : Int) : Word :=
  ⟨UInt64.ofNat ((n % Word.halfRange).toNat * 2)⟩

/-- The least and the greatest integer that a word gives back unchanged. -/
def Word.leastInt : Int := -0x40000000
def Word.greatestInt : Int := 0x3fffffff

/-! ### Kinds -/

def Word.isInt (w : Word) : Bool :=
  w.bits &&& 1 == 0

def Word.isPointer (w : Word) : Bool :=
  w.bits &&& 7 == 1

def Word.isFloat (w : Word) : Bool :=
  w.bits &&& 7 == 5

/-- The low five bits, which tell the special words apart. -/
def Word.specialTag (w : Word) : UInt64 :=
  w.bits &&& 31

def Word.isBool (w : Word) : Bool :=
  !w.isInt && !w.isPointer && w.specialTag == Word.booleanTag

def Word.isNull (w : Word) : Bool := w == Word.null
def Word.isUndefined (w : Word) : Bool := w == Word.undefined
def Word.isException (w : Word) : Bool := w == Word.exception

def Word.kind (w : Word) : Kind :=
  if w.isInt then .integer
  else if w.isPointer then .object
  else if w.isFloat then .float
  else if w.specialTag == Word.booleanTag then .boolean
  else if w.specialTag == Word.nullTag then .null
  else if w.specialTag == Word.undefinedTag then .undefined
  else if w.specialTag == Word.exceptionTag then .exception
  else .uninitialized

/-! ### Payloads -/

/-- The low half of the word as a signed number. -/
def Word.lowHalf (w : Word) : Int :=
  (w.bits.toNat : Int).bmod Word.halfRange

/-- The integer that an integer word holds. -/
def Word.toInt (w : Word) : Int :=
  w.lowHalf / 2

/-- The payload of a special word, read with its sign. -/
def Word.specialPayload (w : Word) : Int :=
  w.lowHalf / 32

/-! ### Short floats -/

/-- The magnitudes of `2 ^ -127` and `2 ^ 128`, both of which still fit. -/
def Word.leastFloatMagnitude : Nat := 0x3800000000000000
def Word.greatestFloatMagnitude : Nat := 0x47f0000000000000

/-- What is taken from the bits of a double: the lower end of the exponent
window, less the tag in the place from which the rotation fetches it. -/
def Word.floatBias : UInt64 :=
  ((896 : UInt64) - (5 : UInt64) <<< 8) <<< 52

/-- Bits that leave the word at the top come in again at the bottom. -/
def rotateLeft (w : UInt64) (n : UInt64) : UInt64 :=
  (w <<< n) ||| (w >>> (64 - n))

/-- The short float of a double inside the exponent window. -/
def Word.ofFloat? (d : Binary64) : Option Word :=
  if Word.leastFloatMagnitude ≤ d.magnitude ∧ d.magnitude ≤ Word.greatestFloatMagnitude then
    some ⟨rotateLeft (d.bits - Word.floatBias) 4⟩
  else
    none

/-- The double that a short float holds. -/
def Word.toFloat (w : Word) : Binary64 :=
  ⟨rotateLeft w.bits 60 + Word.floatBias⟩

/-- The integer word of a double, where the double is an integer in range
other than negative zero. -/
def Word.ofIntegral? (d : Binary64) : Option Word :=
  match d.integer? with
  | some n =>
    if Word.leastInt ≤ n ∧ n ≤ Word.greatestInt ∧ d ≠ Binary64.negativeZero then
      some (Word.ofInt n)
    else
      none
  | none => none

/-- The immediate encoding of a double, if it has one: an integer where that
loses nothing, else a short float. -/
def Word.ofNumber? (d : Binary64) : Option Word :=
  (Word.ofIntegral? d).or (Word.ofFloat? d)

/-- The double that a number word stands for. -/
def Word.number? (w : Word) : Option Binary64 :=
  match w.kind with
  | .integer => some (Binary64.ofInt w.toInt)
  | .float => some w.toFloat
  | _ => none

/-! ### Addresses

A word under any tag mask: an address whose bits under the mask are clear, with
a tag in their place. -/

def Word.ofAddress (address tag : UInt64) : Word :=
  ⟨address ||| tag⟩

/-- The bits that the mask selects. -/
def Word.tagUnder (w : Word) (mask : UInt64) : UInt64 :=
  w.bits &&& mask

/-- The address in the word, if it carries that tag and is not null. -/
def Word.address? (w : Word) (tag mask : UInt64) : Option UInt64 :=
  if w.tagUnder mask = tag ∧ w.bits &&& ~~~mask ≠ 0 then
    some (w.bits &&& ~~~mask)
  else
    none

end CountedHeap
