import CountedHeap.Proofs.Integers
import Mathlib.Algebra.Group.Nat.Defs

/-!
What a word is made of and what is read from it again. The low three bits of a word say
which of four layouts it has, so no word has two of them. A payload comes back unchanged if
it fits above its tag: 31 bits of an integer, 27 bits above a special tag, an address whose
low bits are free, and a double whose exponent lies in the window, which leaves the top of
the double free for the tag of the word.
-/

namespace CountedHeap

/-! ### Bits and arithmetic -/

section

variable {w a t m : UInt64} {n : Nat}

theorem toNat_and_seven : (w &&& 7).toNat = w.toNat % 8 :=
  Nat.and_two_pow_sub_one_eq_mod w.toNat 3

theorem toNat_and_thirtyOne : (w &&& 31).toNat = w.toNat % 32 :=
  Nat.and_two_pow_sub_one_eq_mod w.toNat 5

theorem toNat_and_one : (w &&& 1).toNat = w.toNat % 2 :=
  Nat.and_two_pow_sub_one_eq_mod w.toNat 1

/-- The top `n` bits of a word become its low bits. -/
theorem toNat_rotateLeft (w : UInt64) (pos : 0 < n) (small : n < 64) :
    (rotateLeft w (UInt64.ofNat n)).toNat =
      w.toNat % 2 ^ (64 - n) * 2 ^ n + w.toNat / 2 ^ (64 - n) := by
  have up : (UInt64.ofNat n).toNat % 64 = n := by
    rw [UInt64.toNat_ofNat_of_lt' (small.trans (by decide)), Nat.mod_eq_of_lt small]
  have down : (64 - UInt64.ofNat n).toNat % 64 = 64 - n := by
    rw [UInt64.toNat_sub_of_le]
    · simp; omega
    · simp [UInt64.le_iff_toNat_le]; omega
  have width : 2 ^ 64 = 2 ^ (64 - n) * 2 ^ n := by
    rw [← Nat.pow_add, Nat.sub_add_cancel small.le]
  have high : w.toNat / 2 ^ (64 - n) < 2 ^ n := by
    apply Nat.div_lt_of_lt_mul
    rw [← width]
    exact w.toNat_lt
  rw [rotateLeft, UInt64.toNat_or, UInt64.toNat_shiftLeft, UInt64.toNat_shiftRight, up, down,
    Nat.shiftLeft_eq, Nat.shiftRight_eq_div_pow, width, Nat.mul_mod_mul_right, Nat.mul_comm,
    Nat.two_pow_add_eq_or_of_lt high]

theorem rotateLeft_rotateLeft (w : UInt64) : rotateLeft (rotateLeft w 4) 60 = w := by
  have there := toNat_rotateLeft w (n := 4) (by decide) (by decide)
  have back := toNat_rotateLeft (rotateLeft w 4) (n := 60) (by decide) (by decide)
  have bound := w.toNat_lt
  rw [← UInt64.toNat_inj]
  refine back.trans ?_
  have there' : (rotateLeft w 4).toNat = w.toNat % 2 ^ 60 * 16 + w.toNat / 2 ^ 60 := there
  rw [there']
  omega

/-- The bits under a mask and the bits beside it make up the word. -/
theorem and_not_or_and (w m : UInt64) : w &&& ~~~m ||| w &&& m = w := by
  apply UInt64.toBitVec_inj.1
  apply BitVec.eq_of_getLsbD_eq
  intro i inside
  simp only [UInt64.toBitVec_or, UInt64.toBitVec_and, UInt64.toBitVec_not, BitVec.getLsbD_or,
    BitVec.getLsbD_and, BitVec.getLsbD_not, inside]
  cases w.toBitVec.getLsbD i <;> cases m.toBitVec.getLsbD i <;> rfl

theorem or_and (a t m : UInt64) : (a ||| t) &&& m = a &&& m ||| t &&& m := by
  apply UInt64.toBitVec_inj.1
  apply BitVec.eq_of_getLsbD_eq
  intro i inside
  simp only [UInt64.toBitVec_or, UInt64.toBitVec_and, BitVec.getLsbD_or, BitVec.getLsbD_and]
  cases m.toBitVec.getLsbD i <;> simp

theorem and_not_and (w m : UInt64) : (w &&& ~~~m) &&& m = 0 := by
  rw [UInt64.and_assoc]
  simp

theorem and_and_not (w m : UInt64) : (w &&& m) &&& ~~~m = 0 := by
  rw [UInt64.and_assoc]
  simp

/-- What lies beside the mask altogether is not changed by taking out the mask. -/
theorem and_not_of_clear (clear : a &&& m = 0) : a &&& ~~~m = a := by
  have parts := and_not_or_and a m
  rw [clear] at parts
  simpa using parts

theorem and_of_within (within : t &&& ~~~m = 0) : t &&& m = t := by
  have parts := and_not_or_and t m
  rw [within] at parts
  simpa using parts

end

/-! ### Addresses -/

section

variable {w : Word} {a p t m : UInt64}

theorem Word.address?_eq_some :
    w.address? t m = some p ↔ w.bits &&& m = t ∧ p = w.bits &&& ~~~m ∧ p ≠ 0 := by
  rw [Word.address?, Word.tagUnder]
  split
  · rename_i found
    constructor
    · intro same
      cases same
      exact ⟨found.1, rfl, found.2⟩
    · rintro ⟨-, rfl, -⟩
      rfl
  · rename_i other
    constructor
    · intro absent
      cases absent
    · rintro ⟨tag, rfl, pos⟩
      exact absurd ⟨tag, pos⟩ other

/-- An address read from a word leads back to the word. -/
theorem Word.ofAddress_of_address? (read : w.address? t m = some p) : Word.ofAddress p t = w := by
  obtain ⟨rfl, rfl, -⟩ := Word.address?_eq_some.1 read
  rw [Word.ofAddress, and_not_or_and]

/-- A word of an address gives the address back, if the mask leaves room for the tag and
the tag stays under it. -/
theorem Word.address?_ofAddress (clear : a &&& m = 0) (within : t &&& ~~~m = 0) (pos : a ≠ 0) :
    (Word.ofAddress a t).address? t m = some a := by
  refine Word.address?_eq_some.2 ⟨?_, ?_, pos⟩
  · rw [Word.ofAddress, or_and, clear, and_of_within within, UInt64.zero_or]
  · rw [Word.ofAddress, or_and, within, and_not_of_clear clear, UInt64.or_zero]

end

/-! ### Layouts -/

/-- A special word by its low three bits. -/
def Word.isSpecial (w : Word) : Bool :=
  w.bits &&& 7 == 3 || w.bits &&& 7 == 7

section

variable {w : Word}

theorem Word.isInt_eq (w : Word) : w.isInt = decide (w.bits.toNat % 2 = 0) := by
  rw [Word.isInt, ← toNat_and_one, Bool.eq_iff_iff, beq_iff_eq, decide_eq_true_eq,
    ← UInt64.toNat_inj]
  rfl

theorem low_three_eq {t : UInt64} : (w.bits &&& 7 == t) = decide (w.bits.toNat % 8 = t.toNat) := by
  rw [← toNat_and_seven, Bool.eq_iff_iff, beq_iff_eq, decide_eq_true_eq, ← UInt64.toNat_inj]

theorem Word.isPointer_eq (w : Word) : w.isPointer = decide (w.bits.toNat % 8 = 1) :=
  low_three_eq

theorem Word.isFloat_eq (w : Word) : w.isFloat = decide (w.bits.toNat % 8 = 5) :=
  low_three_eq

theorem Word.isSpecial_eq (w : Word) :
    w.isSpecial = decide (w.bits.toNat % 8 = 3 ∨ w.bits.toNat % 8 = 7) := by
  rw [Word.isSpecial, low_three_eq, low_three_eq, Bool.decide_or]
  rfl

theorem Word.specialTag_eq_iff {t : UInt64} :
    w.specialTag = t ↔ w.bits.toNat % 32 = t.toNat := by
  rw [Word.specialTag, ← UInt64.toNat_inj, toNat_and_thirtyOne]

/-- A word has one of the four layouts and no other. -/
theorem Word.count_layouts (w : Word) :
    [w.isInt, w.isPointer, w.isFloat, w.isSpecial].count true = 1 := by
  rw [w.isInt_eq, w.isPointer_eq, w.isFloat_eq, w.isSpecial_eq]
  have layouts : w.bits.toNat % 2 = 0 ∨ w.bits.toNat % 8 = 1 ∨ w.bits.toNat % 8 = 5 ∨
      w.bits.toNat % 8 = 3 ∨ w.bits.toNat % 8 = 7 := by omega
  rcases layouts with even | low | low | low | low
  · have other : w.bits.toNat % 8 ≠ 1 ∧ w.bits.toNat % 8 ≠ 5 ∧ w.bits.toNat % 8 ≠ 3 ∧
        w.bits.toNat % 8 ≠ 7 := by omega
    simp [even, other]
  all_goals
    have odd : w.bits.toNat % 2 ≠ 0 := by omega
    simp [low, odd]

theorem Word.isInt_iff : w.isInt = true ↔ w.kind = .integer := by
  rw [Word.kind]
  split_ifs <;> simp_all

theorem Word.isPointer_iff : w.isPointer = true ↔ w.kind = .object := by
  have low : w.isPointer = true → w.isInt = false := by
    rw [w.isInt_eq, w.isPointer_eq, decide_eq_true_eq, decide_eq_false_iff_not]
    omega
  rw [Word.kind]
  split_ifs <;> simp_all

theorem Word.isFloat_iff : w.isFloat = true ↔ w.kind = .float := by
  have low : w.isFloat = true → w.isInt = false ∧ w.isPointer = false := by
    rw [w.isInt_eq, w.isPointer_eq, w.isFloat_eq, decide_eq_true_eq, decide_eq_false_iff_not,
      decide_eq_false_iff_not]
    omega
  rw [Word.kind]
  split_ifs <;> simp_all

theorem Word.isBool_iff : w.isBool = true ↔ w.kind = .boolean := by
  have low : w.specialTag = Word.booleanTag → w.isFloat = false := by
    rw [Word.specialTag_eq_iff, w.isFloat_eq, decide_eq_false_iff_not]
    have three : Word.booleanTag.toNat = 3 := rfl
    omega
  rw [Word.isBool, Word.kind]
  split_ifs <;> simp_all

theorem Word.kind_of_isNull (null : w.isNull = true) : w.kind = .null := by
  rw [eq_of_beq null]
  rfl

theorem Word.kind_of_isUndefined (undefined : w.isUndefined = true) : w.kind = .undefined := by
  rw [eq_of_beq undefined]
  rfl

theorem Word.kind_of_isException (exception : w.isException = true) : w.kind = .exception := by
  rw [eq_of_beq exception]
  rfl

end

/-! ### Contents -/

inductive SpecialTag
  | boolean
  | null
  | undefined
  | exception
  | uninitialized
  deriving DecidableEq, Repr

def SpecialTag.bits : SpecialTag → UInt64
  | .boolean => Word.booleanTag
  | .null => Word.nullTag
  | .undefined => Word.undefinedTag
  | .exception => Word.exceptionTag
  | .uninitialized => Word.uninitializedTag

def SpecialTag.kind : SpecialTag → Kind
  | .boolean => .boolean
  | .null => .null
  | .undefined => .undefined
  | .exception => .exception
  | .uninitialized => .uninitialized

/-- 32 bits read as a signed number. -/
def signed (v : UInt32) : Int :=
  v.toInt32.toInt

/-- The tag of a heap address, and the bits that it may use. -/
def Word.addressTag : UInt64 := 1
def Word.addressMask : UInt64 := 7

/-- What a word can be made of so that nothing of it is lost: an integer in range, a double
that has a short float, a special tag with a payload of 27 bits, or the address of an object. -/
inductive Content
  | integer (n : Int) (inRange : Word.leastInt ≤ n ∧ n ≤ Word.greatestInt)
  | float (d : Binary64) (accepted : (Word.ofFloat? d).isSome)
  | special (tag : SpecialTag) (payload : UInt32)
      (inRange : -0x4000000 ≤ signed payload ∧ signed payload ≤ 0x3ffffff)
  | address (bits : UInt64) (nonzero : bits ≠ 0) (aligned : bits.toNat % 8 = 0)

/-- The word that is made of a content. -/
def Content.word : Content → Word
  | .integer n _ => Word.ofInt n
  | .float d accepted => (Word.ofFloat? d).get accepted
  | .special tag payload _ => Word.special tag.bits payload
  | .address bits _ _ => Word.ofAddress bits Word.addressTag

def Content.kind : Content → Kind
  | .integer _ _ => .integer
  | .float _ _ => .float
  | .special tag _ _ => tag.kind
  | .address _ _ _ => .object

/-- The word gives the content back through the accessor that belongs to it. -/
def Content.IsReadFrom (w : Word) : Content → Prop
  | .integer n _ => w.toInt = n
  | .float d _ => w.toFloat = d
  | .special tag payload _ => w.specialTag = tag.bits ∧ w.specialPayload = signed payload
  | .address bits _ _ => w.address? Word.addressTag Word.addressMask = some bits

/-! ### What is read from the words that are made -/

section

variable {n : Int} {d : Binary64} {tag : SpecialTag} {v : UInt32} {a : UInt64} {w : Word}

theorem Word.toInt_ofInt_of_inRange (inRange : Word.leastInt ≤ n ∧ n ≤ Word.greatestInt) :
    (Word.ofInt n).toInt = n := by
  rw [Word.toInt_ofInt, Int.bmod_def]
  simp only [Word.leastInt, Word.greatestInt] at inRange
  omega

theorem Word.toFloat_ofFloat? (made : Word.ofFloat? d = some w) : w.toFloat = d := by
  rw [Word.ofFloat?] at made
  split at made
  · cases made
    rw [Word.toFloat, rotateLeft_rotateLeft, UInt64.sub_add_cancel]
  · cases made

/-- Past the window the four top bits of a double are the sign and the low bits of the tag. -/
theorem top_of_window (least : Word.leastFloatMagnitude ≤ d.magnitude)
    (greatest : d.magnitude ≤ Word.greatestFloatMagnitude) :
    (d.bits - Word.floatBias).toNat / 2 ^ 60 % 8 = 5 := by
  have bias : Word.floatBias.toNat = 2 ^ 64 - 0x1800000000000000 := by decide
  have bound := d.bits.toNat_lt
  rw [UInt64.toNat_sub, bias]
  simp only [Binary64.magnitude, Binary64.signBit, Word.leastFloatMagnitude,
    Word.greatestFloatMagnitude] at least greatest
  omega

theorem Word.kind_ofFloat? (made : Word.ofFloat? d = some w) : w.kind = .float := by
  rw [Word.ofFloat?] at made
  split at made
  · rename_i window
    cases made
    have top := top_of_window window.1 window.2
    have rotated := toNat_rotateLeft (d.bits - Word.floatBias) (n := 4) (by decide) (by decide)
    have rotated' : (rotateLeft (d.bits - Word.floatBias) 4).toNat =
      (d.bits - Word.floatBias).toNat % 2 ^ 60 * 16 +
        (d.bits - Word.floatBias).toNat / 2 ^ 60 := rotated
    rw [← Word.isFloat_iff, Word.isFloat_eq, decide_eq_true_eq]
    dsimp only
    omega
  · cases made

theorem SpecialTag.toNat_bits (tag : SpecialTag) :
    tag.bits.toNat < 32 ∧ (tag.bits.toNat % 8 = 3 ∨ tag.bits.toNat % 8 = 7) := by
  cases tag <;> decide

/-- A tag of five bits and a payload lie side by side. -/
theorem Word.toNat_special (tag : SpecialTag) (v : UInt32) :
    (Word.special tag.bits v).bits.toNat = 32 * v.toNat + tag.bits.toNat := by
  have width : (Word.specialTagWidth.toNat % 64) = 5 := rfl
  have payload := v.toNat_lt
  have narrow := Nat.two_pow_add_eq_or_of_lt (i := 5) tag.toNat_bits.1 v.toNat
  rw [Word.special, UInt64.toNat_or, UInt64.toNat_shiftLeft, UInt32.toNat_toUInt64, width,
    Nat.or_comm, Nat.shiftLeft_eq, Nat.mod_eq_of_lt (by omega), Nat.mul_comm]
  exact narrow.symm

theorem Word.specialTag_special (tag : SpecialTag) (v : UInt32) :
    (Word.special tag.bits v).specialTag = tag.bits := by
  have narrow := tag.toNat_bits.1
  rw [Word.specialTag_eq_iff, Word.toNat_special]
  omega

theorem signed_eq (v : UInt32) : signed v = (v.toNat : Int).bmod 0x100000000 := by
  rw [signed, Int32.toInt, UInt32.toBitVec_toInt32, BitVec.toInt_eq_toNat_bmod]
  rfl

theorem Word.specialPayload_special
    (inRange : -0x4000000 ≤ signed v ∧ signed v ≤ 0x3ffffff) :
    (Word.special tag.bits v).specialPayload = signed v := by
  have narrow := tag.toNat_bits.1
  have bound := v.toNat_lt
  rw [signed_eq, Int.bmod_def] at inRange ⊢
  rw [Word.specialPayload, Word.lowHalf, Word.toNat_special, Int.bmod_def, Word.halfRange]
  omega

theorem Word.kind_special (tag : SpecialTag) (v : UInt32) :
    (Word.special tag.bits v).kind = tag.kind := by
  have bits := Word.toNat_special tag v
  have layout := tag.toNat_bits.2
  have int : (Word.special tag.bits v).isInt = false := by
    rw [Word.isInt_eq, decide_eq_false_iff_not]
    omega
  have pointer : (Word.special tag.bits v).isPointer = false := by
    rw [Word.isPointer_eq, decide_eq_false_iff_not]
    omega
  have float : (Word.special tag.bits v).isFloat = false := by
    rw [Word.isFloat_eq, decide_eq_false_iff_not]
    omega
  rw [Word.kind, int, pointer, float, Word.specialTag_special]
  cases tag <;> rfl

theorem clear_of_aligned (aligned : a.toNat % 8 = 0) : a &&& Word.addressMask = 0 := by
  rw [← UInt64.toNat_inj]
  exact toNat_and_seven.trans aligned

theorem Word.address?_of_aligned (nonzero : a ≠ 0) (aligned : a.toNat % 8 = 0) :
    (Word.ofAddress a Word.addressTag).address? Word.addressTag Word.addressMask = some a :=
  Word.address?_ofAddress (clear_of_aligned aligned) (by decide) nonzero

theorem Word.kind_of_aligned (nonzero : a ≠ 0) (aligned : a.toNat % 8 = 0) :
    (Word.ofAddress a Word.addressTag).kind = .object := by
  obtain ⟨tag, -, -⟩ := Word.address?_eq_some.1 (Word.address?_of_aligned nonzero aligned)
  rw [← Word.isPointer_iff]
  exact beq_iff_eq.2 tag

end

theorem Content.kind_word (c : Content) : c.word.kind = c.kind := by
  cases c with
  | integer n inRange => exact Word.kind_ofInt n
  | float d accepted => exact Word.kind_ofFloat? (Option.some_get accepted).symm
  | special tag v inRange => exact Word.kind_special tag v
  | address a nonzero aligned => exact Word.kind_of_aligned nonzero aligned

theorem Content.isReadFrom_word (c : Content) : c.IsReadFrom c.word := by
  cases c with
  | integer n inRange => exact Word.toInt_ofInt_of_inRange inRange
  | float d accepted => exact Word.toFloat_ofFloat? (Option.some_get accepted).symm
  | special tag v inRange =>
      exact ⟨Word.specialTag_special tag v, Word.specialPayload_special inRange⟩
  | address a nonzero aligned => exact Word.address?_of_aligned nonzero aligned

/-! ### Words of different contents -/

theorem SpecialTag.bits_injective : Function.Injective SpecialTag.bits := by
  intro tag tag' same
  cases tag <;> cases tag' <;> first | rfl | exact absurd same (by decide)

theorem signed_injective : Function.Injective signed := by
  intro v v' same
  rw [signed, signed, Int32.toInt_inj] at same
  exact congrArg Int32.toUInt32 same

/-- A word gives back one content of each kind at the most. -/
theorem Content.eq_of_isReadFrom {w : Word} {c c' : Content} (kind : c.kind = c'.kind)
    (read : c.IsReadFrom w) (read' : c'.IsReadFrom w) : c = c' := by
  have plain (tag : SpecialTag) :
      tag.kind ≠ .integer ∧ tag.kind ≠ .float ∧ tag.kind ≠ .object := by
    cases tag <;> decide
  cases c with
  | integer n =>
      cases c' with
      | integer n' =>
          cases read.symm.trans read'
          rfl
      | float | address => cases kind
      | special tag => exact absurd kind.symm (plain tag).1
  | float d =>
      cases c' with
      | float d' =>
          cases read.symm.trans read'
          rfl
      | integer | address => cases kind
      | special tag => exact absurd kind.symm (plain tag).2.1
  | special tag v =>
      cases c' with
      | special tag' v' =>
          cases SpecialTag.bits_injective (read.1.symm.trans read'.1)
          cases signed_injective (read.2.symm.trans read'.2)
          rfl
      | integer => exact absurd kind (plain tag).1
      | float => exact absurd kind (plain tag).2.1
      | address => exact absurd kind (plain tag).2.2
  | address a =>
      cases c' with
      | address a' =>
          cases Option.some.inj (read.symm.trans read')
          rfl
      | integer | float => cases kind
      | special tag => exact absurd kind.symm (plain tag).2.2

theorem Content.word_injective : Function.Injective Content.word := by
  intro c c' same
  have kind : c.kind = c'.kind := by rw [← c.kind_word, ← c'.kind_word, same]
  exact Content.eq_of_isReadFrom kind c.isReadFrom_word (same ▸ c'.isReadFrom_word)

/-! ### Words and what is read from them -/

/-- The questions about a word agree with each other. -/
structure Word.Coherent (w : Word) : Prop where
  layout : [w.isInt, w.isPointer, w.isFloat, w.isSpecial].count true = 1
  int : w.isInt = true ↔ w.kind = .integer
  pointer : w.isPointer = true ↔ w.kind = .object
  float : w.isFloat = true ↔ w.kind = .float
  boolean : w.isBool = true ↔ w.kind = .boolean
  null : w.isNull = true → w.kind = .null
  undefined : w.isUndefined = true → w.kind = .undefined
  exception : w.isException = true → w.kind = .exception

theorem Word.coherent (w : Word) : w.Coherent where
  layout := w.count_layouts
  int := Word.isInt_iff
  pointer := Word.isPointer_iff
  float := Word.isFloat_iff
  boolean := Word.isBool_iff
  null := Word.kind_of_isNull
  undefined := Word.kind_of_isUndefined
  exception := Word.kind_of_isException

/-- What the constructors of words make is told apart by the word alone and read back from
it. Under any tag and mask, a word has an address just if its bits under the mask are the
tag and the rest of it is not null, and the address and the tag make up the word again. -/
theorem words_are_read_as_they_were_made :
    (∀ w : Word, w.Coherent) ∧
    (∀ c : Content, c.word.kind = c.kind ∧ c.IsReadFrom c.word) ∧
    Function.Injective Content.word ∧
    (∀ (w : Word) (tag mask p : UInt64),
      (w.address? tag mask = some p ↔
        w.bits &&& mask = tag ∧ p = w.bits &&& ~~~mask ∧ p ≠ 0) ∧
      (w.address? tag mask = some p →
        p &&& mask = 0 ∧ tag &&& ~~~mask = 0 ∧ Word.ofAddress p tag = w)) := by
  refine ⟨Word.coherent, fun c => ⟨c.kind_word, c.isReadFrom_word⟩, Content.word_injective, ?_⟩
  intro w tag mask p
  refine ⟨Word.address?_eq_some, fun read => ?_⟩
  obtain ⟨under, beside, -⟩ := Word.address?_eq_some.1 read
  exact ⟨beside ▸ and_not_and _ _, under ▸ and_and_not _ _, Word.ofAddress_of_address? read⟩

end CountedHeap
