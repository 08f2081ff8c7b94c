import CountedHeap.Proofs.Numerals
import CountedHeap.Proofs.Rounding
import Mathlib.Tactic.FieldSimp

/-!
The texts of doubles. A decimal text is a sign, digits with a point among them and an
exponent, each of them in its place and all but one digit optional; it writes a rational
number, and the double read from it is the one that number is rounded to. The other texts
are the names of infinity and of NaN, with a sign as well. Nothing else is read, and each
text that is read gives one double.
-/

namespace CountedHeap

/-! ### The grammar -/

/-- An optional sign, and whether it is a minus. -/
inductive SignText : List Char → Bool → Prop
  | absent : SignText [] false
  | plus : SignText ['+'] false
  | minus : SignText ['-'] true

/-- A run of digits, which may be empty. -/
def Digits (text : List Char) : Prop :=
  ∀ c ∈ text, c.isDigit = true

instance : DecidablePred Digits :=
  List.decidableBAll fun c => Char.isDigit c = true

/-- An optional exponent; without one it is zero. -/
inductive ExponentText : List Char → Int → Prop
  | absent : ExponentText [] 0
  | present {mark : Char} {sign digits : List Char} {negative : Bool}
      (letter : mark = 'e' ∨ mark = 'E') (signed : SignText sign negative) (run : Digits digits)
      (nonempty : digits ≠ []) :
      ExponentText (mark :: (sign ++ digits))
        (if negative then -(digitsValue 0 digits : Int) else digitsValue 0 digits)

/-- Digits with at most one point among them: the text, the whole part and the fraction. -/
inductive PointText : List Char → List Char → List Char → Prop
  | absent {whole : List Char} : PointText whole whole []
  | present {whole fraction : List Char} : PointText (whole ++ '.' :: fraction) whole fraction

/-- A decimal number without a sign, and its value. -/
inductive DecimalText : List Char → ℚ → Prop
  | mk {text whole fraction rest : List Char} {e : Int} (point : PointText text whole fraction)
      (before : Digits whole) (after : Digits fraction) (nonempty : whole ≠ [] ∨ fraction ≠ [])
      (exponent : ExponentText rest e) :
      DecimalText (text ++ rest)
        ((digitsValue 0 whole + digitsValue 0 fraction / 10 ^ fraction.length) * 10 ^ e)

/-- A name in letters of either case, and the magnitude that it stands for. -/
inductive NameText : List Char → Nat → Prop
  | inf {text : List Char} (name : text.map Char.toLower = ['i', 'n', 'f']) :
      NameText text Binary64.infinityMagnitude
  | infinity {text : List Char}
      (name : text.map Char.toLower = ['i', 'n', 'f', 'i', 'n', 'i', 't', 'y']) :
      NameText text Binary64.infinityMagnitude
  | nan {text : List Char} (name : text.map Char.toLower = ['n', 'a', 'n']) :
      NameText text Binary64.quietNaNMagnitude

/-- The magnitude of a text without a sign: what a decimal number is rounded to, or what a
name stands for. -/
inductive MagnitudeText : List Char → Nat → Prop
  | decimal {text : List Char} {q : ℚ} {m : Nat} (number : DecimalText text q)
      (rounds : Binary64.Rounds q m) : MagnitudeText text m
  | name {text : List Char} {m : Nat} (name : NameText text m) : MagnitudeText text m

/-- The texts that are read as doubles. -/
inductive NumberText : List Char → Binary64 → Prop
  | mk {sign body : List Char} {d : Binary64} (signed : SignText sign d.isNegative)
      (unsigned : MagnitudeText body d.magnitude) : NumberText (sign ++ body) d

section

variable {text sign body rest whole fraction digits : List Char} {c : Char} {negative : Bool}
  {e : Int} {m n : Nat} {q : ℚ} {d : Binary64}

/-! ### Signs -/

theorem SignText.of_splitSign (text : List Char) :
    ∃ sign, SignText sign (splitSign text).1 ∧ text = sign ++ (splitSign text).2 := by
  unfold splitSign
  split
  · exact ⟨_, .minus, rfl⟩
  · exact ⟨_, .plus, rfl⟩
  · exact ⟨_, .absent, rfl⟩

/-- A sign is cut off from what does not begin with another. -/
theorem SignText.splitSign_append (signed : SignText sign negative)
    (unsigned : ∀ c ∈ body.head?, c ≠ '+' ∧ c ≠ '-') :
    splitSign (sign ++ body) = (negative, body) := by
  cases signed with
  | absent =>
      rw [List.nil_append]
      unfold splitSign
      split
      · exact absurd rfl (unsigned '-' rfl).2
      · exact absurd rfl (unsigned '+' rfl).1
      · rfl
  | plus => rfl
  | minus => rfl

/-! ### Digits and points -/

theorem numeral?_eq_some : numeral? text = some n ↔
    Digits text ∧ text ≠ [] ∧ digitsValue 0 text = n := by
  rw [numeral?, Option.ite_none_right_eq_some, Option.some.injEq, List.all_eq_true, and_assoc,
    and_left_comm]
  rfl

theorem Digits.unsigned (run : Digits digits) : ∀ c ∈ digits.head?, c ≠ '+' ∧ c ≠ '-' := by
  intro c first
  have digit := run c (List.mem_of_head? first)
  constructor <;> (rintro rfl; cases digit)

theorem digits_takeWhile (text : List Char) : Digits (text.takeWhile Char.isDigit) :=
  List.all_eq_true.1 List.all_takeWhile

/-- A run is cut off from what does not go on with it. -/
theorem takeWhile_run {p : Char → Bool} (rest : List Char) (run : ∀ c ∈ text, p c = true)
    (stop : ∀ c ∈ rest.head?, p c = false) :
    (text ++ rest).takeWhile p = text ∧ (text ++ rest).dropWhile p = rest := by
  rw [List.takeWhile_append_of_pos run, List.dropWhile_append_of_pos run]
  cases rest with
  | nil => exact ⟨List.append_nil _, rfl⟩
  | cons c rest =>
      rw [List.takeWhile_cons, List.dropWhile_cons, stop c rfl]
      exact ⟨List.append_nil _, rfl⟩

theorem PointText.of_splitPoint (parts : splitPoint text = (whole, fraction, rest)) :
    Digits whole ∧ Digits fraction ∧
      ∃ number, PointText number whole fraction ∧ text = number ++ rest := by
  have cut := List.takeWhile_append_dropWhile (p := Char.isDigit) (l := text)
  unfold splitPoint at parts
  dsimp only at parts
  split at parts
  · rename_i after point
    cases parts
    refine ⟨digits_takeWhile _, digits_takeWhile _, _, .present, ?_⟩
    rw [List.append_assoc, List.cons_append, List.takeWhile_append_dropWhile, ← point, cut]
  · cases parts
    exact ⟨digits_takeWhile _, List.forall_mem_nil _, _, .absent, cut.symm⟩

theorem PointText.splitPoint_append (point : PointText text whole fraction)
    (before : Digits whole) (after : Digits fraction)
    (stop : ∀ c ∈ rest.head?, c.isDigit = false ∧ c ≠ '.') :
    splitPoint (text ++ rest) = (whole, fraction, rest) := by
  have stop' : ∀ c ∈ rest.head?, c.isDigit = false := fun c first => (stop c first).1
  unfold splitPoint
  dsimp only
  cases point with
  | absent =>
      obtain ⟨taken, left⟩ := takeWhile_run rest before stop'
      rw [taken, left]
      split
      · exact absurd rfl (stop '.' rfl).2
      · rfl
  | present =>
      obtain ⟨taken, left⟩ := takeWhile_run ('.' :: (fraction ++ rest)) before
        fun c first => by cases first; rfl
      obtain ⟨taken', left'⟩ := takeWhile_run rest after stop'
      rw [List.append_assoc, List.cons_append, taken, left]
      simp only [taken', left']

/-! ### Exponents -/

theorem exponentPart?_cons (mark : Char) (rest : List Char) :
    exponentPart? (mark :: rest) = some e ↔ (mark = 'e' ∨ mark = 'E') ∧
      ∃ n, numeral? (splitSign rest).2 = some n ∧
        (if (splitSign rest).1 then -(n : Int) else n) = e := by
  rw [exponentPart?, Option.ite_none_right_eq_some]
  rcases splitSign rest with ⟨negative, digits⟩
  dsimp only
  cases numeral? digits <;> simp

theorem exponentPart?_eq_some_iff : exponentPart? text = some e ↔ ExponentText text e := by
  constructor
  · intro read
    cases text with
    | nil =>
        cases read
        exact .absent
    | cons mark rest =>
        obtain ⟨letter, n, number, rfl⟩ := (exponentPart?_cons mark rest).1 read
        obtain ⟨sign, signed, parts⟩ := SignText.of_splitSign rest
        obtain ⟨run, nonempty, rfl⟩ := numeral?_eq_some.1 number
        have exponent := ExponentText.present letter signed run nonempty
        rwa [← parts] at exponent
  · rintro (_ | ⟨letter, signed, run, nonempty⟩)
    · rfl
    · refine (exponentPart?_cons _ _).2 ⟨letter, ?_⟩
      rw [signed.splitSign_append run.unsigned]
      exact ⟨_, numeral?_eq_some.2 ⟨run, nonempty, rfl⟩, rfl⟩

theorem ExponentText.stop (exponent : ExponentText rest e) :
    ∀ c ∈ rest.head?, c.isDigit = false ∧ c ≠ '.' := by
  intro c first
  cases exponent with
  | absent => cases first
  | present letter =>
      cases first
      rcases letter with rfl | rfl <;> decide

/-! ### Decimal numbers -/

/-- Digits behind a number move it to the left. -/
theorem digitsValue_eq (start : Nat) (digits : List Char) :
    digitsValue start digits = start * 10 ^ digits.length + digitsValue 0 digits := by
  induction digits using List.reverseRecOn with
  | nil => rw [List.length_nil, pow_zero, mul_one]; rfl
  | append_singleton digits c ih =>
      have last (start : Nat) : digitsValue start (digits ++ [c]) =
          10 * digitsValue start digits + digitValue c := digitsValue_append start digits [c]
      rw [last, last, ih, List.length_append, List.length_singleton, pow_succ]
      ring

/-- The digits on both sides of a point, taken as one number. -/
theorem point_value (whole fraction : List Char) (e : Int) :
    (digitsValue 0 (whole ++ fraction) : ℚ) * 10 ^ (e - fraction.length) =
      (digitsValue 0 whole + digitsValue 0 fraction / 10 ^ fraction.length) * 10 ^ e := by
  have ten : (10 : ℚ) ≠ 0 := by norm_num
  rw [digitsValue_append, digitsValue_eq, zpow_sub₀ ten, zpow_natCast]
  push_cast
  field_simp

theorem decimalNumber?_eq_some_iff : decimalNumber? text = some m ↔
    ∃ q, DecimalText text q ∧ Binary64.Rounds q m := by
  have parsed (whole fraction rest : List Char)
      (parts : splitPoint text = (whole, fraction, rest)) :
      decimalNumber? text = some m ↔ (whole ≠ [] ∨ fraction ≠ []) ∧
        ∃ e, ExponentText rest e ∧ Binary64.decimalMagnitude (digitsValue 0 (whole ++ fraction))
          (e - fraction.length) = m := by
    rw [decimalNumber?, parts]
    simp only [Option.ite_none_left_eq_some, Option.map_eq_some_iff, Bool.and_eq_true,
      List.isEmpty_iff, not_and_or, exponentPart?_eq_some_iff, ne_eq]
  constructor
  · intro read
    rcases parts : splitPoint text with ⟨whole, fraction, rest⟩
    obtain ⟨nonempty, e, exponent, rfl⟩ := (parsed _ _ _ parts).1 read
    obtain ⟨before, after, number, point, rfl⟩ := PointText.of_splitPoint parts
    refine ⟨_, .mk point before after nonempty exponent, ?_⟩
    rw [← point_value]
    exact Binary64.rounds_decimalMagnitude _ _
  · rintro ⟨_, ⟨point, before, after, nonempty, exponent⟩, rounds⟩
    rw [← point_value] at rounds
    exact (parsed _ _ _ (point.splitPoint_append before after exponent.stop)).2
      ⟨nonempty, _, exponent, (Binary64.rounds_decimalMagnitude _ _).unique rounds⟩

/-! ### Names -/

theorem namedNumber?_eq_some_iff : namedNumber? text = some m ↔ NameText text m := by
  have inf : "inf" = String.ofList ['i', 'n', 'f'] := rfl
  have infinity : "infinity" = String.ofList ['i', 'n', 'f', 'i', 'n', 'i', 't', 'y'] := rfl
  have nan : "nan" = String.ofList ['n', 'a', 'n'] := rfl
  constructor
  · intro read
    rw [namedNumber?, inf, infinity, nan] at read
    simp only [String.ofList_inj] at read
    split at read
    · rename_i name
      cases read
      exact name.elim .inf .infinity
    · split at read
      · rename_i name
        cases read
        exact .nan name
      · cases read
  · rintro (name | name | name) <;> (rw [namedNumber?, name]; decide)

/-- A name does not begin as a number does. -/
theorem NameText.letter (name : NameText text m) :
    ∃ c, text.head? = some c ∧ (c.toLower = 'i' ∨ c.toLower = 'n') := by
  have first {letter : Char} {letters : List Char}
      (name : text.map Char.toLower = letter :: letters) :
      ∃ c, text.head? = some c ∧ c.toLower = letter := by
    obtain ⟨c, rest, rfl, lower, -⟩ := List.map_eq_cons_iff.1 name
    exact ⟨c, rfl, lower⟩
  cases name with
  | inf name => exact (first name).imp fun c => .imp_right .inl
  | infinity name => exact (first name).imp fun c => .imp_right .inl
  | nan name => exact (first name).imp fun c => .imp_right .inr

theorem DecimalText.first (number : DecimalText text q) :
    ∃ c, text.head? = some c ∧ (c.isDigit = true ∨ c = '.') := by
  cases number with
  | @mk number whole fraction rest e point before after nonempty exponent =>
      cases whole with
      | cons c whole =>
          have digit := before c List.mem_cons_self
          cases point <;> exact ⟨c, rfl, .inl digit⟩
      | nil =>
          cases point with
          | absent => exact absurd rfl (nonempty.resolve_left (not_not_intro rfl))
          | present => exact ⟨'.', rfl, .inr rfl⟩

theorem toLower_eq_self (other : ¬(65 ≤ c.toNat ∧ c.toNat ≤ 90)) : c.toLower = c := by
  refine dif_neg ?_
  rwa [ge_iff_le, UInt32.le_iff_toNat_le, UInt32.le_iff_toNat_le]

theorem NameText.decimalNumber? (name : NameText text m) : decimalNumber? text = none := by
  obtain ⟨c, first, letter⟩ := name.letter
  rw [Option.eq_none_iff_forall_ne_some]
  intro m' read
  obtain ⟨q, number, -⟩ := decimalNumber?_eq_some_iff.1 read
  obtain ⟨c', first', digit⟩ := number.first
  obtain rfl : c = c' := Option.some.inj (first.symm.trans first')
  rcases digit with digit | rfl
  · obtain ⟨low, high⟩ := Char.isDigit_iff_toNat.1 digit
    rw [toLower_eq_self (by simp at *; omega)] at letter
    rcases letter with rfl | rfl <;> cases digit
  · revert letter
    decide

/-! ### Doubles -/

theorem magnitudeText_iff : (decimalNumber? text).or (namedNumber? text) = some m ↔
    MagnitudeText text m := by
  rw [Option.or_eq_some_iff, decimalNumber?_eq_some_iff, namedNumber?_eq_some_iff]
  constructor
  · rintro (⟨q, number, rounds⟩ | ⟨-, name⟩)
    · exact .decimal number rounds
    · exact .name name
  · rintro (⟨number, rounds⟩ | name)
    · exact .inl ⟨_, number, rounds⟩
    · exact .inr ⟨name.decimalNumber?, name⟩

theorem MagnitudeText.unsigned (unsigned : MagnitudeText body m) :
    ∀ c ∈ body.head?, c ≠ '+' ∧ c ≠ '-' := by
  intro c first
  cases unsigned with
  | decimal number =>
      obtain ⟨c', first', digit⟩ := number.first
      obtain rfl : c = c' := Option.some.inj (first.symm.trans first')
      constructor <;> (rintro rfl; revert digit; decide)
  | name name =>
      obtain ⟨c', first', letter⟩ := name.letter
      obtain rfl : c = c' := Option.some.inj (first.symm.trans first')
      constructor <;> (rintro rfl; revert letter; decide)

theorem MagnitudeText.lt_signBit (unsigned : MagnitudeText body m) : m < Binary64.signBit := by
  cases unsigned with
  | decimal number rounds =>
      have le : m ≤ Binary64.infinityMagnitude := rounds.mem
      exact le.trans_lt (by decide)
  | name name => cases name <;> decide

/-- The double with a given sign and magnitude. -/
theorem Binary64.mk_eq_iff (small : m < Binary64.signBit) :
    ⟨UInt64.ofNat ((if negative then Binary64.signBit else 0) + m)⟩ = d ↔
      d.isNegative = negative ∧ d.magnitude = m := by
  have bits : (UInt64.ofNat ((if negative then Binary64.signBit else 0) + m)).toNat =
      (if negative then Binary64.signBit else 0) + m := by
    rw [UInt64.toNat_ofNat_of_lt']
    simp only [Binary64.signBit, UInt64.size] at *
    split <;> omega
  have sign : Binary64.isNegative
      ⟨UInt64.ofNat ((if negative then Binary64.signBit else 0) + m)⟩ = negative := by
    rw [Binary64.isNegative, bits]
    cases negative <;> simp [small]
  have magnitude : Binary64.magnitude
      ⟨UInt64.ofNat ((if negative then Binary64.signBit else 0) + m)⟩ = m := by
    rw [Binary64.magnitude, bits]
    cases negative <;> simp [small, Nat.mod_eq_of_lt]
  constructor
  · rintro rfl
    exact ⟨sign, magnitude⟩
  · rintro ⟨sign', magnitude'⟩
    exact Binary64.ext_magnitude (sign.trans sign'.symm) (magnitude.trans magnitude'.symm)

theorem Binary64.exists_of_magnitude (negative : Bool) (small : m < Binary64.signBit) :
    ∃ d : Binary64, d.isNegative = negative ∧ d.magnitude = m :=
  ⟨_, (Binary64.mk_eq_iff small).1 rfl⟩

/-- A text is read as a double just if the grammar has it as a text of that double. -/
theorem Binary64.ofText?_eq_some_iff : Binary64.ofText? text = some d ↔ NumberText text d := by
  have read : Binary64.ofText? text = some d ↔
      MagnitudeText (splitSign text).2 d.magnitude ∧ d.isNegative = (splitSign text).1 := by
    rw [Binary64.ofText?, Option.map_eq_some_iff]
    constructor
    · rintro ⟨m, unsigned, same⟩
      rw [magnitudeText_iff] at unsigned
      obtain ⟨sign, rfl⟩ := (Binary64.mk_eq_iff unsigned.lt_signBit).1 same
      exact ⟨unsigned, sign⟩
    · rintro ⟨unsigned, sign⟩
      exact ⟨_, magnitudeText_iff.2 unsigned,
        (Binary64.mk_eq_iff unsigned.lt_signBit).2 ⟨sign, rfl⟩⟩
  rw [read]
  constructor
  · rintro ⟨unsigned, negative⟩
    obtain ⟨sign, signed, parts⟩ := SignText.of_splitSign text
    rw [parts]
    exact .mk (negative ▸ signed) unsigned
  · rintro ⟨signed, unsigned⟩
    rw [signed.splitSign_append unsigned.unsigned]
    exact ⟨unsigned, rfl⟩

example : NumberText ['-', '1', '2', '.', '5', 'e', '-', '1'] ⟨0xbff4000000000000⟩ :=
  Binary64.ofText?_eq_some_iff.1 (by decide +kernel)

end

end CountedHeap
