import CountedHeap.MemoryLimit
import CountedHeap.Proofs.NumberTexts
import Mathlib.Algebra.Order.Floor.Semifield
import Mathlib.Data.Rat.Floor

/-!
The texts of memory limits. Between the blanks at both ends stand a number and the letter of
a unit, and a text can be taken apart in one way only. If there is no number, the limit is
missing. If there is one, the limit is its product with the unit, cut down to whole bytes and
to a word, unless the number has a minus or the product is no finite double.
-/

namespace CountedHeap

/-- The letter of a unit, and the power of two that it stands for. -/
inductive UnitText : List Char → Nat → Prop
  | absent : UnitText [] 0
  | kilo {c : Char} (letter : c = 'k' ∨ c = 'K') : UnitText [c] 10
  | mega {c : Char} (letter : c = 'm' ∨ c = 'M') : UnitText [c] 20
  | giga {c : Char} (letter : c = 'g' ∨ c = 'G') : UnitText [c] 30

def Blanks (text : List Char) : Prop :=
  ∀ c ∈ text, isBlank c = true

instance : DecidablePred Blanks :=
  List.decidableBAll fun c => isBlank c = true

/-- A text with blanks at both ends: what stands before the unit, and the power of two that the
unit stands for. -/
inductive LimitText : List Char → List Char → Nat → Prop
  | mk {before number unit after : List Char} {k : Nat} (front : Blanks before)
      (scale : UnitText unit k) (back : Blanks after) :
      LimitText (before ++ (number ++ unit) ++ after) number k

/-- The characters that numbers are written with: neither blanks nor letters of units. -/
def Plain (c : Char) : Prop :=
  isBlank c = false ∧ unitExponent? c = none

instance : DecidablePred Plain :=
  fun c => inferInstanceAs (Decidable (isBlank c = false ∧ unitExponent? c = none))

section

variable {text number unit before after body digits : List Char} {c : Char} {k m : Nat}
  {d : Binary64} {q : ℚ}

/-! ### Plain characters -/

theorem isBlank_eq_false (low : 0x20 < c.toNat) (high : c.toNat < 0x85) : isBlank c = false := by
  simp [isBlank, blankRanges]
  omega

theorem plain_of_isDigit (digit : c.isDigit = true) : Plain c := by
  obtain ⟨low, high⟩ := Char.isDigit_iff_toNat.1 digit
  refine ⟨isBlank_eq_false (Nat.lt_of_lt_of_le (by decide) low)
    (Nat.lt_of_le_of_lt high (by decide)), ?_⟩
  rw [unitExponent?, if_neg, if_neg, if_neg] <;> (rintro (rfl | rfl) <;> cases digit)

/-- A letter is plain in either case. -/
theorem plain_of_toLower (plain : Plain c.toLower) : Plain c := by
  refine ⟨?_, ?_⟩
  · by_cases upper : 65 ≤ c.toNat ∧ c.toNat ≤ 90
    · exact isBlank_eq_false (by omega) (by omega)
    · rw [← toLower_eq_self upper]
      exact plain.1
  · obtain ⟨-, plain⟩ := plain
    rw [unitExponent?, if_neg, if_neg, if_neg] <;>
      (rintro (rfl | rfl) <;> exact absurd plain (by decide))

theorem Digits.plain (run : Digits digits) : ∀ c ∈ digits, Plain c :=
  fun c mem => plain_of_isDigit (run c mem)

theorem plain_of_all (all : text.all (fun c => decide (Plain c)) = true) : ∀ c ∈ text, Plain c :=
  fun c mem => of_decide_eq_true (List.all_eq_true.1 all c mem)

theorem SignText.plain {negative : Bool} (signed : SignText text negative) :
    ∀ c ∈ text, Plain c := by
  cases signed <;> exact plain_of_all rfl

theorem ExponentText.plain {e : Int} (exponent : ExponentText text e) : ∀ c ∈ text, Plain c := by
  cases exponent with
  | absent => exact List.forall_mem_nil _
  | present letter signed run =>
      refine List.forall_mem_cons.2 ⟨?_, List.forall_mem_append.2 ⟨signed.plain, run.plain⟩⟩
      rcases letter with rfl | rfl <;> decide

theorem DecimalText.plain (written : DecimalText text q) : ∀ c ∈ text, Plain c := by
  obtain ⟨point, front, back, -, exponent⟩ := written
  refine List.forall_mem_append.2 ⟨?_, exponent.plain⟩
  cases point with
  | absent => exact front.plain
  | present =>
      exact List.forall_mem_append.2
        ⟨front.plain, List.forall_mem_cons.2 ⟨by decide, back.plain⟩⟩

theorem NameText.plain (name : NameText text m) : ∀ c ∈ text, Plain c := by
  have letters {lower : List Char} (name : text.map Char.toLower = lower)
      (plain : ∀ c ∈ lower, Plain c) : ∀ c ∈ text, Plain c := fun c mem =>
    plain_of_toLower (plain _ (name ▸ List.mem_map_of_mem mem))
  cases name with
  | inf name => exact letters name (plain_of_all (by decide))
  | infinity name => exact letters name (plain_of_all (by decide))
  | nan name => exact letters name (plain_of_all (by decide))

theorem NumberText.plain (written : NumberText text d) : ∀ c ∈ text, Plain c := by
  obtain ⟨signed, unsigned⟩ := written
  refine List.forall_mem_append.2 ⟨signed.plain, ?_⟩
  cases unsigned with
  | decimal number => exact number.plain
  | name name => exact name.plain

theorem NumberText.ne_nil (written : NumberText text d) : text ≠ [] := by
  obtain ⟨-, unsigned⟩ := written
  refine List.append_ne_nil_of_right_ne_nil _ fun empty => ?_
  cases unsigned with
  | decimal number =>
      obtain ⟨c, first, -⟩ := number.first
      rw [empty] at first
      cases first
  | name name =>
      obtain ⟨c, first, -⟩ := name.letter
      rw [empty] at first
      cases first

/-! ### Taking a text apart -/

theorem unitText_iff : UnitText unit k ↔
    unit = [] ∧ k = 0 ∨ ∃ c, unit = [c] ∧ unitExponent? c = some k := by
  constructor
  · rintro (_ | letter | letter | letter)
    · exact .inl ⟨rfl, rfl⟩
    all_goals exact .inr ⟨_, rfl, by rcases letter with rfl | rfl <;> rfl⟩
  · rintro (⟨rfl, rfl⟩ | ⟨c, rfl, read⟩)
    · exact .absent
    · unfold unitExponent? at read
      split at read
      · cases read
        exact .kilo ‹_›
      · split at read
        · cases read
          exact .mega ‹_›
        · obtain ⟨letter, ⟨⟩⟩ := Option.ite_none_right_eq_some.1 read
          exact .giga letter

theorem UnitText.not_blank (scale : UnitText unit k) : ∀ c ∈ unit, isBlank c = false := by
  rcases scale with _ | letter | letter | letter
  · exact List.forall_mem_nil _
  all_goals rcases letter with rfl | rfl <;> exact List.forall_mem_singleton.2 rfl

theorem trimBlanks_append (front : Blanks before) (back : Blanks after)
    (inside : ∀ c ∈ text, isBlank c = false) : trimBlanks (before ++ text ++ after) = text := by
  by_cases empty : text = []
  · have blanks : Blanks (before ++ after) := List.forall_mem_append.2 ⟨front, back⟩
    have dropped := (takeWhile_run [] blanks fun _ first => by cases first).2
    rw [List.append_nil] at dropped
    rw [trimBlanks, empty, List.append_nil, dropped]
    rfl
  · have first : ∀ c ∈ (text ++ after).head?, isBlank c = false := fun c first => by
      rw [List.head?_append_of_ne_nil _ empty] at first
      exact inside c (List.mem_of_head? first)
    have last : ∀ c ∈ text.reverse.head?, isBlank c = false := fun c first =>
      inside c (List.mem_reverse.1 (List.mem_of_head? first))
    have blanks : ∀ c ∈ after.reverse, isBlank c = true := fun c mem =>
      back c (List.mem_reverse.1 mem)
    rw [trimBlanks, List.append_assoc, (takeWhile_run _ front first).2, List.reverse_append,
      (takeWhile_run _ blanks last).2, List.reverse_reverse]

theorem exists_trimBlanks (text : List Char) : ∃ before after, Blanks before ∧ Blanks after ∧
    text = before ++ trimBlanks text ++ after := by
  refine ⟨text.takeWhile isBlank, ((text.dropWhile isBlank).reverse.takeWhile isBlank).reverse,
    List.all_eq_true.1 List.all_takeWhile, fun c mem => ?_, ?_⟩
  · exact List.all_eq_true.1 List.all_takeWhile c (List.mem_reverse.1 mem)
  · rw [trimBlanks, List.append_assoc, ← List.reverse_append, List.takeWhile_append_dropWhile,
      List.reverse_reverse, List.takeWhile_append_dropWhile]

/-- Every text can be taken apart. -/
theorem limitText_splitUnit (text : List Char) :
    LimitText text (splitUnit (trimBlanks text)).1 (splitUnit (trimBlanks text)).2 := by
  obtain ⟨before, after, front, back, parts⟩ := exists_trimBlanks text
  generalize trimBlanks text = trimmed at parts
  subst parts
  rw [splitUnit]
  split
  · rename_i k unit
    obtain ⟨c, last, read⟩ := Option.bind_eq_some_iff.1 unit
    have limit : LimitText (before ++ (trimmed.dropLast ++ [c]) ++ after) _ _ :=
      .mk front (unitText_iff.2 (.inr ⟨c, rfl, read⟩)) back
    rwa [List.dropLast_append_getLast? c last] at limit
  · have limit : LimitText (before ++ (trimmed ++ []) ++ after) _ _ := .mk front .absent back
    rwa [List.append_nil] at limit

/-- A text is read in the way in which its number has plain characters only. -/
theorem LimitText.splitUnit (limit : LimitText text number k) (plain : ∀ c ∈ number, Plain c) :
    splitUnit (trimBlanks text) = (number, k) := by
  obtain ⟨front, scale, back⟩ := limit
  rename_i unit after
  have inside : ∀ c ∈ number ++ unit, isBlank c = false :=
    List.forall_mem_append.2 ⟨fun c mem => (plain c mem).1, scale.not_blank⟩
  rw [trimBlanks_append front back inside, CountedHeap.splitUnit]
  rcases unitText_iff.1 scale with ⟨rfl, rfl⟩ | ⟨c, rfl, read⟩
  · have none : number.getLast?.bind unitExponent? = none := by
      cases last : number.getLast? with
      | none => rfl
      | some c => exact (plain c (List.mem_of_getLast? last)).2
    rw [List.append_nil, none]
  · rw [List.getLast?_append_cons, List.dropLast_concat]
    simp [read]

theorem LimitText.le (limit : LimitText text number k) : k ≤ 30 := by
  obtain ⟨-, scale, -⟩ := limit
  cases scale <;> decide

/-! ### Bytes -/

/-- A double that is not negative, on the scale. -/
theorem Binary64.value?_eq_div (value : d.value? = some q) (positive : d.isNegative = false) :
    q = (scaledOf d.magnitude : ℚ) / scaledOne := by
  rw [Binary64.value?_of_isFinite (Binary64.isFinite_of_value? value), positive] at value
  cases value
  rw [if_neg Bool.false_ne_true, one_mul]

/-- The product of a double with a power of two is on the scale, too. -/
theorem Binary64.exists_scaledOf_times (value : d.value? = some q)
    (positive : d.isNegative = false) (k : Nat) :
    ∃ m, q * 2 ^ k * scaledOne = scaledOf m := by
  obtain ⟨m, scaled⟩ := exists_scaledOf_mul d.magnitude k
  refine ⟨m, ?_⟩
  rw [Binary64.value?_eq_div value positive, scaled, Nat.cast_mul, Nat.cast_pow, Nat.cast_ofNat,
    mul_right_comm, div_mul_cancel₀ _ cast_scaledOne_pos.ne']

theorem cast_one_shiftLeft (n : Nat) : ((1 <<< n : ℕ) : ℚ) = 2 ^ (n : ℤ) := by
  rw [Nat.one_shiftLeft, cast_two_pow]

theorem Binary64.floorTimes_eq (value : d.value? = some q) (positive : d.isNegative = false) :
    d.floorTimes k = ⌊q * 2 ^ k⌋₊ := by
  have quotient : q * 2 ^ k = (scaledOf d.magnitude * 2 ^ k : ℕ) / (scaledOne : ℕ) := by
    rw [Binary64.value?_eq_div value positive, Nat.cast_mul, Nat.cast_pow, Nat.cast_ofNat,
      div_mul_eq_mul_div]
  rw [quotient, Nat.floor_div_eq_div, scaledOne, Binary64.scaledOf_magnitude, Nat.mul_assoc,
    ← Nat.pow_add, ← Nat.shiftLeft_eq, ← Nat.shiftRight_eq_div_pow, Binary64.floorTimes]

/-- The product is a finite double just if its whole bytes are below `2 ^ 1024`. -/
theorem Binary64.overflow_iff (value : d.value? = some q) (positive : d.isNegative = false) :
    1 <<< 1024 ≤ d.floorTimes k ↔ Binary64.Rounds (q * 2 ^ k) Binary64.infinityMagnitude := by
  obtain ⟨m, exact⟩ := Binary64.exists_scaledOf_times value positive k
  have nonneg : 0 ≤ q * 2 ^ k := by
    rw [Binary64.value?_eq_div value positive]
    exact mul_nonneg (div_nonneg (Nat.cast_nonneg _) (Nat.cast_nonneg _))
      (pow_nonneg zero_le_two k)
  have place : ((1 <<< 1024 : ℕ) : ℚ) = 2 ^ (1024 : ℤ) := cast_one_shiftLeft 1024
  rw [Binary64.rounds_infinity_iff exact, Binary64.floorTimes_eq value positive,
    Nat.le_floor_iff nonneg, place]

theorem limitBytes?_eq_none (invalid : d.isNegative = true ∨ d.isFinite = false ∨
    ∃ q, d.value? = some q ∧ Binary64.Rounds (q * 2 ^ k) Binary64.infinityMagnitude) :
    limitBytes? d k = none := by
  rw [limitBytes?, if_pos]
  rw [Bool.or_eq_true, Bool.or_eq_true, decide_eq_true_eq, Bool.not_eq_true']
  rcases invalid with negative | special | ⟨q, value, overflow⟩
  · exact .inl (.inl negative)
  · exact .inl (.inr special)
  · by_cases negative : d.isNegative = true
    · exact .inl (.inl negative)
    · exact .inr ((Binary64.overflow_iff value (Bool.eq_false_of_not_eq_true negative)).2 overflow)

theorem limitBytes?_eq_some (value : d.value? = some q) (positive : d.isNegative = false)
    (finite : ¬Binary64.Rounds (q * 2 ^ k) Binary64.infinityMagnitude) :
    limitBytes? d k = some (min ⌊q * 2 ^ k⌋₊ (2 ^ 64 - 1)) := by
  rw [limitBytes?, if_neg, Binary64.floorTimes_eq value positive]
  · rfl
  · rw [Bool.or_eq_true, Bool.or_eq_true, decide_eq_true_eq, Bool.not_eq_true', positive,
      Binary64.isFinite_of_value? value, Binary64.overflow_iff value positive]
    simpa using finite

/-! ### Limits -/

theorem LimitText.memoryLimit_of_number {text : String}
    (limit : LimitText text.toList number k) (written : NumberText number d) :
    memoryLimit text = match limitBytes? d k with
      | some bytes => .ok bytes
      | none => .error .invalid := by
  have number : number.isEmpty = false := by
    rw [Bool.eq_false_iff, ne_eq, List.isEmpty_iff]
    exact written.ne_nil
  rw [memoryLimit, limit.splitUnit written.plain]
  rcases bytes : limitBytes? d k with _ | n
  all_goals
    simp only [number, Bool.false_eq_true, if_false, Binary64.ofText?_eq_some_iff.2 written,
      Option.bind_some, bytes]

/-- A run of digits up to `2 ^ 53` is the text of a double that stands for the same number. -/
theorem Digits.exists_numberText (run : Digits digits) (nonempty : digits ≠ [])
    (small : digitsValue 0 digits ≤ 2 ^ 53) : ∃ d, NumberText digits d ∧
      d.isNegative = false ∧ d.value? = some (digitsValue 0 digits : ℚ) := by
  have point : PointText digits digits [] := .absent
  have written := DecimalText.mk point run (List.forall_mem_nil _) (.inl nonempty) .absent
  generalize digitsValue 0 digits = n at small written
  obtain ⟨m, scaled⟩ := exists_scaledOf_nat (n := n) small
  have exact : (n : ℚ) * scaledOne = scaledOf m := by
    rw [scaled, Nat.cast_mul]
  have below : (n : ℚ) < 2 ^ (1024 : ℤ) := by
    refine (Nat.cast_le.2 small).trans_lt ?_
    rw [cast_two_pow]
    exact zpow_lt_zpow_right₀ one_lt_two (by decide)
  obtain ⟨finite, rounds⟩ := Binary64.rounds_of_eq exact below
  obtain ⟨d, sign, rfl⟩ := Binary64.exists_of_magnitude false (finite.trans (by decide))
  refine ⟨d, ?_, sign, ?_⟩
  · rw [List.append_nil, digitsValue, List.foldl_nil, Nat.cast_zero, zero_div, add_zero, zpow_zero,
      mul_one] at written
    have signed : SignText [] d.isNegative := sign ▸ .absent
    exact .mk signed (.decimal written rounds)
  · rw [Binary64.value?_of_isFinite (decide_eq_true finite), sign, if_neg Bool.false_ne_true,
      one_mul, ← exact, mul_div_cancel_right₀ _ cast_scaledOne_pos.ne']

section

variable {text : String}

theorem memoryLimit_eq_missing_iff :
    memoryLimit text = .error .missing ↔ ∃ k, LimitText text.toList [] k := by
  constructor
  · intro missing
    have limit := limitText_splitUnit text.toList
    rw [memoryLimit] at missing
    generalize splitUnit (trimBlanks text.toList) = parts at missing limit
    obtain ⟨number, k⟩ := parts
    dsimp only at missing limit
    split at missing
    · rename_i empty
      rw [List.isEmpty_iff.1 empty] at limit
      exact ⟨k, limit⟩
    · split at missing <;> cases missing
  · rintro ⟨k, limit⟩
    rw [memoryLimit, limit.splitUnit (List.forall_mem_nil _)]
    rfl

theorem memoryLimit_eq_invalid (some : ∀ k, ¬LimitText text.toList [] k)
    (unwritten : ∀ number k d, LimitText text.toList number k → ¬NumberText number d) :
    memoryLimit text = .error .invalid := by
  have limit := limitText_splitUnit text.toList
  rw [memoryLimit]
  generalize splitUnit (trimBlanks text.toList) = parts at limit
  obtain ⟨number, k⟩ := parts
  dsimp only at limit ⊢
  have none : Binary64.ofText? number = none := by
    rw [Option.eq_none_iff_forall_ne_some]
    exact fun d read => unwritten number k d limit (Binary64.ofText?_eq_some_iff.1 read)
  rw [if_neg, none]
  · rfl
  · intro empty
    rw [List.isEmpty_iff.1 empty] at limit
    exact some k limit

theorem LimitText.memoryLimit_eq_invalid (limit : LimitText text.toList number k)
    (written : NumberText number d)
    (invalid : d.isNegative = true ∨ d.isFinite = false ∨
      ∃ q, d.value? = some q ∧ Binary64.Rounds (q * 2 ^ k) Binary64.infinityMagnitude) :
    memoryLimit text = .error .invalid := by
  rw [limit.memoryLimit_of_number written, limitBytes?_eq_none invalid]

theorem LimitText.memoryLimit_eq_ok (limit : LimitText text.toList number k)
    (written : NumberText number d) (positive : d.isNegative = false) (value : d.value? = some q)
    (finite : ¬Binary64.Rounds (q * 2 ^ k) Binary64.infinityMagnitude) :
    memoryLimit text = .ok (min ⌊q * 2 ^ k⌋₊ (2 ^ 64 - 1)) := by
  rw [limit.memoryLimit_of_number written, limitBytes?_eq_some value positive finite]

theorem LimitText.memoryLimit_of_digits (limit : LimitText text.toList digits k)
    (run : Digits digits) (nonempty : digits ≠ []) (small : digitsValue 0 digits ≤ 2 ^ 53) :
    memoryLimit text = .ok (min (digitsValue 0 digits * 2 ^ k) (2 ^ 64 - 1)) := by
  obtain ⟨d, written, positive, value⟩ := run.exists_numberText nonempty small
  generalize digitsValue 0 digits = n at small value
  have product : (n : ℚ) * 2 ^ k = (n * 2 ^ k : ℕ) := by
    rw [Nat.cast_mul, Nat.cast_pow, Nat.cast_ofNat]
  have below : (n * 2 ^ k : ℕ) < (2 ^ (1024 : ℤ) : ℚ) := by
    have bytes : n * 2 ^ k ≤ 2 ^ (53 + 30) := by
      rw [Nat.pow_add]
      exact Nat.mul_le_mul small (Nat.pow_le_pow_right two_pos limit.le)
    refine (Nat.cast_le.2 bytes).trans_lt ?_
    rw [cast_two_pow]
    exact zpow_lt_zpow_right₀ one_lt_two (by decide)
  obtain ⟨m, exact⟩ := Binary64.exists_scaledOf_times value positive k
  rw [limit.memoryLimit_eq_ok written positive value, product, Nat.floor_natCast]
  rw [Binary64.rounds_infinity_iff exact, product, not_le]
  exact below

end

/-- The reading of memory limits. -/
theorem memoryLimit_read_exactly (text : String) :
    (∀ digits k, LimitText text.toList digits k → Digits digits → digits ≠ [] →
      digitsValue 0 digits ≤ 2 ^ 53 →
      memoryLimit text = .ok (min (digitsValue 0 digits * 2 ^ k) (2 ^ 64 - 1))) ∧
    (memoryLimit text = .error .missing ↔ ∃ k, LimitText text.toList [] k) ∧
    (∀ number k d, LimitText text.toList number k → NumberText number d →
      ((d.isNegative = true ∨ d.isFinite = false ∨
          ∃ q, d.value? = some q ∧ Binary64.Rounds (q * 2 ^ k) Binary64.infinityMagnitude) →
        memoryLimit text = .error .invalid) ∧
      ∀ q, d.isNegative = false → d.value? = some q →
        ¬Binary64.Rounds (q * 2 ^ k) Binary64.infinityMagnitude →
        memoryLimit text = .ok (min ⌊q * 2 ^ k⌋₊ (2 ^ 64 - 1))) ∧
    ((∀ k, ¬LimitText text.toList [] k) →
      (∀ number k d, LimitText text.toList number k → ¬NumberText number d) →
      memoryLimit text = .error .invalid) :=
  ⟨fun _ _ limit run nonempty small => limit.memoryLimit_of_digits run nonempty small,
    memoryLimit_eq_missing_iff,
    fun _ _ _ limit written => ⟨limit.memoryLimit_eq_invalid written,
      fun _ positive value finite => limit.memoryLimit_eq_ok written positive value finite⟩,
    memoryLimit_eq_invalid⟩

theorem memoryLimit_read_exactly_sixteenMega : memoryLimit " 0016M\n" = .ok (16 * 2 ^ 20) := by
  have text : " 0016M\n".toList = [' '] ++ (['0', '0', '1', '6'] ++ ['M']) ++ ['\n'] := by decide
  have front : Blanks [' '] := by decide
  have back : Blanks ['\n'] := by decide
  have limit : LimitText " 0016M\n".toList ['0', '0', '1', '6'] 20 := by
    rw [text]
    exact .mk front (.mega (.inr rfl)) back
  have digits : Digits ['0', '0', '1', '6'] := by decide
  have value : digitsValue 0 ['0', '0', '1', '6'] = 16 := by decide
  rw [(memoryLimit_read_exactly " 0016M\n").1 _ _ limit digits (by decide) (by decide), value,
    Nat.min_eq_left (by decide)]

end

end CountedHeap
