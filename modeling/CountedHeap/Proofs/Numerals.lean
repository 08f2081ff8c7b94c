import CountedHeap.Engine.Tables
import Mathlib.Data.List.Induction

/-!
Numerals as keys of arrays. A run of digits is the decimal text of its value behind as
many zeros as one likes. A key that begins with a zero and goes on is no index, so a key
of digits alone is one only if it is the decimal text of a number. The test for the zero
does not look behind a plus sign, though, and there any number of zeros may stand.
-/

namespace CountedHeap

section

variable {cs : List Char} {c : Char} {n i j zeros : Nat} {key key' : String}

/-! ### Runs of digits -/

theorem toList_toString (n : Nat) : (toString n).toList = Nat.toDigits 10 n := by
  rw [Nat.toString_eq_ofList_toDigits, String.toList_ofList]

theorem digitsValue_toDigits (n : Nat) : digitsValue 0 (Nat.toDigits 10 n) = n := by
  have read := Nat.ofDigitChars_ten_toDigits (n := n)
  rwa [Nat.ofDigitChars_eq_foldl] at read

theorem toString_inj : toString i = toString j ↔ i = j := by
  refine ⟨fun same => ?_, congrArg _⟩
  have digits := congrArg String.toList same
  rw [toList_toString, toList_toString] at digits
  rw [← digitsValue_toDigits i, digits, digitsValue_toDigits]

theorem digitsValue_zeros (zeros : Nat) : digitsValue 0 (List.replicate zeros '0') = 0 := by
  induction zeros with
  | zero => rfl
  | succ zeros ih => exact ih

theorem digitsValue_concat (cs : List Char) (c : Char) :
    digitsValue 0 (cs ++ [c]) = 10 * digitsValue 0 cs + digitValue c :=
  digitsValue_append 0 cs [c]

theorem digitValue_lt (digit : c.isDigit = true) : digitValue c < 10 := by
  obtain ⟨-, high⟩ := Char.isDigit_iff_toNat.1 digit
  rw [digitValue]
  exact Nat.lt_succ_of_le (Nat.sub_le_sub_right high '0'.toNat)

theorem digitChar_digitValue (digit : c.isDigit = true) : (digitValue c).digitChar = c := by
  have small := digitValue_lt digit
  obtain ⟨low, -⟩ := Char.isDigit_iff_toNat.1 digit
  rw [← Char.toNat_inj, Nat.toNat_digitChar_of_lt_ten small, digitValue]
  exact Nat.add_sub_cancel' low

/-- A run of digits, taken apart. -/
theorem eq_zeros_append_toDigits (some : cs ≠ []) (digits : ∀ c ∈ cs, c.isDigit = true) :
    ∃ zeros, cs = List.replicate zeros '0' ++ Nat.toDigits 10 (digitsValue 0 cs) := by
  induction cs using List.reverseRecOn with
  | nil => exact absurd rfl some
  | append_singleton cs c ih =>
      have last : c.isDigit = true := digits c (by simp)
      have small := digitValue_lt last
      have text : Nat.toDigits 10 (digitValue c) = [c] := by
        rw [Nat.toDigits_of_lt_base small, digitChar_digitValue last]
      rw [digitsValue_concat]
      by_cases first : cs = []
      · subst cs
        refine ⟨0, ?_⟩
        rw [digitsValue, List.foldl_nil, Nat.mul_zero, Nat.zero_add, text]
        rfl
      · obtain ⟨zeros, before⟩ := ih first fun c mem => digits c (List.mem_append_left _ mem)
        generalize digitsValue 0 cs = n at before
        subst before
        -- A leading number of zero is one more of the zeros in front.
        by_cases zero : n = 0
        · subst n
          refine ⟨zeros + 1, ?_⟩
          rw [Nat.mul_zero, Nat.zero_add, text, Nat.toDigits_zero, List.replicate_succ']
        · refine ⟨zeros, ?_⟩
          rw [← Nat.toDigits_append_toDigits (by decide) (Nat.pos_of_ne_zero zero) small, text,
            List.append_assoc]

theorem numeral?_eq_some_iff : numeral? cs = some n ↔
    ∃ zeros, cs = List.replicate zeros '0' ++ Nat.toDigits 10 n := by
  rw [numeral?, Option.ite_none_right_eq_some, Option.some.injEq, List.all_eq_true]
  constructor
  · rintro ⟨⟨some, digits⟩, rfl⟩
    exact eq_zeros_append_toDigits some digits
  · rintro ⟨zeros, rfl⟩
    refine ⟨⟨by simp [Nat.toDigits_ne_nil], fun c mem => ?_⟩, ?_⟩
    · rcases List.mem_append.1 mem with zero | digit
      · rw [List.eq_of_mem_replicate zero]
        rfl
      · exact Nat.isDigit_of_mem_toDigits (by decide) (by decide) digit
    · rw [digitsValue_append, digitsValue_zeros, digitsValue_toDigits]

/-- The decimal text of a number has no zero in front. -/
theorem toDigits_ne_zero_cons (some : cs ≠ []) : Nat.toDigits 10 n ≠ '0' :: cs := by
  intro text
  have digits : ∀ c ∈ cs, c.isDigit = true := fun c mem =>
    Nat.isDigit_of_mem_toDigits (by decide) (by decide) (text ▸ List.mem_cons_of_mem _ mem)
  have same : digitsValue 0 cs = n := by
    have value := digitsValue_toDigits n
    rwa [text] at value
  -- The rest would be a text of the same number, and it is shorter.
  obtain ⟨zeros, rest⟩ := eq_zeros_append_toDigits some digits
  rw [same, text] at rest
  have length := congrArg List.length rest
  simp only [List.length_append, List.length_cons] at length
  omega

/-! ### Indices -/

/-- A numeral with a plus sign and zeros in front. -/
def plusNumeral (zeros i : Nat) : String :=
  "+" ++ String.ofList (List.replicate zeros '0') ++ toString i

theorem toList_plusNumeral (zeros i : Nat) : (plusNumeral zeros i).toList =
    '+' :: (List.replicate zeros '0' ++ Nat.toDigits 10 i) := by
  rw [plusNumeral, String.toList_append, String.toList_append, String.toList_ofList,
    String.toList_ofList, toList_toString]
  rfl

theorem plus_cons_ne_toDigits : '+' :: cs ≠ Nat.toDigits 10 n := by
  intro text
  have digit : '+'.isDigit = true :=
    Nat.isDigit_of_mem_toDigits (b := 10) (n := n) (by decide) (by decide)
      (text ▸ List.mem_cons_self)
  cases digit

theorem filter_word_eq_some {number? : Option Nat} :
    number?.filter (· < wordLimit) = some i ↔ i < wordLimit ∧ number? = some i := by
  cases number? with
  | none => simp
  | some n =>
      simp only [Option.filter_some, Option.ite_none_right_eq_some, Option.some.injEq,
        decide_eq_true_eq]
      constructor <;> (rintro ⟨small, rfl⟩; exact ⟨small, rfl⟩)

/-- What is left of the zeros in front when a key may not begin with one. -/
theorem zeros_append_toDigits_iff (plain : ∀ c rest, cs ≠ '0' :: c :: rest) :
    (∃ zeros, cs = List.replicate zeros '0' ++ Nat.toDigits 10 n) ↔ cs = Nat.toDigits 10 n := by
  constructor
  · rintro ⟨zeros, rfl⟩
    cases zeros with
    | zero => rfl
    | succ zeros =>
        obtain ⟨c, rest, more⟩ : ∃ c rest,
            List.replicate zeros '0' ++ Nat.toDigits 10 n = c :: rest :=
          List.exists_cons_of_ne_nil (by simp [Nat.toDigits_ne_nil])
        refine absurd ?_ (plain c rest)
        rw [List.replicate_succ, List.cons_append, more]
  · exact fun text => ⟨0, text⟩

/-- The keys that stand for an index. -/
theorem elementIndex?_eq_some_iff : elementIndex? key = some i ↔
    i < wordLimit ∧ (key = toString i ∨ ∃ zeros, key = plusNumeral zeros i) := by
  simp only [← String.toList_inj, toList_toString, toList_plusNumeral]
  rw [elementIndex?]
  generalize key.toList = cs
  split
  · rename_i c rest
    simp [toDigits_ne_zero_cons (n := i) (List.cons_ne_nil c rest) |>.symm]
  · rename_i plain
    rw [wordNumeral?.eq_def]
    split <;> rw [filter_word_eq_some, numeral?_eq_some_iff]
    · simp [plus_cons_ne_toDigits]
    · rename_i unsigned
      rw [zeros_append_toDigits_iff fun c rest same => plain c rest same]
      refine and_congr_right fun _ => ⟨.inl, fun either => either.resolve_right ?_⟩
      rintro ⟨zeros, signed⟩
      exact unsigned _ signed

example : elementIndex? "7" = some 7 ∧ elementIndex? "+007" = some 7 ∧
    elementIndex? "007" = none := by
  decide +kernel

theorem toString_ne_plusNumeral : toString j ≠ plusNumeral zeros i := by
  intro same
  have text := congrArg String.toList same
  rw [toList_plusNumeral, toList_toString] at text
  exact plus_cons_ne_toDigits text.symm

theorem elementIndex?_toString (i : Nat) :
    elementIndex? (toString i) = if i < wordLimit then some i else none := by
  split
  · rename_i small
    exact elementIndex?_eq_some_iff.2 ⟨small, .inl rfl⟩
  · rename_i large
    rw [Option.eq_none_iff_forall_ne_some]
    intro j index
    obtain ⟨small, same | ⟨zeros, same⟩⟩ := elementIndex?_eq_some_iff.1 index
    · exact large (toString_inj.1 same ▸ small)
    · exact toString_ne_plusNumeral same

end

end CountedHeap
