import CountedHeap.Proofs.Construction
import CountedHeap.Proofs.Doubles
import CountedHeap.Proofs.TaggedWords

/-!
Three encodings of numbers. A double is an integer word if it is an integer in range, else
a short float if it lies in the window, else an object. Whichever it is, the bits of the
double are read from it again, negative zero and every NaN included; and since both kinds
of words are read back, no two doubles share one.
-/

namespace CountedHeap

/-- An integer that an integer word holds, not negative zero. -/
def Binary64.IsShortInt (d : Binary64) : Prop :=
  ∃ n : ℤ, d.value? = some (n : ℚ) ∧ -2 ^ 30 ≤ n ∧ n ≤ 2 ^ 30 - 1 ∧ d ≠ Binary64.negativeZero

/-- The absolute value lies between `2 ^ (-127)` and `2 ^ 128`, ends included. -/
def Binary64.InFloatWindow (d : Binary64) : Prop :=
  ∃ q, d.value? = some q ∧ 2 ^ (-127 : ℤ) ≤ |q| ∧ |q| ≤ 2 ^ (128 : ℤ)

section

variable {d d' : Binary64} {w w' : Word}

/-! ### Words -/

theorem Word.ofIntegral?_eq_some_iff : Word.ofIntegral? d = some w ↔
    ∃ n, d.integer? = some n ∧ (Word.leastInt ≤ n ∧ n ≤ Word.greatestInt) ∧
      d ≠ Binary64.negativeZero ∧ w = Word.ofInt n := by
  rw [Word.ofIntegral?]
  cases integer : d.integer? with
  | none => simp
  | some n =>
      simp only [Option.ite_none_right_eq_some, Option.some.injEq, exists_eq_left', and_assoc]
      simp only [eq_comm]

theorem Word.ofIntegral?_isSome_iff : (Word.ofIntegral? d).isSome = true ↔ d.IsShortInt := by
  rw [Option.isSome_iff_exists]
  constructor
  · rintro ⟨w, made⟩
    obtain ⟨n, integer, inRange, positive, -⟩ := Word.ofIntegral?_eq_some_iff.1 made
    exact ⟨n, Binary64.integer?_eq_some_iff.1 integer, inRange.1, inRange.2, positive⟩
  · rintro ⟨n, value, least, greatest, positive⟩
    exact ⟨_, Word.ofIntegral?_eq_some_iff.2
      ⟨n, Binary64.integer?_eq_some_iff.2 value, ⟨least, greatest⟩, positive, rfl⟩⟩

theorem Word.ofFloat?_isSome_iff : (Word.ofFloat? d).isSome = true ↔ d.InFloatWindow := by
  rw [Word.ofFloat?, Option.isSome_ite, Binary64.InFloatWindow, Binary64.inWindow_iff]

/-- An integer word is the word of an integer, and gives the double back. -/
theorem Word.number?_ofIntegral? (made : Word.ofIntegral? d = some w) :
    w.kind = .integer ∧ w.number? = some d := by
  obtain ⟨n, integer, inRange, positive, rfl⟩ := Word.ofIntegral?_eq_some_iff.1 made
  have small : n.natAbs < 0x20000000000000 := by
    simp only [Word.leastInt, Word.greatestInt] at inRange
    omega
  refine ⟨Word.kind_ofInt n, ?_⟩
  rw [Word.number?, Word.kind_ofInt, Word.toInt_ofInt_of_inRange inRange,
    Binary64.ofInt_of_integer? integer small positive]

theorem Word.number?_ofFloat? (made : Word.ofFloat? d = some w) :
    w.kind = .float ∧ w.number? = some d := by
  have kind := Word.kind_ofFloat? made
  refine ⟨kind, ?_⟩
  rw [Word.number?, kind, Word.toFloat_ofFloat? made]

/-- The three ways to encode a double. -/
theorem Word.ofNumber?_cases (d : Binary64) :
    (d.IsShortInt ∧ ∃ w, Word.ofNumber? d = some w ∧ w.kind = .integer ∧ w.number? = some d) ∨
    (¬ d.IsShortInt ∧ d.InFloatWindow ∧
      ∃ w, Word.ofNumber? d = some w ∧ w.kind = .float ∧ w.number? = some d) ∨
    (¬ d.IsShortInt ∧ ¬ d.InFloatWindow ∧ Word.ofNumber? d = none) := by
  rw [← Word.ofIntegral?_isSome_iff, ← Word.ofFloat?_isSome_iff, Word.ofNumber?]
  cases integral : Word.ofIntegral? d with
  | some w => exact .inl ⟨rfl, w, rfl, Word.number?_ofIntegral? integral⟩
  | none =>
      cases float : Word.ofFloat? d with
      | some w =>
          exact .inr (.inl ⟨Bool.false_ne_true, rfl, w, rfl, Word.number?_ofFloat? float⟩)
      | none => exact .inr (.inr ⟨Bool.false_ne_true, Bool.false_ne_true, rfl⟩)

theorem Word.number?_ofNumber? (made : Word.ofNumber? d = some w) : w.number? = some d := by
  rcases Word.ofNumber?_cases d with ⟨-, w', made', -, read⟩ | ⟨-, -, w', made', -, read⟩ |
    ⟨-, -, absent⟩
  · cases made.symm.trans made'
    exact read
  · cases made.symm.trans made'
    exact read
  · cases made.symm.trans absent

/-- Immediates are canonical. -/
theorem Word.ofNumber?_eq_iff (made : Word.ofNumber? d = some w)
    (made' : Word.ofNumber? d' = some w') : w = w' ↔ d = d' := by
  constructor
  · rintro rfl
    exact Option.some.inj ((Word.number?_ofNumber? made).symm.trans (Word.number?_ofNumber? made'))
  · rintro rfl
    exact Option.some.inj (made.symm.trans made')

end

/-! ### Values -/

section

variable {e e' : Engine} {d d' : Binary64} {v : Value} {w w' : Word}

/-- Without a limit a number finds its place on the heap. -/
theorem Engine.boxNumber_of_unlimited (hopen : e.isClosed = false)
    (unlimited : e.limits.memory = none) : e.boxNumber d =
      (.ok ((e.makeRoom headerSize).place ClassId.number (.number d)).1,
        ((e.makeRoom headerSize).place ClassId.number (.number d)).2) := by
  have limits : (e.makeRoom headerSize).limits = e.limits :=
    congrArg Frame.limits (Engine.frame_makeRoom headerSize)
  have fits : (e.makeRoom (headerSize + (Payload.number d).size)).exceeded?
      (headerSize + (Payload.number d).size) = none :=
    Engine.exceeded?_of_unlimited (limits ▸ unlimited)
  rw [Engine.boxNumber, Engine.allocate_eq hopen, fits]
  rfl

/-- A boxed number is an object, whatever becomes of the allocation. -/
theorem Engine.makeNumber_eq_immediate_iff :
    (e.makeNumber d).1 = .ok (.immediate w) ↔ Word.ofNumber? d = some w := by
  rw [Engine.makeNumber]
  cases Word.ofNumber? d with
  | some w' => simp
  | none =>
      refine iff_of_false ?_ (Option.some_ne_none w).symm
      show (e.boxNumber d).1 ≠ _
      rw [Engine.boxNumber, Engine.allocate]
      split
      · exact fun same => by cases same
      · dsimp only
        split <;> exact fun same => by cases same

/-- How a value stands for a double. -/
structure Engine.Encodes (e : Engine) (d : Binary64) (v : Value) : Prop where
  readBack : e.number? v = some d
  shortInt : (∃ w, v = .immediate w ∧ w.kind = .integer) ↔ d.IsShortInt
  shortFloat : (∃ w, v = .immediate w ∧ w.kind = .float) ↔ ¬ d.IsShortInt ∧ d.InFloatWindow
  boxed : (∃ h o, v = .reference h ∧ e.heap.slot h = .live o ∧ o.classId = ClassId.number ∧
    o.payload = .number d) ↔ ¬ d.IsShortInt ∧ ¬ d.InFloatWindow

theorem Engine.encodes_of_isShortInt (short : d.IsShortInt) (kind : w.kind = .integer)
    (read : w.number? = some d) : e.Encodes d (.immediate w) where
  readBack := read
  shortInt := by simp [kind, short]
  shortFloat := by simp [kind, short]
  boxed := by simp [short]

theorem Engine.encodes_of_inFloatWindow (long : ¬ d.IsShortInt) (window : d.InFloatWindow)
    (kind : w.kind = .float) (read : w.number? = some d) : e.Encodes d (.immediate w) where
  readBack := read
  shortInt := by simp [kind, long]
  shortFloat := by simp [kind, long, window]
  boxed := by simp [window]

theorem Engine.encodes_of_boxed {h : Handle} (long : ¬ d.IsShortInt) (outside : ¬ d.InFloatWindow)
    (live : e.heap.slot h = .live (Object.new ClassId.number (.number d))) :
    e.Encodes d (.reference h) where
  readBack := by
    rw [Engine.number?, Heap.object?_of_live live]
    rfl
  shortInt := by simp [long]
  shortFloat := by simp [outside]
  boxed := iff_of_true ⟨h, _, rfl, live, rfl, rfl⟩ ⟨long, outside⟩

/-- Every double has an encoding, and it keeps the double bit for bit. -/
theorem Engine.encodes_makeNumber (hopen : e.isClosed = false)
    (unlimited : e.limits.memory = none) (d : Binary64) :
    ∃ v e', e.makeNumber d = (.ok v, e') ∧ e'.Encodes d v := by
  rw [Engine.makeNumber]
  rcases Word.ofNumber?_cases d with ⟨short, w, made, kind, read⟩ |
    ⟨long, window, w, made, kind, read⟩ | ⟨long, outside, absent⟩
  · rw [made]
    exact ⟨_, _, rfl, Engine.encodes_of_isShortInt short kind read⟩
  · rw [made]
    exact ⟨_, _, rfl, Engine.encodes_of_inFloatWindow long window kind read⟩
  · rw [absent]
    have live : ((e.makeRoom headerSize).place ClassId.number (.number d)).2.heap.slot
        (e.makeRoom headerSize).heap.slots.size = .live (Object.new ClassId.number (.number d)) :=
      (Engine.slot_place _).trans (if_pos rfl)
    exact ⟨_, _, Engine.boxNumber_of_unlimited hopen unlimited,
      Engine.encodes_of_boxed long outside live⟩

end

/-- On an engine that is open and has no memory limit, every double becomes a value and is
read from it bit for bit: as an integer word just if it is an integer in range and not
negative zero, else as a short float just if it lies in the window, else as an object. Two
doubles that become words become the same word just if they are the same. -/
theorem numbers_are_kept_bit_for_bit {e : Engine} (hopen : e.isClosed = false)
    (unlimited : e.limits.memory = none) (d : Binary64) :
    (∃ v e', e.makeNumber d = (.ok v, e') ∧ e'.Encodes d v) ∧
    ∀ (e' : Engine) (d' : Binary64) (w w' : Word),
      (e.makeNumber d).1 = .ok (.immediate w) → (e'.makeNumber d').1 = .ok (.immediate w') →
        (w = w' ↔ d = d') := by
  refine ⟨Engine.encodes_makeNumber hopen unlimited d, fun e' d' w w' made made' => ?_⟩
  exact Word.ofNumber?_eq_iff (Engine.makeNumber_eq_immediate_iff.1 made)
    (Engine.makeNumber_eq_immediate_iff.1 made')

/-- A NaN with a payload, on a new engine. -/
theorem numbers_are_kept_bit_for_bit_nan : (Engine.new {}).isClosed = false ∧
    (Engine.new {}).limits.memory = none ∧
    ∃ v e', (Engine.new {}).makeNumber ⟨0x7ff8000000000abc⟩ = (.ok v, e') ∧
      e'.Encodes ⟨0x7ff8000000000abc⟩ v :=
  ⟨rfl, rfl, (numbers_are_kept_bit_for_bit rfl rfl _).1⟩

end CountedHeap
