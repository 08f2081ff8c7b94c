import CountedHeap.Text.Decimal
import CountedHeap.Proofs.Doubles
import Mathlib.Algebra.Order.Ring.Abs
import Mathlib.Tactic.Linarith
import Mathlib.Tactic.Ring

/-!
Rounding to doubles. A number is rounded to the magnitude that is nearest to it on the
scale of `2 ^ (-1075)`, and to the even one of two that are equally near. Infinity takes
part at the place that would come next after the largest finite double, so that a number
is rounded to it if it is as near to that place as to any double. There is one such
magnitude for each number, and the decimal texts are read as this one.

Between two powers of two the doubles are equally far apart, and there the magnitude
nearest to a number comes from the integer nearest to a multiple of it. The doubles
outside that window are no nearer than its ends.
-/

namespace CountedHeap

/-- Of the magnitudes in `S` none is nearer to `x` than `m`, and no other is as near
unless `m` is even. -/
structure NearestAmong (S : Set Nat) (x : ℚ) (m : Nat) : Prop where
  mem : m ∈ S
  nearest : ∀ m' ∈ S, |x - scaledOf m| ≤ |x - scaledOf m'|
  even : ∀ m' ∈ S, |x - scaledOf m| = |x - scaledOf m'| → m' = m ∨ Even m

/-- The magnitude that a number is rounded to. -/
def Binary64.Rounds (q : ℚ) (m : Nat) : Prop :=
  NearestAmong {m | m ≤ Binary64.infinityMagnitude} (q * scaledOne) m

section

variable {S : Set Nat} {x q : ℚ} {m m' n d s j top : Nat}

/-! ### One magnitude -/

theorem cast_scaledOf_lt : (scaledOf m : ℚ) < scaledOf m' ↔ m < m' := by
  rw [Nat.cast_lt]
  exact scaledOf_strictMono.lt_iff_lt

theorem cast_scaledOf_le : (scaledOf m : ℚ) ≤ scaledOf m' ↔ m ≤ m' := by
  rw [Nat.cast_le]
  exact scaledOf_strictMono.le_iff_le

/-- A number that a magnitude stands for is rounded to that magnitude. -/
theorem NearestAmong.of_eq (mem : m ∈ S) (exact : x = scaledOf m) : NearestAmong S x m := by
  have zero : |x - scaledOf m| = 0 := by rw [exact, sub_self, abs_zero]
  refine ⟨mem, fun m' _ => zero ▸ abs_nonneg _, fun m' _ same => .inl ?_⟩
  rw [zero, eq_comm, abs_eq_zero, sub_eq_zero, exact, Nat.cast_inj] at same
  exact (scaledOf_strictMono.injective same).symm

/-- A number at or above the largest magnitude is rounded to that. -/
theorem NearestAmong.of_le (above : (scaledOf top : ℚ) ≤ x) :
    NearestAmong {m | m ≤ top} x top := by
  have distance (m' : Nat) (le : m' ≤ top) : |x - scaledOf m'| = x - scaledOf m' :=
    abs_of_nonneg (sub_nonneg.2 ((cast_scaledOf_le.2 le).trans above))
  refine ⟨le_refl top, fun m' le => ?_, fun m' le same => .inl ?_⟩
  · rw [distance m' le, distance top (le_refl top)]
    exact sub_le_sub_left (cast_scaledOf_le.2 le) x
  · rw [distance m' le, distance top (le_refl top), sub_right_inj, Nat.cast_inj] at same
    exact (scaledOf_strictMono.injective same).symm

/-- Where there is a largest magnitude, it stands for all above it. -/
theorem NearestAmong.clamp (nearest : NearestAmong Set.univ x m) :
    NearestAmong {m | m ≤ top} x (min m top) := by
  by_cases inside : m ≤ top
  · rw [min_eq_left inside]
    exact ⟨inside, fun m' _ => nearest.nearest m' (Set.mem_univ m'),
      fun m' _ => nearest.even m' (Set.mem_univ m')⟩
  · rw [min_eq_right (le_of_not_ge inside)]
    refine .of_le ?_
    by_contra below
    have beyond : (scaledOf top : ℚ) < scaledOf m := cast_scaledOf_lt.2 (lt_of_not_ge inside)
    have near := nearest.nearest top (Set.mem_univ top)
    rw [abs_of_nonpos (by linarith), abs_of_nonpos (by linarith)] at near
    linarith

/-- A magnitude between two others is nearer than one of them. -/
theorem abs_sub_lt_of_between {a b c : ℚ} (low : a < b) (high : b < c)
    (same : |x - a| = |x - c|) : |x - b| < |x - a| := by
  rcases abs_cases (x - a) with ⟨ha, _⟩ | ⟨ha, _⟩ <;>
    rcases abs_cases (x - b) with ⟨hb, _⟩ | ⟨hb, _⟩ <;>
      rcases abs_cases (x - c) with ⟨hc, _⟩ | ⟨hc, _⟩ <;> linarith

theorem NearestAmong.le (first : NearestAmong {m | m ≤ top} x m)
    (second : NearestAmong {m | m ≤ top} x m') : m' ≤ m := by
  by_contra larger
  rw [not_le] at larger
  have same : |x - scaledOf m| = |x - scaledOf m'| :=
    le_antisymm (first.nearest m' second.mem) (second.nearest m first.mem)
  by_cases next : m' = m + 1
  · -- Two neighbours are not both even.
    have even := (first.even m' second.mem same).resolve_left larger.ne'
    have even' := (second.even m first.mem same.symm).resolve_left larger.ne
    subst next
    exact absurd even (Nat.even_add_one.1 even')
  · have between : |x - scaledOf (m + 1)| < |x - scaledOf m| :=
      abs_sub_lt_of_between (cast_scaledOf_lt.2 (Nat.lt_succ_self m))
        (cast_scaledOf_lt.2 (by omega)) same
    have inside : m' ≤ top := second.mem
    exact absurd between (not_lt.2 (first.nearest (m + 1) (show m + 1 ≤ top by omega)))

/-- A number is rounded to one magnitude only. -/
theorem Binary64.Rounds.unique (first : Binary64.Rounds q m) (second : Binary64.Rounds q m') :
    m = m' :=
  Nat.le_antisymm (NearestAmong.le second first) (NearestAmong.le first second)

/-! ### The nearest integer -/

theorem roundQuotient_le : roundQuotient n d ≤ n / d + 1 := by
  rw [roundQuotient]
  split <;> omega

theorem le_roundQuotient : n / d ≤ roundQuotient n d := by
  rw [roundQuotient]
  split <;> omega

theorem cast_div_eq (pos : 0 < d) : (n : ℚ) / d = (n / d : ℕ) + (n % d : ℕ) / d := by
  have pos' : (d : ℚ) ≠ 0 := Nat.cast_ne_zero.2 pos.ne'
  rw [div_eq_iff pos', add_mul, div_mul_cancel₀ _ pos', mul_comm]
  exact_mod_cast (Nat.div_add_mod n d).symm

/-- A quotient is at most one half away from the integer that it is rounded to, and that is
even if it is so far away. -/
theorem abs_sub_roundQuotient (pos : 0 < d) :
    |(n : ℚ) / d - roundQuotient n d| ≤ 1 / 2 ∧
      (|(n : ℚ) / d - roundQuotient n d| = 1 / 2 → Even (roundQuotient n d)) := by
  have pos' : (0 : ℚ) < d := Nat.cast_pos.2 pos
  have below : ((n % d : ℕ) : ℚ) / d < 1 :=
    (div_lt_one pos').2 (Nat.cast_lt.2 (Nat.mod_lt n pos))
  have least : (0 : ℚ) ≤ ((n % d : ℕ) : ℚ) / d := by positivity
  have half_le : (1 : ℚ) / 2 ≤ ((n % d : ℕ) : ℚ) / d ↔ d ≤ 2 * (n % d) := by
    rw [div_le_div_iff₀ two_pos pos', one_mul, mul_comm]
    exact_mod_cast Iff.rfl
  have le_half : ((n % d : ℕ) : ℚ) / d ≤ 1 / 2 ↔ 2 * (n % d) ≤ d := by
    rw [div_le_div_iff₀ pos' two_pos, one_mul, mul_comm]
    exact_mod_cast Iff.rfl
  rw [cast_div_eq pos, roundQuotient]
  generalize ((n % d : ℕ) : ℚ) / d = y at *
  split
  · rename_i up
    have distance : |((n / d : ℕ) : ℚ) + y - (n / d + 1 : ℕ)| = 1 - y := by
      rw [Nat.cast_add, Nat.cast_one, abs_of_nonpos] <;> linarith
    have far := half_le.2 (by omega)
    rw [distance]
    refine ⟨by linarith, fun same => ?_⟩
    have near := le_half.1 (by linarith)
    exact Nat.even_iff.2 (by omega)
  · rename_i down
    have distance : |((n / d : ℕ) : ℚ) + y - (n / d : ℕ)| = y := by
      rw [add_sub_cancel_left, abs_of_nonneg least]
    have near := le_half.2 (by omega)
    rw [distance]
    refine ⟨near, fun same => ?_⟩
    have far := half_le.1 (le_of_eq same.symm)
    exact Nat.even_iff.2 (by omega)

/-- So no other integer is nearer, nor as near unless that is even. -/
theorem abs_sub_le_of_half {r : Nat} (half : |x - r| ≤ 1 / 2 ∧ (|x - r| = 1 / 2 → Even r))
    (j : Nat) : |x - r| ≤ |x - j| ∧ (|x - r| = |x - j| → j = r ∨ Even r) := by
  by_cases same : j = r
  · exact ⟨le_of_eq (by rw [same]), fun _ => .inl same⟩
  · have apart : (1 : ℚ) ≤ |(r : ℚ) - j| := by
      have steps : (1 : ℤ) ≤ |(r : ℤ) - j| := Int.one_le_abs (by omega)
      exact_mod_cast steps
    have through : |(r : ℚ) - j| ≤ |x - r| + |x - j| := by
      rw [abs_sub_comm x r]
      exact abs_sub_le _ _ _
    obtain ⟨near, even⟩ := half
    exact ⟨by linarith, fun equal => .inr (even (by linarith))⟩

/-! ### The nearest double -/

/-- The window above `s` powers of two: the doubles in it are evenly spaced. -/
theorem scaledOf_window (inside : s = 0 ∨ Binary64.leadingBit ≤ j)
    (most : j ≤ 2 * Binary64.leadingBit) :
    scaledOf (s * Binary64.leadingBit + j) = j * 2 ^ (s + 1) := by
  have leading : Binary64.leadingBit = 0x10000000000000 := rfl
  have split (a b : Nat) (small : b < Binary64.leadingBit) :
      scaledOf (a * Binary64.leadingBit + b) =
        (if a = 0 then b else Binary64.leadingBit + b) * 2 ^ max a 1 := by
    have quotient : (a * Binary64.leadingBit + b) / Binary64.leadingBit = a := by
      rw [leading] at *
      omega
    have remainder : (a * Binary64.leadingBit + b) % Binary64.leadingBit = b := by
      rw [leading] at *
      omega
    rw [scaledOf, quotient, remainder]
  by_cases small : j < Binary64.leadingBit
  · -- Without a leading bit, only in the lowest window.
    obtain rfl : s = 0 := inside.resolve_right (by omega)
    exact split 0 j small
  · by_cases full : j < 2 * Binary64.leadingBit
    · have parts : s * Binary64.leadingBit + j =
          (s + 1) * Binary64.leadingBit + (j - Binary64.leadingBit) := by
        rw [Nat.succ_mul]
        omega
      rw [parts, split (s + 1) _ (by omega), if_neg (Nat.succ_ne_zero s),
        Nat.max_eq_left (Nat.succ_pos s), Nat.add_sub_cancel' (by omega)]
    · -- The end of the window is the beginning of the next.
      obtain rfl : j = 2 * Binary64.leadingBit := by omega
      have parts : s * Binary64.leadingBit + 2 * Binary64.leadingBit =
          (s + 2) * Binary64.leadingBit + 0 := by
        rw [Nat.add_mul, Nat.add_zero]
      rw [parts, split (s + 2) 0 (by decide), if_neg (Nat.succ_ne_zero _),
        Nat.max_eq_left (Nat.succ_pos _), pow_succ 2 (s + 1)]
      ring

/-- Nothing outside an interval is nearer to a number inside than its ends. -/
theorem NearestAmong.of_between (low high : Nat)
    (nearest : NearestAmong {m | low ≤ m ∧ m ≤ high} x m) (least : (scaledOf low : ℚ) ≤ x)
    (most : x ≤ scaledOf high) : NearestAmong Set.univ x m := by
  obtain ⟨above, below⟩ := nearest.mem
  have farther (m' : Nat) (outside : ¬(low ≤ m' ∧ m' ≤ high)) :
      |x - scaledOf m| < |x - scaledOf m'| := by
    rcases lt_or_ge m' low with under | beyond
    · have step : (scaledOf m' : ℚ) < scaledOf low := cast_scaledOf_lt.2 under
      refine (nearest.nearest low ⟨le_refl low, above.trans below⟩).trans_lt ?_
      rw [abs_of_nonneg (by linarith), abs_of_nonneg (by linarith)]
      linarith
    · have step : (scaledOf high : ℚ) < scaledOf m' := cast_scaledOf_lt.2 (by omega)
      refine (nearest.nearest high ⟨above.trans below, le_refl high⟩).trans_lt ?_
      rw [abs_of_nonpos (by linarith), abs_of_nonpos (by linarith)]
      linarith
  refine ⟨Set.mem_univ m, fun m' _ => ?_, fun m' _ same => ?_⟩
  · by_cases inside : low ≤ m' ∧ m' ≤ high
    · exact nearest.nearest m' inside
    · exact (farther m' inside).le
  · by_cases inside : low ≤ m' ∧ m' ≤ high
    · exact nearest.even m' inside same
    · exact absurd same (farther m' inside).ne

/-- In its window, a number is nearest to the double of the integer that it is nearest to. -/
theorem NearestAmong.of_window {r : Nat} (least : Nat)
    (normal : s = 0 ∨ Binary64.leadingBit ≤ least)
    (low : (least : ℚ) ≤ x) (high : x ≤ (2 * Binary64.leadingBit : ℕ)) (inside : least ≤ r)
    (most : r ≤ 2 * Binary64.leadingBit)
    (half : |x - r| ≤ 1 / 2 ∧ (|x - r| = 1 / 2 → Even r)) :
    NearestAmong Set.univ (x * 2 ^ (s + 1)) (s * Binary64.leadingBit + r) := by
  have scale : (0 : ℚ) < 2 ^ (s + 1) := pow_pos two_pos _
  have number (j : Nat) (above : least ≤ j) (below : j ≤ 2 * Binary64.leadingBit) :
      (scaledOf (s * Binary64.leadingBit + j) : ℚ) = j * 2 ^ (s + 1) := by
    rw [scaledOf_window (normal.imp_right fun le => le.trans above) below, Nat.cast_mul,
      Nat.cast_pow, Nat.cast_ofNat]
  have distance (j : Nat) (above : least ≤ j) (below : j ≤ 2 * Binary64.leadingBit) :
      |x * 2 ^ (s + 1) - scaledOf (s * Binary64.leadingBit + j)| = |x - j| * 2 ^ (s + 1) := by
    rw [number j above below, ← sub_mul, abs_mul, abs_of_pos scale]
  have even : Even (s * Binary64.leadingBit + r) ↔ Even r := by
    rw [Nat.even_add, iff_true_left (Even.mul_left (by decide) s)]
  refine .of_between (s * Binary64.leadingBit + least)
    (s * Binary64.leadingBit + 2 * Binary64.leadingBit)
    ⟨⟨by omega, by omega⟩, ?_, ?_⟩ ?_ ?_
  · rintro m' ⟨above, below⟩
    obtain ⟨j, rfl⟩ := Nat.exists_eq_add_of_le ((Nat.le_add_right _ _).trans above)
    rw [distance r inside most, distance j (by omega) (by omega)]
    exact mul_le_mul_of_nonneg_right (abs_sub_le_of_half half j).1 scale.le
  · rintro m' ⟨above, below⟩ same
    obtain ⟨j, rfl⟩ := Nat.exists_eq_add_of_le ((Nat.le_add_right _ _).trans above)
    rw [distance r inside most, distance j (by omega) (by omega),
      mul_left_inj' scale.ne'] at same
    rw [even, Nat.add_left_cancel_iff]
    exact (abs_sub_le_of_half half j).2 same
  · rw [number least (le_refl least) (by omega)]
    exact mul_le_mul_of_nonneg_right low scale.le
  · rw [number _ (by omega) (le_refl _)]
    exact mul_le_mul_of_nonneg_right high scale.le

theorem scaledOne_eq : scaledOne = 2 * 2 ^ 1074 := by
  rw [scaledOne, ← Nat.pow_succ']

/-- A quotient in units of the least positive double, after `s` places are dropped. -/
theorem div_mul_scaledOne (n d s : Nat) : (n / d : ℚ) * scaledOne =
    (n <<< 1074 : ℕ) / (d <<< s : ℕ) * 2 ^ (s + 1) := by
  have power : (2 : ℚ) ^ s ≠ 0 := pow_ne_zero s two_ne_zero
  rw [Nat.shiftLeft_eq, Nat.shiftLeft_eq, scaledOne_eq, Nat.mul_comm 2, Nat.cast_mul _ 2,
    Nat.cast_mul n, Nat.cast_mul d, Nat.cast_pow 2 s, Nat.cast_ofNat, pow_succ (2 : ℚ) s,
    ← mul_assoc (_ / _) (2 ^ s : ℚ), div_mul_eq_mul_div _ _ (2 ^ s : ℚ),
    mul_div_mul_right _ _ power, div_mul_eq_mul_div, div_mul_eq_mul_div, mul_assoc]

/-- The magnitude of a quotient is the one that it is rounded to. -/
theorem Binary64.rounds_nearestMagnitude (pos : 0 < d) :
    Binary64.Rounds (n / d) (Binary64.nearestMagnitude n d) := by
  have leading : Binary64.leadingBit = 2 ^ 52 := rfl
  rw [Binary64.nearestMagnitude]
  refine NearestAmong.clamp ?_
  generalize shift_eq : (n <<< 1074 / d).log2 - 52 = s
  rw [div_mul_scaledOne n d s, Nat.shiftLeft_eq d]
  generalize n <<< 1074 = units at shift_eq
  have pos' : 0 < d * 2 ^ s := Nat.mul_pos pos (Nat.two_pow_pos s)
  have quotient : units / (d * 2 ^ s) = units / d / 2 ^ s := (Nat.div_div_eq_div_mul ..).symm
  -- The places that are dropped leave 53 bits.
  have most : units / (d * 2 ^ s) < 2 * Binary64.leadingBit := by
    rw [quotient, Nat.div_lt_iff_lt_mul (Nat.two_pow_pos s), leading, ← pow_succ', ← pow_add]
    exact Nat.lt_log2_self.trans_le (Nat.pow_le_pow_right two_pos (by omega))
  have least : s ≠ 0 → Binary64.leadingBit ≤ units / (d * 2 ^ s) := fun dropped => by
    rw [quotient, Nat.le_div_iff_mul_le (Nat.two_pow_pos s), leading, ← pow_add]
    have exponent : 52 + s = (units / d).log2 := by omega
    rw [exponent]
    refine Nat.log2_self_le fun zero => dropped ?_
    rw [← shift_eq, zero]
    rfl
  have below : (units : ℚ) / (d * 2 ^ s : ℕ) ≤ (2 * Binary64.leadingBit : ℕ) := by
    rw [div_le_iff₀ (Nat.cast_pos.2 pos')]
    exact_mod_cast ((Nat.div_lt_iff_lt_mul pos').1 most).le
  have window (low : Nat) (normal : s = 0 ∨ Binary64.leadingBit ≤ low)
      (le : low ≤ units / (d * 2 ^ s)) := by
    refine NearestAmong.of_window low (x := units / (d * 2 ^ s : ℕ)) normal ?_ below
      (le.trans le_roundQuotient) (roundQuotient_le.trans most) (abs_sub_roundQuotient pos')
    rw [le_div_iff₀ (Nat.cast_pos.2 pos')]
    exact_mod_cast (Nat.le_div_iff_mul_le pos').1 le
  by_cases dropped : s = 0
  · exact window 0 (.inl dropped) (Nat.zero_le _)
  · exact window _ (.inr (le_refl _)) (least dropped)

/-! ### The nearest double to a decimal number -/

/-- A number below half of the least positive double is rounded to zero. -/
theorem NearestAmong.zero (nonneg : 0 ≤ x) (small : x ≤ 1) : NearestAmong Set.univ x 0 := by
  have double : x = x / 2 * 2 ^ (0 + 1) := by
    rw [zero_add, pow_one, div_mul_cancel₀ _ two_ne_zero]
  have distance : |x / 2 - (0 : ℕ)| = x / 2 := by
    rw [Nat.cast_zero, sub_zero, abs_of_nonneg (by linarith)]
  rw [double]
  refine .of_window 0 (s := 0) (.inl rfl) ?_ ?_ (le_refl 0) (Nat.zero_le _)
    ⟨?_, fun _ => Even.zero⟩
  · rw [Nat.cast_zero]
    linarith
  · exact (show x / 2 ≤ 1 by linarith).trans (Nat.one_le_cast.2 (by decide))
  · rw [distance]
    linarith

theorem two_pow_le_ten_pow (le : m ≤ 3 * n) : 2 ^ m ≤ 10 ^ n := by
  refine (Nat.pow_le_pow_right two_pos le).trans ?_
  rw [Nat.pow_mul]
  exact Nat.pow_le_pow_left (by decide) n

theorem two_pow_le_mul_ten_pow (nonzero : d ≠ 0) (le : m ≤ 3 * n) : 2 ^ m ≤ d * 10 ^ n :=
  (two_pow_le_ten_pow le).trans (Nat.le_mul_of_pos_left _ (Nat.pos_of_ne_zero nonzero))

/-- The place of infinity. -/
theorem scaledOf_infinity :
    (scaledOf Binary64.infinityMagnitude : ℚ) = 2 ^ (1024 : ℤ) * scaledOne := by
  have exponent : Binary64.infinityMagnitude = 2047 * Binary64.leadingBit := by decide
  rw [exponent, scaledOf_exponent (by decide), cast_two_pow, cast_scaledOne,
    ← zpow_add₀ two_ne_zero]
  rfl

theorem Binary64.rounds_infinity (large : 2 ^ (1024 : ℤ) ≤ q) :
    Binary64.Rounds q Binary64.infinityMagnitude := by
  refine NearestAmong.of_le ?_
  rw [scaledOf_infinity]
  exact mul_le_mul_of_nonneg_right large cast_scaledOne_pos.le

/-- What has so few bits for the power of ten below it is less than half of the least positive
double. -/
theorem mul_scaledOne_le_ten_pow (tiny : n.log2 + 1201 ≤ 3 * m) : n * scaledOne ≤ 10 ^ m := by
  refine (Nat.mul_le_mul_right scaledOne Nat.lt_log2_self.le).trans ?_
  rw [scaledOne, ← Nat.pow_add]
  exact two_pow_le_ten_pow (by omega)

/-- The magnitude of a decimal number is the one that it is rounded to. -/
theorem Binary64.rounds_decimalMagnitude (digits : Nat) (e : Int) :
    Binary64.Rounds (digits * 10 ^ e) (Binary64.decimalMagnitude digits e) := by
  cases e with
  | ofNat n =>
      have whole : (digits : ℚ) * 10 ^ (Int.ofNat n) = (digits * 10 ^ n : ℕ) / (1 : ℕ) := by
        rw [Nat.cast_one, div_one, Int.ofNat_eq_natCast, zpow_natCast, Nat.cast_mul, Nat.cast_pow,
          Nat.cast_ofNat]
      rw [whole, Binary64.decimalMagnitude]
      split
      · rename_i zero
        refine .of_eq (Nat.zero_le _) ?_
        rw [zero, Nat.zero_mul, Nat.cast_zero, zero_div, zero_mul]
        rfl
      · rename_i nonzero
        split
        · rename_i large
          refine Binary64.rounds_infinity ?_
          rw [Nat.cast_one, div_one]
          exact (cast_two_pow 1024).symm.trans_le
            (Nat.cast_le.2 (two_pow_le_mul_ten_pow nonzero (by omega)))
        · exact Binary64.rounds_nearestMagnitude Nat.one_pos
  | negSucc n =>
      have quotient : (digits : ℚ) * 10 ^ (Int.negSucc n) = digits / (10 ^ (n + 1) : ℕ) := by
        rw [zpow_negSucc, ← div_eq_mul_inv, Nat.cast_pow, Nat.cast_ofNat]
      rw [quotient, Binary64.decimalMagnitude]
      have pos : 0 < 10 ^ (n + 1) := Nat.pow_pos (by decide)
      split
      · rename_i tiny
        have nonneg : (0 : ℚ) ≤ digits / (10 ^ (n + 1) : ℕ) * scaledOne :=
          mul_nonneg (div_nonneg (Nat.cast_nonneg _) (Nat.cast_nonneg _)) (Nat.cast_nonneg _)
        refine NearestAmong.clamp (m := 0) (NearestAmong.zero nonneg ?_)
        rw [div_mul_eq_mul_div, div_le_one (Nat.cast_pos.2 pos)]
        exact_mod_cast mul_scaledOne_le_ten_pow tiny
      · exact Binary64.rounds_nearestMagnitude pos

/-! ### Products with powers of two -/

theorem exists_scaledOf_double (m : Nat) : ∃ m', scaledOf m' = scaledOf m * 2 := by
  have parts := Nat.div_add_mod' m Binary64.leadingBit
  have low := Nat.mod_lt m (y := Binary64.leadingBit) (by decide)
  by_cases subnormal : m / Binary64.leadingBit = 0
  · -- Below the least exponent it is the fraction that doubles.
    rw [subnormal, Nat.zero_mul, Nat.zero_add] at parts
    have single := scaledOf_window (s := 0) (j := m) (.inl rfl) (by omega)
    have double := scaledOf_window (s := 0) (j := 2 * m) (.inl rfl) (by omega)
    rw [Nat.zero_mul, Nat.zero_add] at single double
    exact ⟨2 * m, by rw [single, double]; omega⟩
  · -- Else the exponent grows by one.
    obtain ⟨exponent, next⟩ := Nat.exists_eq_succ_of_ne_zero subnormal
    have double := scaledOf_window (s := exponent + 1)
      (j := Binary64.leadingBit + m % Binary64.leadingBit) (.inr (Nat.le_add_right _ _)) (by omega)
    have single := scaledOf_window (s := exponent)
      (j := Binary64.leadingBit + m % Binary64.leadingBit) (.inr (Nat.le_add_right _ _)) (by omega)
    rw [← Nat.add_assoc, ← Nat.succ_mul, ← next, parts] at single
    refine ⟨(exponent + 1) * Binary64.leadingBit +
      (Binary64.leadingBit + m % Binary64.leadingBit), ?_⟩
    rw [single, double, pow_succ 2 (exponent + 1), Nat.mul_assoc]

theorem exists_scaledOf_mul (m k : Nat) : ∃ m', scaledOf m' = scaledOf m * 2 ^ k := by
  induction k with
  | zero => exact ⟨m, (Nat.mul_one _).symm⟩
  | succ k ih =>
      obtain ⟨single, scaled⟩ := ih
      obtain ⟨double, scaled'⟩ := exists_scaledOf_double single
      exact ⟨double, by rw [scaled', scaled, pow_succ, Nat.mul_assoc]⟩

/-- A number that a magnitude stands for is rounded to that magnitude, unless it is too large. -/
theorem Binary64.rounds_of_eq (exact : q * scaledOne = scaledOf m) (small : q < 2 ^ (1024 : ℤ)) :
    m < Binary64.infinityMagnitude ∧ Binary64.Rounds q m := by
  have finite : m < Binary64.infinityMagnitude := by
    rw [← cast_scaledOf_lt, ← exact, scaledOf_infinity]
    exact mul_lt_mul_of_pos_right small cast_scaledOne_pos
  exact ⟨finite, .of_eq finite.le exact⟩

theorem Binary64.rounds_infinity_iff (exact : q * scaledOne = scaledOf m) :
    Binary64.Rounds q Binary64.infinityMagnitude ↔ 2 ^ (1024 : ℤ) ≤ q := by
  refine ⟨fun overflow => ?_, Binary64.rounds_infinity⟩
  by_contra small
  obtain ⟨finite, rounds⟩ := Binary64.rounds_of_eq exact (lt_of_not_ge small)
  exact finite.ne (rounds.unique overflow)

/-- Natural numbers up to `2 ^ 53` are on the scale. -/
theorem exists_scaledOf_nat (small : n ≤ 2 * Binary64.leadingBit) :
    ∃ m, scaledOf m = n * scaledOne := by
  have least := scaledOf_window (s := 0) (.inl rfl) small
  rw [Nat.zero_mul, Nat.zero_add, Nat.pow_one] at least
  obtain ⟨m, scaled⟩ := exists_scaledOf_mul n 1074
  exact ⟨m, by rw [scaled, least, scaledOne_eq, Nat.mul_assoc]⟩

end

end CountedHeap
