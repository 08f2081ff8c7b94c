import CountedHeap.Proofs.Accounting
import Mathlib.Data.Multiset.Bind
import Mathlib.Algebra.BigOperators.Group.Finset.Basic
import Mathlib.Order.Bounds.Basic

/-!
What giving back references comes to, apart from any order. An object is exhausted
when as many references on it have been given back as it counts, and then those that
it owns are given back too; the exhausted objects are the least set that is closed
under this. A count never falls below zero that way: a reference too many is not taken
off, and is noted.
-/

namespace CountedHeap

/-- An object on which `n` references are given back. A count that is zero or below
stays. -/
def Object.lessen (o : Object) (n : Nat) : Object :=
  { o with count := o.count - (min n o.count.toNat : ℕ) }

/-- The header that a handle names, for handles that name one. -/
def Heap.header (H : Heap) (h : Handle) : Object :=
  (H.object? h).getD default

/-- The references that the objects of `F` own. One that stands there twice has its
references counted twice. -/
def Heap.ownedIn (H : Heap) (F : Multiset Handle) : Multiset Handle :=
  F.bind fun h => (H.ownedBy h : Multiset Handle)

/-- No live object outside `F` has all its references among `L` and the payloads of the
objects in `F`. -/
def Heap.Exhausts (H : Heap) (L : Multiset Handle) (F : Finset Handle) : Prop :=
  ∀ h o, H.slot h = .live o → o.count ≤ ((L + H.ownedIn F.val).count h : ℕ) → h ∈ F

/-- The sets of live objects that giving back `L` may exhaust. -/
def Heap.exhaustions (H : Heap) (L : Multiset Handle) : Set (Finset Handle) :=
  {F | (∀ h ∈ F, H.isLive h = true) ∧ H.Exhausts L F}

/-- One item for each occurrence of a handle in `R` beyond its bound. -/
def excess {α : Type} (bound : Handle → Nat) (item : Handle → α) (R : Multiset Handle) :
    Multiset α :=
  ∑ h ∈ R.toFinset, Multiset.replicate (R.count h - bound h) (item h)

/-- The notes about the references in `R` that were not there to be given back. -/
def Heap.surplus (H : Heap) (R : Multiset Handle) : Multiset Diagnostic :=
  excess (fun h => (H.header h).count.toNat)
    (fun h => .surplusRelease h { H.header h with count := min (H.header h).count 0 }) R

section

variable {H : Heap} {h k : Handle} {o : Object} {n : Nat} {F : Finset Handle}
  {L R S : Multiset Handle}

/-! ### Counting down to zero -/

@[simp] theorem Object.lessen_zero (o : Object) : o.lessen 0 = o := by
  simp [Object.lessen]

theorem Object.count_lessen_pos : 0 < (o.lessen n).count ↔ (n : Int) < o.count := by
  simp only [Object.lessen]
  omega

theorem Object.count_lessen_eq_one : (o.lessen n).count = 1 ↔ o.count = n + 1 := by
  simp only [Object.lessen]
  omega

theorem Object.count_lessen_of_le (spent : o.count ≤ n) :
    (o.lessen n).count = min o.count 0 := by
  simp only [Object.lessen]
  omega

theorem Object.lessen_succ_of_lt (more : (n : Int) < o.count) :
    { o.lessen n with count := (o.lessen n).count - 1 } = o.lessen (n + 1) := by
  simp only [Object.lessen, Object.mk.injEq, true_and, and_true]
  omega

theorem Object.lessen_succ_of_le (spent : o.count ≤ n) : o.lessen (n + 1) = o.lessen n := by
  simp only [Object.lessen, Object.mk.injEq, true_and, and_true]
  omega

theorem Object.lessen_of_spent (counted : 0 < o.count) (spent : o.count ≤ n) :
    o.lessen n = { o with count := 0 } := by
  simp only [Object.lessen, Object.mk.injEq, true_and, and_true]
  omega

/-! ### The references of a set of objects -/

@[simp] theorem Heap.ownedIn_zero : H.ownedIn 0 = 0 := Multiset.zero_bind _

@[simp] theorem Heap.ownedIn_cons : H.ownedIn (h ::ₘ S) = ↑(H.ownedBy h) + H.ownedIn S :=
  Multiset.cons_bind _ _ _

theorem Heap.ownedIn_le (sub : R ≤ S) : H.ownedIn R ≤ H.ownedIn S := by
  obtain ⟨more, rfl⟩ := Multiset.le_iff_exists_add.1 sub
  rw [Heap.ownedIn, Heap.ownedIn, Multiset.add_bind]
  exact Multiset.le_add_right _ _

/-- Objects that stand there once each own no more than all live objects do. -/
theorem Heap.ownedIn_le_references (nodup : S.Nodup) : H.ownedIn S ≤ H.references := by
  -- Over a range that takes in every slot, the sum over `S` is a part of that over all.
  obtain ⟨m, below⟩ := S.toFinset.exists_nat_subset_range
  have inside : S ≤ Multiset.range (m + H.slots.size) := by
    refine (Multiset.le_iff_subset nodup).2 fun k mem => Multiset.mem_range.2 ?_
    have := Finset.mem_range.1 (below (Multiset.mem_toFinset.2 mem))
    omega
  have all : H.ownedIn (Multiset.range (m + H.slots.size)) = H.references := by
    rw [Heap.references, ← Heap.sum_map_slots rfl (Nat.le_add_left _ m), Heap.ownedIn,
      Multiset.range, Multiset.bind, Multiset.map_coe, Multiset.join, Multiset.sum_coe]
    rfl
  exact all ▸ H.ownedIn_le inside

theorem Heap.header_of_object? (found : H.object? h = some o) : H.header h = o := by
  rw [Heap.header, found, Option.getD_some]

/-! ### What is beyond the bound -/

section

variable {α : Type} {bound : Handle → Nat} {item : Handle → α}

@[simp] theorem excess_zero : excess bound item 0 = 0 := rfl

theorem excess_cons (h : Handle) (R : Multiset Handle) : excess bound item (h ::ₘ R) =
    (if bound h ≤ R.count h then {item h} else 0) + excess bound item R := by
  have wide (R' : Multiset Handle) (sub : R'.toFinset ⊆ (h ::ₘ R).toFinset) :
      excess bound item R' = Multiset.replicate (R'.count h - bound h) (item h) +
        ∑ k ∈ (h ::ₘ R).toFinset.erase h,
          Multiset.replicate (R'.count k - bound k) (item k) := by
    rw [excess, Finset.add_sum_erase _ (fun k => Multiset.replicate (R'.count k - bound k) (item k))
      (by simp)]
    refine Finset.sum_subset sub fun k _ absent => ?_
    rw [Multiset.mem_toFinset, ← Multiset.count_eq_zero] at absent
    rw [absent, Nat.zero_sub, Multiset.replicate_zero]
  have others : ∑ k ∈ (h ::ₘ R).toFinset.erase h,
      Multiset.replicate ((h ::ₘ R).count k - bound k) (item k) =
        ∑ k ∈ (h ::ₘ R).toFinset.erase h, Multiset.replicate (R.count k - bound k) (item k) := by
    refine Finset.sum_congr rfl fun k mem => ?_
    rw [Multiset.count_cons_of_ne (Finset.ne_of_mem_erase mem)]
  rw [wide _ subset_rfl, wide R (by simp [Multiset.toFinset_cons]), others,
    Multiset.count_cons_self, ← add_assoc]
  congr 1
  split
  · rename_i beyond
    rw [Nat.succ_sub beyond, Multiset.replicate_succ, Multiset.singleton_add]
  · have none : R.count h + 1 - bound h = 0 := by omega
    have none' : R.count h - bound h = 0 := by omega
    rw [none, none', zero_add]

end

theorem Heap.surplus_cons (found : H.object? h = some o) : H.surplus (h ::ₘ R) =
    (if o.count ≤ (R.count h : ℕ) then {.surplusRelease h { o with count := min o.count 0 }}
      else 0) + H.surplus R := by
  rw [Heap.surplus, excess_cons, Heap.header_of_object? found, Heap.surplus]
  congr 2
  rw [eq_iff_iff]
  omega

end

end CountedHeap
