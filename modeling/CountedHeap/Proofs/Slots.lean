import CountedHeap.Heap.Basic
import Mathlib.Algebra.Order.BigOperators.Group.List
import Mathlib.Tactic.Abel

/-!
The slots of a heap, one of them changed after another, and sums over them. The references
that live payloads own, the bytes that are charged, the number of live objects: each is a
sum over the slots, to which a slot with nothing in it adds nothing. So the sum moves with
the one slot that changes, and it is the same on a heap with more slots at the end.
-/

namespace CountedHeap

theorem Heap.slots_getElem? (H : Heap) {h : Handle} (inside : h < H.slots.size) :
    H.slots.toList[h]? = some (H.slot h) := by
  simp [Heap.slot, inside]

theorem Heap.slot_of_size_le (H : Heap) {h : Handle} (outside : H.slots.size ≤ h) :
    H.slot h = .reclaimed := by
  simp [Heap.slot, outside]

/-! ### Places of an array -/

section

variable {α : Type} {xs : Array α} {i : Nat}

theorem size_eq_of_getElem? {ys : Array α} {f : Nat → α → α}
    (same : ∀ k, ys[k]? = xs[k]?.map (f k)) : ys.size = xs.size := by
  apply Nat.le_antisymm
  · rw [← Array.getElem?_eq_none_iff, same, Array.getElem?_eq_none_iff.2 (Nat.le_refl _)]
    rfl
  · have none := Option.map_eq_none_iff.1 ((same ys.size).symm.trans
      (Array.getElem?_eq_none_iff.2 (Nat.le_refl _)))
    exact Array.getElem?_eq_none_iff.1 none

theorem modify_modify (f g : α → α) : (xs.modify i f).modify i g = xs.modify i (g ∘ f) := by
  apply Array.ext_getElem?
  intro j
  simp only [Array.getElem?_modify]
  split
  · rw [Option.map_map]
  · rfl

theorem modify_congr {f g : α → α} (same : ∀ a, xs[i]? = some a → f a = g a) :
    xs.modify i f = xs.modify i g := by
  apply Array.ext_getElem?
  intro j
  rw [Array.getElem?_modify, Array.getElem?_modify]
  split
  · rename_i here
    subst here
    exact Option.map_congr same
  · rfl

theorem modify_eq_self {f : α → α} (same : ∀ a, f a = a) : xs.modify i f = xs := by
  apply Array.ext_getElem?
  intro j
  rw [Array.getElem?_modify, funext same]
  split
  · rw [Option.map_id']
  · rfl

end

section

variable {H : Heap} {h : Handle} {o : Object}

theorem Heap.update_update (f g : Object → Object) :
    (H.update h f).update h g = H.update h (g ∘ f) := by
  have both : Slot.map g ∘ Slot.map f = Slot.map (g ∘ f) := by
    funext s
    cases s <;> rfl
  simp only [Heap.update, Heap.mapSlot, modify_modify, both]

theorem Heap.update_congr {f g : Object → Object} (slot : H.slot h = .live o) (same : f o = g o) :
    H.update h f = H.update h g := by
  have slots : H.slots.modify h (Slot.map f) = H.slots.modify h (Slot.map g) := by
    refine modify_congr fun s found => ?_
    obtain rfl : .live o = s := by
      rw [← slot, Heap.slot, Array.getD_eq_getD_getElem?, found, Option.getD_some]
    rw [Slot.map, Slot.map, same]
  rw [Heap.update, Heap.update, Heap.mapSlot, Heap.mapSlot, slots]

theorem Heap.update_eq_self {f : Object → Object} (same : ∀ o, f o = o) : H.update h f = H := by
  have all (s : Slot) : s.map f = s := by cases s <;> simp only [Slot.map, same]
  simp only [Heap.update, Heap.mapSlot, modify_eq_self all]

end

/-! ### Sums -/

-- The old summand stands on the left, since multisets have no exact subtraction.
theorem sum_map_modify {α M : Type} [AddCommMonoid M] (g : α → M) (f : α → α) (l : List α) (i : Nat)
    {a : α} (ha : l[i]? = some a) :
    ((l.modify i f).map g).sum + g a = (l.map g).sum + g (f a) := by
  induction l generalizing i with
  | nil => simp at ha
  | cons b l ih =>
      cases i with
      | zero =>
          simp only [List.getElem?_cons_zero, Option.some.injEq] at ha
          subst ha
          simp only [List.modify_zero_cons, List.map_cons, List.sum_cons]
          abel
      | succ i =>
          have step := ih i (by simpa using ha)
          simp only [List.modify_succ_cons, List.map_cons, List.sum_cons, add_assoc]
          rw [step]

section

variable {H H' : Heap} {h : Handle} {n : Nat} {A : Type} [AddCommMonoid A] {g : Slot → A}

/-- One slot changes. -/
theorem Heap.sum_mapSlot {f : Slot → Slot} (hf : f .reclaimed = .reclaimed) :
    ((H.mapSlot h f).slots.toList.map g).sum + g (H.slot h) =
      (H.slots.toList.map g).sum + g (f (H.slot h)) := by
  rw [Heap.mapSlot, Array.toList_modify]
  by_cases inside : h < H.slots.size
  · exact sum_map_modify g f _ _ (H.slots_getElem? inside)
  · have outside : H.slots.toList.length ≤ h := by simpa using inside
    rw [List.modify_eq_self outside, H.slot_of_size_le (by simpa using outside), hf]

/-- A sum over the slots, taken over as many handles as one likes. -/
theorem Heap.sum_map_slots (none : g .reclaimed = 0) (bound : H.slots.size ≤ n) :
    ((List.range n).map fun k => g (H.slot k)).sum = (H.slots.toList.map g).sum := by
  have inside : (List.range H.slots.size).map (fun k => g (H.slot k)) = H.slots.toList.map g := by
    apply List.ext_getElem (by simp)
    intro k inside _
    rw [List.length_map, List.length_range] at inside
    simp [Heap.slot, inside]
  obtain ⟨more, rfl⟩ := Nat.exists_eq_add_of_le bound
  have outside : (List.range more).map ((fun k => g (H.slot k)) ∘ (H.slots.size + ·)) =
      (List.range more).map fun _ => 0 := by
    refine List.map_congr_left fun k _ => ?_
    rw [Function.comp_apply, H.slot_of_size_le (Nat.le_add_right _ _), none]
  rw [List.range_add, List.map_append, List.sum_append, inside, List.map_map, outside]
  simp

theorem Heap.sum_eq_of_slots (none : g .reclaimed = 0) (same : ∀ k, g (H'.slot k) = g (H.slot k)) :
    (H'.slots.toList.map g).sum = (H.slots.toList.map g).sum := by
  rw [← Heap.sum_map_slots none (Nat.le_max_left H'.slots.size H.slots.size),
    ← Heap.sum_map_slots none (Nat.le_max_right H'.slots.size H.slots.size)]
  simp only [same]

theorem Heap.sum_le_of_slots [PartialOrder A] [IsOrderedAddMonoid A] (none : g .reclaimed = 0)
    (le : ∀ k, g (H'.slot k) ≤ g (H.slot k)) :
    (H'.slots.toList.map g).sum ≤ (H.slots.toList.map g).sum := by
  rw [← Heap.sum_map_slots none (Nat.le_max_left H'.slots.size H.slots.size),
    ← Heap.sum_map_slots none (Nat.le_max_right H'.slots.size H.slots.size)]
  exact List.sum_le_sum fun k _ => le k

end

end CountedHeap
