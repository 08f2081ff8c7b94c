import CountedHeap.Proofs.Cascade
import Mathlib.Data.Finset.Lattice.Lemmas

/-!
Taking references, and the bridge on which the host gives back its own. Both
move a count by one, and a count that would leave its range wraps around; the
lemmas ask that it did not. A reference that the host gives back on the bridge
is taken from the outside owners if the host owns one. If it does not, or keeps
it on its books, the object counts as misused from then on.
-/

namespace CountedHeap

/-- Whether a value can be passed: what it refers to has a header. -/
def Engine.Names (e : Engine) (v : Value) : Prop :=
  ∀ h ∈ v.refs, ∃ o, e.heap.object? h = some o

section

variable {e : Engine} {M M' : Finset Handle} {X X' : Multiset Handle} {h : Handle} {o : Object}
  {v : Value}

theorem Engine.names_immediate (w : Word) : e.Names (.immediate w) :=
  fun h hh => absurd hh (Multiset.notMem_zero h)

theorem Engine.names_reference : e.Names (.reference h) ↔ ∃ o, e.heap.object? h = some o := by
  simp [Engine.Names]

theorem Engine.isValid_iff : e.isValid v = true ↔ e.Names v := by
  cases v with
  | immediate w => exact ⟨fun _ => Engine.names_immediate w, fun _ => rfl⟩
  | reference h =>
      rw [Engine.names_reference, Heap.object?]
      simp only [Engine.isValid, Value.isReference, Engine.isLive, Engine.isParked, Value.handle?,
        Option.any_some, Heap.isLive, Heap.isParked]
      cases e.heap.slot h <;> simp [Slot.isLive, Slot.live?, Slot.isParked, Slot.object?]

theorem Engine.Settled.names (hs : e.Settled M (v.refs + X)) : e.Names v :=
  fun h hh => hs.owned.named h (Multiset.mem_add.2 (.inl (Multiset.mem_add.2 (.inl hh))))

theorem Engine.Settled.names_of_mem (hs : e.Settled M X) (mem : ∀ h ∈ v.refs, h ∈ e.references) :
    e.Names v :=
  fun h hh => hs.owned.named h (Multiset.mem_add.2 (.inr (mem h hh)))

/-! ### Counts in range -/

theorem Engine.inRange_checkCount {n : Int} :
    (e.checkCount n).InRange ↔ CountInRange n ∧ e.InRange := by
  rw [Engine.checkCount]
  split
  · rename_i fits
    exact ⟨fun range => ⟨fits, range⟩, fun both => both.2⟩
  · rename_i wraps
    refine ⟨fun range => ?_, fun both => absurd both.1 wraps⟩
    exact Bool.noConfusion range

theorem Engine.checkCount_of_inRange {n : Int} (fits : CountInRange n) : e.checkCount n = e :=
  if_pos fits

theorem Engine.addReference_eq (found : e.heap.object? h = some o)
    (range : (e.addReference h).InRange) : CountInRange (o.count + 1) ∧ e.addReference h =
      e.updateObject h fun o => { o with count := wrapCount (o.count + 1) } := by
  simp only [Engine.addReference, found] at range ⊢
  have fits := (Engine.inRange_checkCount.1 range).1
  exact ⟨fits, by rw [Engine.checkCount_of_inRange fits]⟩

theorem Engine.inRange_of_retain (range : (e.retain v).InRange) : e.InRange := by
  cases v with
  | immediate w => exact range
  | reference h =>
      simp only [Engine.retain, Value.handle?, Engine.addReference] at range
      split at range
      · exact (Engine.inRange_checkCount.1 range).2
      · exact range

theorem Engine.frame_retain (range : (e.retain v).InRange) : (e.retain v).frame = e.frame := by
  cases v with
  | immediate w => rfl
  | reference h =>
      simp only [Engine.retain, Value.handle?, Engine.addReference] at range ⊢
      split
      · rename_i o found
        simp only [found] at range
        rw [Engine.checkCount_of_inRange (Engine.inRange_checkCount.1 range).1]
        rfl
      · rfl

/-! ### One reference more -/

theorem Engine.Settled.addReference (hs : e.Settled M X) (found : e.heap.object? h = some o)
    (range : (e.addReference h).InRange) : (e.addReference h).Settled M (h ::ₘ X) := by
  obtain ⟨fits, result⟩ := Engine.addReference_eq found range
  have counted : wrapCount (o.count + 1) = o.count + 1 := wrapCount_of_inRange fits
  rw [result]
  refine ⟨hs.sound.recount (Object.recounts_count _) (Multiset.notMem_zero h) ?_, ?_,
    hs.blameless.updateObject subset_rfl⟩
  · intro o' slot
    obtain rfl : o = o' := Option.some.inj (found.symm.trans (Heap.object?_of_live slot))
    have positive := (hs.sound.live slot).2.2
    dsimp only
    omega
  · refine hs.owned.recount (Object.recounts_count _) found (fun _ _ => Iff.rfl) ?_ ?_ ?_
    · intro k differ
      rw [Multiset.count_cons_of_ne differ]
    · intro hM
      show wrapCount (o.count + 1) = _
      rw [counted, hs.owned.exact h o found hM, Multiset.cons_add, Multiset.cons_add,
        Multiset.count_cons_self]
      rfl
    · exact fun hM => hs.owned.adopted h hM o found

theorem Engine.Settled.retain (hs : e.Settled M X) (named : e.Names v)
    (range : (e.retain v).InRange) : (e.retain v).Settled M (v.refs + X) := by
  cases v with
  | immediate w =>
      rw [Value.refs_immediate, zero_add]
      exact hs
  | reference h =>
      obtain ⟨o, found⟩ := Engine.names_reference.1 named
      rw [Value.refs_reference, Multiset.singleton_add]
      exact hs.addReference found range

/-! ### The bridge -/

theorem Object.recounts_adopt : Object.Recounts Object.adopt :=
  ⟨fun _ => rfl, fun _ => rfl, fun _ => rfl, fun _ => rfl, fun _ _ => rfl⟩

theorem Engine.Settled.markAdopted (hs : e.Settled M X) (found : e.heap.object? h = some o) :
    (e.updateObject h Object.adopt).Settled M X := by
  refine ⟨hs.sound.recount Object.recounts_adopt (Multiset.notMem_zero h) ?_, ?_,
    hs.blameless.updateObject subset_rfl⟩
  · exact fun o' slot => (hs.sound.live slot).2.2
  · exact hs.owned.recount Object.recounts_adopt found (fun _ _ => Iff.rfl) (fun _ _ => rfl)
      (hs.owned.exact h o found) fun _ => rfl

theorem Engine.Settled.adopt (hs : e.Settled M X) (named : e.Names v)
    (range : (e.adopt v).InRange) : (e.adopt v).Settled M (v.refs + X) := by
  cases v with
  | immediate w =>
      rw [Value.refs_immediate, zero_add]
      exact hs
  | reference h =>
      obtain ⟨o, found⟩ := Engine.names_reference.1 named
      have found' : (e.updateObject h Object.adopt).heap.object? h = some o.adopt := by
        rw [Engine.heap_updateObject, Heap.object?_update, if_pos rfl, found]
        rfl
      rw [Value.refs_reference, Multiset.singleton_add]
      exact (hs.markAdopted found).addReference found' range

theorem Object.recounts_relinquish (n : Int) :
    Object.Recounts fun o => { o.adopt with count := n } :=
  ⟨fun _ => rfl, fun _ => rfl, fun _ => rfl, fun _ => rfl, fun _ _ => rfl⟩

@[simp] theorem Engine.frame_afterRelinquish (e : Engine) (h : Handle) (o : Object) :
    (e.afterRelinquish h o).frame = e.frame := by
  rw [Engine.afterRelinquish]
  split
  · exact e.frame_queueZero h
  · split <;> rfl

theorem Engine.relinquish_eq (found : e.heap.object? h = some o)
    (range : (e.relinquish (.reference h)).2.InRange) :
    CountInRange (o.count - 1) ∧ (e.relinquish (.reference h)).2 =
      (e.updateObject h fun o' => { o'.adopt with count := o.count - 1 }).afterRelinquish h
        { o.adopt with count := o.count - 1 } := by
  simp only [Engine.relinquish, Value.handle?, found] at range ⊢
  rw [inRange_of_frame (Engine.frame_afterRelinquish _ _ _)] at range
  have fits := (Engine.inRange_checkCount.1 range).1
  rw [Engine.checkCount_of_inRange fits, wrapCount_of_inRange fits]
  exact ⟨fits, rfl⟩

/-- One reference less on the bridge. The object counts as misused if the host
did not own the reference, or goes on as if it did. -/
theorem Engine.Settled.relinquishReference (hs : e.Settled M X)
    (found : e.heap.object? h = some o) (range : (e.relinquish (.reference h)).2.InRange)
    (hM : ∀ k, k ≠ h → (k ∈ M' ↔ k ∈ M)) (grows : M ⊆ M')
    (others : ∀ k, k ≠ h → X'.count k = X.count k) (booked : h ∉ M' → X = h ::ₘ X') :
    (e.relinquish (.reference h)).2.Settled M' X' := by
  obtain ⟨-, result⟩ := Engine.relinquish_eq found range
  have recounts := Object.recounts_relinquish (o.count - 1)
  have counted : h ∉ M' → o.count - 1 = ((X' + e.references + e.abandoned).count h : ℕ) := by
    intro hm
    rw [hs.owned.exact h o found fun hm' => hm (grows hm'), booked hm, Multiset.cons_add,
      Multiset.cons_add, Multiset.count_cons_self]
    omega
  have owned : (e.updateObject h fun o' => { o'.adopt with count := o.count - 1 }).Owned M' X' :=
    hs.owned.recount recounts found hM others counted fun _ => rfl
  have blameless : (e.updateObject h fun o' =>
      { o'.adopt with count := o.count - 1 }).Blameless M' :=
    hs.blameless.updateObject grows
  rw [result]
  by_cases last : o.count - 1 = 0
  · have queued : (e.updateObject h fun o' => { o'.adopt with count := o.count - 1 }).Balanced
        M' 0 {h} X' :=
      ⟨hs.sound.enqueue recounts (Multiset.notMem_zero h) found last, owned, blameless⟩
    rw [Engine.afterRelinquish, if_pos last, Engine.queueZero_eq queued.rested]
    exact Engine.Balanced.drain queued
  · -- A live object has a positive count, so that one below zero is parked.
    have sound : (e.updateObject h fun o' => { o'.adopt with count := o.count - 1 }).heap.Sound
        0 0 := by
      apply hs.sound.recount recounts (Multiset.notMem_zero h)
      intro o' slot
      obtain rfl : o = o' := Option.some.inj (found.symm.trans (Heap.object?_of_live slot))
      have positive := (hs.sound.live slot).2.2
      show 0 < o.count - 1
      omega
    rw [Engine.afterRelinquish, if_neg last]
    by_cases below : o.count - 1 < 0
    · have hm : h ∈ M' := by
        by_contra hm
        have := counted hm
        omega
      rw [if_pos below]
      exact Engine.Balanced.record ⟨sound, owned, blameless⟩ (Diagnostic.excused_objectBelowZero hm)
    · rw [if_neg below]
      exact ⟨sound, owned, blameless⟩

/-- The host gives back a reference that it owns. -/
theorem Engine.Settled.relinquish (hs : e.Settled M (v.refs + X))
    (range : (e.relinquish v).2.InRange) : (e.relinquish v).2.Settled M X := by
  cases v with
  | immediate w =>
      rw [Value.refs_immediate, zero_add] at hs
      exact hs
  | reference h =>
      rw [Value.refs_reference, Multiset.singleton_add] at hs
      obtain ⟨o, found⟩ := hs.owned.named h (Multiset.mem_add.2 (.inl (Multiset.mem_cons_self h X)))
      refine hs.relinquishReference found range (fun _ _ => Iff.rfl) subset_rfl ?_ fun _ => rfl
      intro k differ
      rw [Multiset.count_cons_of_ne differ]

/-- The host gives back a reference that it does not own, or that it keeps on its
books. -/
theorem Engine.Settled.misuse (hs : e.Settled M X) (named : e.Names v)
    (range : (e.relinquish v).2.InRange) :
    (e.relinquish v).2.Settled (M ∪ v.refs.toFinset) X := by
  cases v with
  | immediate w =>
      rw [Value.refs_immediate, Multiset.toFinset_zero, Finset.union_empty]
      exact hs
  | reference h =>
      obtain ⟨o, found⟩ := Engine.names_reference.1 named
      refine hs.relinquishReference found range ?_ Finset.subset_union_left (fun _ _ => rfl) ?_
      · intro k differ
        simp [differ]
      · intro hm
        simp at hm

end

end CountedHeap
