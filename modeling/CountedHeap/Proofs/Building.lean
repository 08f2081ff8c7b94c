import CountedHeap.Proofs.Accounting
import CountedHeap.Proofs.Residual

/-!
Objects under construction. An operation that makes several objects builds them
beside those that are there already: the new ones refer to each other at most, each
to older ones only, and nobody else has seen them. If it gives all of them back,
nothing is left of them, since the youngest object that is left would have no owner.
And what is left of the others is determined by what somebody owns: where the
building began, and a collection has seen to it that no garbage is left, the heap
is the one that a collection at the beginning would have left.
-/

namespace CountedHeap

/-- What may stand in slot `k` while it belongs to a building that began when there
were `n` objects. -/
def Slot.Young (n k : Nat) : Slot → Prop
  | .live o => o.adopted = false ∧ ∀ h ∈ o.payload.owned, n ≤ h ∧ h < k
  | .parked o => o.adopted = false
  | .reclaimed => True

/-- `H'` is `H` after some building. -/
structure Heap.Extends (H H' : Heap) : Prop where
  size : H.slots.size ≤ H'.slots.size
  old : ∀ k < H.slots.size, (H.slot k).Fades (H'.slot k)
  young : ∀ k, H.slots.size ≤ k → (H'.slot k).Young H.slots.size k

/-- An engine after some building that began at `e`. The outside owns `X` as before,
and `Y` on what was built. -/
structure Engine.Building (e : Engine) (X Y : Multiset Handle) (e' : Engine) : Prop where
  settled : e'.Settled ∅ (Y + X)
  grown : e.heap.Extends e'.heap
  young : ∀ h ∈ Y, e.heap.slots.size ≤ h
  frame : e'.frame = e.frame
  diagnostics : e'.diagnostics = e.diagnostics

/-- Of the objects that were there when the building began, those that are left
would be left by a collection at that time. -/
def Engine.Pruned (e e' : Engine) : Prop :=
  ∀ k < e.heap.slots.size, e'.heap.isLive k = true → e.heap.Kept k

/-- Two heaps with the same headers and the same numbers. One of them may have had
more objects, of which nothing is left. -/
structure Heap.Same (H H' : Heap) : Prop where
  slots : ∀ k, H'.slot k = H.slot k
  liveCount : H'.liveCount = H.liveCount
  parkedCount : H'.parkedCount = H.parkedCount
  bytes : H'.bytes = H.bytes
  overdrawn : H'.overdrawn = H.overdrawn

/-- What is left of a slot, if the object stays or goes and there are `count` references
on the header. -/
def Slot.faded (stays : Bool) (count : Int) : Slot → Slot
  | .live o =>
    if stays then .live { o with count := count }
    else if o.adopted then .parked { o.release with count := count }
    else .reclaimed
  | .parked o => .parked { o with count := count }
  | .reclaimed => .reclaimed

/-! ### Heaps with the same headers -/

section

variable {H H' : Heap} {n : Nat}

/-- The books hold whatever the headers say. -/
theorem Heap.same_of_slots (booked : H.Booked 0) (booked' : H'.Booked 0)
    (slots : ∀ k, H'.slot k = H.slot k) : H.Same H' := by
  have total {g : Slot → Nat} (none : g .reclaimed = 0) : H'.total g = H.total g :=
    Heap.sum_eq_of_slots none fun k => congrArg g (slots k)
  refine ⟨slots, ?_, ?_, ?_, booked'.overdrawn.trans booked.overdrawn.symm⟩
  · rw [booked'.liveCount, booked.liveCount, total rfl]
  · rw [booked'.parkedCount, booked.parkedCount, total rfl]
  · rw [booked'.bytes, booked.bytes, total rfl]

/-- The list of live objects, with as many handles looked at as one likes. -/
theorem Heap.listed_eq_range (bound : H.slots.size ≤ n) : H.listed =
    (List.range n).filterMap fun h => (H.slot h).live?.map fun o => (h, o) := by
  obtain ⟨more, rfl⟩ := Nat.exists_eq_add_of_le bound
  have outside : (List.range more).filterMap
      ((fun h => (H.slot h).live?.map fun o => (h, o)) ∘ (H.slots.size + ·)) = [] := by
    refine List.filterMap_eq_nil_iff.2 fun k _ => ?_
    rw [Function.comp_apply, H.slot_of_size_le (Nat.le_add_right _ _)]
    rfl
  rw [List.range_add, List.filterMap_append, List.filterMap_map, outside, List.append_nil,
    Heap.listed_eq]

theorem Heap.Same.listed (same : H.Same H') : H'.listed = H.listed := by
  rw [Heap.listed_eq_range (Nat.le_max_left H'.slots.size H.slots.size),
    Heap.listed_eq_range (Nat.le_max_right H'.slots.size H.slots.size)]
  simp only [same.slots]

theorem Heap.Same.eq (same : H.Same H') (size : H'.slots.size = H.slots.size) : H' = H :=
  Heap.ext_slot size same.slots same.liveCount same.parkedCount same.bytes same.overdrawn

end

/-! ### What is left of a header -/

section

variable {e e' e₁ e₂ : Engine} {X Y : Multiset Handle} {s s' : Slot} {k : Handle} {o o' : Object}

theorem Object.eq_of_unmarked (unmarked : o.Unmarked) (unmarked' : o'.Unmarked)
    (classId : o'.classId = o.classId) (count : o'.count = o.count)
    (adopted : o'.adopted = o.adopted) (freed : o'.freed = o.freed)
    (payload : o'.payload = o.payload) : o' = o := by
  obtain ⟨marked, reached⟩ := unmarked
  obtain ⟨marked', reached'⟩ := unmarked'
  cases o
  cases o'
  simp_all

/-- Of a slot that fades only two things are left open: whether the object stays, and
the count. -/
theorem Slot.Fades.eq_faded (fades : s.Fades s') (clean : s.Sound False False)
    (clean' : s'.Sound False False) {n : Int}
    (count : ∀ o', s'.object? = some o' → o'.count = n) : s' = s.faded s'.isLive n := by
  cases fades with
  | @live o o' classId adopted _ payload =>
      obtain ⟨unmarked, ⟨fresh, -⟩ | ⟨-, ends, -⟩⟩ := clean
      · obtain ⟨unmarked', ⟨fresh', positive | queued⟩ | ⟨-, ends, -⟩⟩ := clean'
        · exact congrArg Slot.live (Object.eq_of_unmarked (o := { o with count := n }) unmarked
            unmarked' classId (count o' rfl) adopted (fresh'.trans fresh.symm) (payload positive))
        · exact queued.elim
        · exact ends.elim
      · exact ends.elim
  | @parks o o' classId adopted _ =>
      obtain ⟨unmarked, -⟩ := clean
      obtain ⟨unmarked', adopted', freed', empty'⟩ := clean'
      have parked : Slot.faded (Slot.parked o').isLive n (.live o) =
          .parked { o.release with count := n } := if_pos (adopted.symm.trans adopted')
      rw [parked]
      exact congrArg Slot.parked (Object.eq_of_unmarked (o := { o.release with count := n })
        unmarked unmarked' classId (count o' rfl) adopted freed' empty')
  | reclaims unclaimed => exact (if_neg (Bool.eq_false_iff.1 unclaimed)).symm
  | @parked o o' classId adopted _ =>
      obtain ⟨unmarked, -, freed, empty⟩ := clean
      obtain ⟨unmarked', -, freed', empty'⟩ := clean'
      exact congrArg Slot.parked (Object.eq_of_unmarked (o := { o with count := n }) unmarked
        unmarked' classId (count o' rfl) adopted (freed'.trans freed.symm)
        (empty'.trans empty.symm))
  | reclaimed => rfl

theorem Heap.Sound.slot {H : Heap} (clean : H.Sound 0 0) (k : Handle) :
    (H.slot k).Sound False False :=
  (clean.slots k).mono (Multiset.notMem_zero k) (Multiset.notMem_zero k)

/-! ### Old objects -/

theorem Engine.Building.live_of_live (building : e.Building X Y e') (old : k < e.heap.slots.size)
    (slot' : e'.heap.slot k = .live o') :
    ∃ o, e.heap.slot k = .live o ∧ o'.classId = o.classId ∧ o'.adopted = o.adopted ∧
      o'.payload = o.payload := by
  have fades := building.grown.old k old
  rw [slot'] at fades
  exact fades.live_of_live (building.settled.sound.live slot').2.2

theorem Engine.Building.ownedBy_eq (building : e.Building X Y e') (old : k < e.heap.slots.size)
    (live : e'.heap.isLive k = true) : e'.heap.ownedBy k = e.heap.ownedBy k := by
  obtain ⟨o', slot'⟩ := Heap.isLive_iff.1 live
  obtain ⟨o, slot, -, -, payload⟩ := building.live_of_live old slot'
  rw [Heap.ownedBy_of_live slot', Heap.ownedBy_of_live slot, payload]

/-- The references of new objects are on new objects. -/
theorem Engine.Building.old_of_mem_ownedBy {h : Handle} (building : e.Building X Y e')
    (old : k < e.heap.slots.size) (edge : k ∈ e'.heap.ownedBy h) : h < e.heap.slots.size := by
  by_contra new
  have young := building.grown.young h (Nat.le_of_not_lt new)
  obtain ⟨o, slot⟩ := Heap.isLive_iff.1 (Heap.isLive_of_mem_ownedBy edge)
  rw [slot] at young
  rw [Heap.ownedBy_of_live slot] at edge
  exact absurd (young.2 k edge).1 (Nat.not_le.2 old)

theorem Engine.Building.anchors_eq (building : e.Building X Y e') : e'.anchors = e.anchors :=
  Engine.anchors_of_frame building.frame

theorem Engine.Building.abandoned_eq (building : e.Building X Y e') :
    e'.abandoned = e.abandoned :=
  Engine.abandoned_of_frame building.frame

/-- What a collection would keep now it would have kept at the beginning. -/
theorem Engine.Building.kept (building : e.Building X Y e') (hs : e.Settled ∅ X)
    (kept : e'.heap.Kept k) (old : k < e.heap.slots.size) : e.heap.Kept k := by
  induction kept with
  | @seed h o' slot' owned =>
      obtain ⟨o, slot, -⟩ := building.live_of_live old slot'
      -- Whoever owns the object from outside the heap did so at the beginning.
      have exact' := building.settled.owned.exact h o' (Heap.object?_of_live slot')
        (Finset.notMem_empty h)
      have exact := hs.owned.exact h o (Heap.object?_of_live slot) (Finset.notMem_empty h)
      have apart : Y.count h = 0 :=
        Multiset.count_eq_zero.2 fun mem => absurd (building.young h mem) (Nat.not_le.2 old)
      simp only [Engine.references, building.anchors_eq, building.abandoned_eq,
        Multiset.count_add] at exact exact'
      exact .seed slot (by omega)
  | @child h k parent edge live ih =>
      have parentOld := building.old_of_mem_ownedBy old edge
      obtain ⟨o', slot'⟩ := Heap.isLive_iff.1 live
      obtain ⟨o, slot, -⟩ := building.live_of_live old slot'
      rw [building.ownedBy_eq parentOld parent.isLive] at edge
      exact .child (ih parentOld) edge (Heap.isLive_iff.2 ⟨o, slot⟩)

theorem Heap.lt_size_of_isLive {H : Heap} (live : H.isLive k = true) : k < H.slots.size := by
  obtain ⟨o, slot⟩ := Heap.isLive_iff.1 live
  exact Heap.lt_size_of_live slot

/-- What a collection would have kept at the beginning is there. -/
theorem Engine.Building.isLive_of_kept (building : e.Building X Y e') (hs : e.Settled ∅ X)
    (hopen : e.isClosed = false) (kept : e.heap.Kept k) : e'.heap.isLive k = true := by
  have stays {k : Handle} {o : Object} (slot : e.heap.slot k = .live o)
      (owned : k ∈ Y + X + e'.references) : e'.heap.isLive k = true := by
    have fades := building.grown.old k (Heap.lt_size_of_live slot)
    rw [slot] at fades
    obtain ⟨o', slot', -⟩ := building.settled.live_of_fades owned fades
    exact Heap.isLive_iff.2 ⟨o', slot'⟩
  induction kept with
  | @seed h o slot owned =>
      have exact := hs.owned.exact h o (Heap.object?_of_live slot) (Finset.notMem_empty h)
      simp only [Engine.references, Multiset.count_add] at exact
      by_cases left : h ∈ e.abandoned
      · -- A closed context has left a reference on it behind.
        obtain ⟨r, hr, rfl⟩ := Engine.mem_abandoned.1 left
        have hopen' : e'.isClosed = false := (isClosed_of_frame building.frame).trans hopen
        have hr' : r ∈ e'.leftovers := leftovers_of_frame building.frame ▸ hr
        rw [building.settled.blameless.kept hopen' r hr' (Finset.notMem_empty _),
          ← hs.blameless.kept hopen r hr (Finset.notMem_empty _)]
        exact Heap.isLive_iff.2 ⟨o, slot⟩
      · apply stays slot
        rw [Engine.references, building.anchors_eq, ← Multiset.count_pos]
        have none := Multiset.count_eq_zero.2 left
        simp only [Multiset.count_add]
        omega
  | @child h k parent edge live ih =>
      obtain ⟨o, slot⟩ := Heap.isLive_iff.1 live
      apply stays slot
      rw [← building.ownedBy_eq (Heap.lt_size_of_isLive parent.isLive) ih] at edge
      exact Multiset.mem_add.2 (.inr (Multiset.mem_add.2 (.inl (Heap.mem_references.2 ⟨h, edge⟩))))

/-! ### New objects -/

/-- Nobody from before the building knows of a new object. -/
theorem Engine.Settled.unknown_of_new (hs : e.Settled ∅ X) (new : e.heap.slots.size ≤ k) :
    k ∉ X + e.references + e.abandoned := by
  intro known
  rcases Multiset.mem_add.1 known with named | left
  · obtain ⟨o, found⟩ := hs.owned.named k named
    exact absurd (Heap.lt_size_of_object? found) (Nat.not_lt.2 new)
  · exact absurd (hs.owned.issued k (.inr left)) (Nat.not_lt.2 new)

/-- When all that was built is given back, only a younger object can own a new one. -/
theorem Engine.Building.younger_of_live (building : e.Building X 0 e') (hs : e.Settled ∅ X)
    (new : e.heap.slots.size ≤ k) (live : e'.heap.isLive k = true) :
    ∃ j, k < j ∧ e'.heap.isLive j = true := by
  obtain ⟨o, slot⟩ := Heap.isLive_iff.1 live
  have unknown := hs.unknown_of_new new
  have none := Multiset.count_eq_zero.2 unknown
  have exact := building.settled.owned.exact k o (Heap.object?_of_live slot)
    (Finset.notMem_empty k)
  have positive := (building.settled.sound.live slot).2.2
  simp only [Engine.references, building.anchors_eq, building.abandoned_eq, Multiset.count_add,
    Multiset.count_zero] at exact none
  obtain ⟨j, edge⟩ := Heap.mem_references.1 (Multiset.count_pos.1
    (show 0 < e'.heap.references.count k by omega))
  have owner := Heap.isLive_of_mem_ownedBy edge
  refine ⟨j, ?_, owner⟩
  by_cases old : j < e.heap.slots.size
  · rw [building.ownedBy_eq old owner] at edge
    have held : k ∈ e.references := Multiset.mem_add.2 (.inl (Heap.mem_references.2 ⟨j, edge⟩))
    exact absurd (Multiset.mem_add.2 (.inl (Multiset.mem_add.2 (.inr held)))) unknown
  · have young := building.grown.young j (Nat.le_of_not_lt old)
    obtain ⟨p, parent⟩ := Heap.isLive_iff.1 owner
    rw [parent] at young
    rw [Heap.ownedBy_of_live parent] at edge
    exact (young.2 k edge).2

/-- So none is left: the youngest would have no owner. -/
theorem Engine.Building.not_live (building : e.Building X 0 e') (hs : e.Settled ∅ X) (k : Handle)
    (new : e.heap.slots.size ≤ k) : e'.heap.isLive k = false := by
  by_contra live
  rw [Bool.not_eq_false] at live
  have inside : k < e'.heap.slots.size := Heap.lt_size_of_isLive live
  obtain ⟨j, younger, live'⟩ := building.younger_of_live hs new live
  rw [Engine.Building.not_live building hs j (new.trans younger.le)] at live'
  cases live'
termination_by e'.heap.slots.size - k
decreasing_by exact Nat.sub_lt_sub_left inside younger

theorem Engine.Building.reclaimed (building : e.Building X 0 e') (hs : e.Settled ∅ X)
    (new : e.heap.slots.size ≤ k) : e'.heap.slot k = .reclaimed := by
  have gone := building.not_live hs k new
  have young := building.grown.young k new
  cases slot : e'.heap.slot k with
  | live o => simp [Heap.isLive, slot, Slot.isLive, Slot.live?] at gone
  | parked o =>
      obtain ⟨-, adopted, -⟩ := building.settled.sound.parked slot
      rw [slot] at young
      exact absurd adopted (Bool.eq_false_iff.1 young)
  | reclaimed => rfl

/-! ### The end of a building -/

theorem Engine.Building.isLive_iff (building : e.Building X 0 e') (hs : e.Settled ∅ X)
    (hopen : e.isClosed = false) (pruned : e.Pruned e') :
    e'.heap.isLive k = true ↔ e.heap.Kept k := by
  refine ⟨fun live => ?_, building.isLive_of_kept hs hopen⟩
  by_cases old : k < e.heap.slots.size
  · exact pruned k old live
  · rw [building.not_live hs k (Nat.le_of_not_lt old)] at live
    cases live

theorem Heap.ownedBy_of_not_live {H : Heap} (gone : H.isLive k = false) : H.ownedBy k = [] := by
  rw [Heap.ownedBy, Slot.owned]
  cases live : (H.slot k).live? with
  | none => rfl
  | some o => simp [Heap.isLive, Slot.isLive, live] at gone

section

variable (hs : e.Settled ∅ X) (hopen : e.isClosed = false) (first : e.Building X 0 e₁)
  (second : e.Building X 0 e₂) (pruned₁ : e.Pruned e₁) (pruned₂ : e.Pruned e₂)

include hs hopen first second pruned₁ pruned₂

theorem Engine.Building.isLive_eq (k : Handle) : e₂.heap.isLive k = e₁.heap.isLive k := by
  rw [Bool.eq_iff_iff, first.isLive_iff hs hopen pruned₁, second.isLive_iff hs hopen pruned₂]

theorem Engine.Building.references_eq : e₂.references = e₁.references := by
  have owned : ∀ k, e₂.heap.ownedBy k = e₁.heap.ownedBy k := by
    intro k
    have same := Engine.Building.isLive_eq hs hopen first second pruned₁ pruned₂ k
    by_cases live : e₁.heap.isLive k = true
    · have old := Heap.lt_size_of_isLive ((first.isLive_iff hs hopen pruned₁).1 live).isLive
      rw [second.ownedBy_eq old (same.trans live), first.ownedBy_eq old live]
    · rw [Bool.not_eq_true] at live
      rw [Heap.ownedBy_of_not_live (same.trans live), Heap.ownedBy_of_not_live live]
  have heap : e₂.heap.references = e₁.heap.references :=
    Heap.references_congr owned
  rw [Engine.references, heap, second.anchors_eq, ← first.anchors_eq, Engine.references]

/-- Where nothing that was built is left and no garbage is, the heap is determined. -/
theorem Engine.Building.slot_eq (k : Handle) : e₂.heap.slot k = e₁.heap.slot k := by
  by_cases old : k < e.heap.slots.size
  · have counted₁ : ∀ o, e₁.heap.object? k = some o →
        o.count = ((X + e₁.references + e₁.abandoned).count k : ℕ) := fun o found =>
      (zero_add X ▸ first.settled).owned.exact k o found (Finset.notMem_empty k)
    have counted₂ : ∀ o, e₂.heap.object? k = some o →
        o.count = ((X + e₁.references + e₁.abandoned).count k : ℕ) := by
      intro o found
      rw [first.abandoned_eq, ← second.abandoned_eq,
        ← Engine.Building.references_eq hs hopen first second pruned₁ pruned₂]
      exact (zero_add X ▸ second.settled).owned.exact k o found (Finset.notMem_empty k)
    rw [(first.grown.old k old).eq_faded (hs.sound.slot k) (first.settled.sound.slot k) counted₁,
      (second.grown.old k old).eq_faded (hs.sound.slot k) (second.settled.sound.slot k) counted₂]
    exact congrArg (fun stays => (e.heap.slot k).faded stays _)
      (Engine.Building.isLive_eq hs hopen first second pruned₁ pruned₂ k)
  · rw [first.reclaimed hs (Nat.le_of_not_lt old), second.reclaimed hs (Nat.le_of_not_lt old)]

end

end

end CountedHeap
