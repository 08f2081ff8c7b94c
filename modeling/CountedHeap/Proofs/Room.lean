import CountedHeap.Proofs.Credit
import Mathlib.Algebra.Order.Group.Nat

/-!
Room for one object. An allocation may collect once because there are many objects, once
more for want of room, or not at all, and what the new object is to own is held by nobody
but the allocation in the meantime. All that does not show: there is one collection or
none, and a single new object is refused if and only if there would be no room for it after
one. A refusal leaves the engine as that collection would leave it, but for the elements of
a refused array, which are given back.
-/

namespace CountedHeap

section

variable {e e₁ e₂ : Engine} {X : Multiset Handle} {v : Value} {o : Object} {n : Nat}

/-! ### What fades weighs less -/

theorem Slot.Fades.charge_le {s s' : Slot} (fades : s.Fades s') (clean : s'.Sound False False) :
    s'.charge ≤ s.charge := by
  cases fades with
  | live _ _ _ payload =>
      obtain ⟨-, ⟨-, positive | queued⟩ | ⟨-, ends, -⟩⟩ := clean
      · rw [Slot.charge, Slot.charge, Object.size, Object.size, payload positive]
      · exact queued.elim
      · exact ends.elim
  | parks => exact Nat.le_add_right _ _
  | reclaims => exact Nat.zero_le _
  | parked => exact le_refl _
  | reclaimed => exact le_refl _

theorem Heap.Fades.bytes_le {H H' : Heap} (fades : H.Fades H') (clean : H'.Sound 0 0)
    (booked : H.Booked 0) (booked' : H'.Booked 0) : H'.bytes ≤ H.bytes := by
  rw [booked.bytes, booked'.bytes]
  exact Heap.sum_le_of_slots rfl fun k => (fades.slots k).charge_le (clean.slot k)

/-! ### Room -/

theorem Engine.exceeded?_congr (limits : e₁.limits = e₂.limits)
    (bytes : e₁.heap.bytes = e₂.heap.bytes) : e₁.exceeded? n = e₂.exceeded? n := by
  rw [Engine.exceeded?, Engine.exceeded?, limits, bytes]

theorem Engine.exceeded?_eq_none_of_le (limits : e₁.limits = e₂.limits)
    (le : e₁.heap.bytes ≤ e₂.heap.bytes) (room : e₂.exceeded? n = none) :
    e₁.exceeded? n = none := by
  rw [Engine.exceeded?, Option.filter_eq_none_iff] at room ⊢
  intro limit same
  have fits := room limit (limits ▸ same)
  simp only [decide_eq_true_eq, Nat.not_lt] at fits ⊢
  omega

theorem Engine.exceeded?_credit : (e.credit v).exceeded? n = e.exceeded? n :=
  Engine.exceeded?_congr rfl Heap.bytes_credit

/-- The engine in which a new object of `n` bytes finds its place: the engine as it is, or
after a collection if there are too many objects or too few bytes. -/
def Engine.roomFor (e : Engine) (n : Nat) : Engine :=
  if e.threshold ≤ e.heap.liveCount ∨ (e.exceeded? n).isSome = true then e.collect.2 else e

theorem Engine.Settled.size_roomFor (hs : e.Settled ∅ X) :
    (e.roomFor n).heap.slots.size = e.heap.slots.size := by
  rw [Engine.roomFor]
  split
  · exact hs.fades_collect.size
  · rfl

/-- The threshold that an allocation leaves: one that collects for the number of objects
lets the heap grow by half. -/
def Engine.nextThreshold (e : Engine) : Nat :=
  if e.threshold ≤ e.heap.liveCount then
    max e.limits.threshold (e.collect.2.heap.liveCount + e.collect.2.heap.liveCount / 2)
  else e.threshold

theorem Engine.heapWork_threshold : Engine.HeapWork fun e e' => e'.threshold = e.threshold where
  refl _ := rfl
  trans first later := later.trans first
  heap _ _ := rfl
  finalized _ _ := rfl
  surplus _ _ _ := rfl
  stray _ := rfl
  doing _ _ := rfl

theorem Engine.collectAtThreshold_of_lt (few : e.heap.liveCount < e.threshold) :
    e.collectAtThreshold = e := by
  rw [Engine.collectAtThreshold, if_neg fun both => Nat.not_le.2 few both.2]

theorem Engine.Settled.collectAtThreshold_of_le (hs : e.Settled ∅ X)
    (many : e.threshold ≤ e.heap.liveCount) :
    e.collectAtThreshold = { e.collect.2 with threshold := e.nextThreshold } := by
  have idle : e.work.collecting = false := by rw [hs.blameless.idle]
  have limits : e.collect.2.limits = e.limits := congrArg Frame.limits (Engine.frame_collect e)
  rw [Engine.collectAtThreshold, if_pos ⟨idle, many⟩, Engine.nextThreshold, if_pos many, ← limits]

/-- There may be two collections, but the second has nothing to do. -/
theorem Engine.Settled.collect_collectAtThreshold (hs : e.Settled ∅ X)
    (many : e.threshold ≤ e.heap.liveCount) :
    e.collectAtThreshold.collect.2 = e.collectAtThreshold := by
  have heap : e.collectAtThreshold.heap = e.collect.2.heap := by
    rw [hs.collectAtThreshold_of_le many]
  have kept : ∀ k, e.collectAtThreshold.heap.isLive k = true →
      e.collectAtThreshold.heap.Kept k := by
    rw [heap]
    exact fun k live => hs.kept_collect (hs.isLive_collect.1 live)
  rw [hs.collectAtThreshold.collect_of_kept kept]

theorem Engine.Settled.makeRoom_eq (hs : e.Settled ∅ X) (n : Nat) :
    e.makeRoom n = { e.roomFor n with threshold := e.nextThreshold } := by
  rw [Engine.makeRoom, Engine.roomFor]
  by_cases many : e.threshold ≤ e.heap.liveCount
  · rw [hs.collect_collectAtThreshold many, ite_self, hs.collectAtThreshold_of_le many,
      if_pos (.inl many)]
  · have same : e.collect.2.threshold = e.threshold := Engine.heapWork_threshold.slotWork.collect e
    rw [Engine.collectAtThreshold_of_lt (Nat.not_le.1 many), Engine.nextThreshold, if_neg many]
    by_cases short : (e.exceeded? n).isSome = true
    · rw [if_pos short, if_pos (.inr short), ← same]
    · rw [if_neg short, if_neg fun either => either.elim many short]

/-- Only a collection leaves too little room for an object. -/
theorem Engine.Settled.makeRoom_of_short (hs : e.Settled ∅ X)
    (short : ((e.makeRoom n).exceeded? n).isSome = true) :
    e.makeRoom n = { e.collect.2 with threshold := e.nextThreshold } := by
  have room := hs.makeRoom_eq n
  have collected : e.threshold ≤ e.heap.liveCount ∨ (e.exceeded? n).isSome = true := by
    by_contra neither
    rw [Engine.roomFor, if_neg neither] at room
    rw [room] at short
    exact neither (.inr short)
  rw [room, Engine.roomFor, if_pos collected]

/-- However often there was a collection before, there is room if and only if there is
room after one collection. -/
theorem Engine.Ready.exceeded?_makeRoom (ready : e.Ready X) :
    (e.makeRoom n).exceeded? n = e.collect.2.exceeded? n := by
  rw [ready.settled.makeRoom_eq, Engine.roomFor]
  split
  · rfl
  · -- A collection after all would leave no less.
    rename_i neither
    have room : e.exceeded? n = none :=
      Option.not_isSome_iff_eq_none.1 fun short => neither (.inr short)
    have limits : e.collect.2.limits = e.limits := congrArg Frame.limits (Engine.frame_collect e)
    have le : e.collect.2.heap.bytes ≤ e.heap.bytes :=
      ready.settled.fades_collect.bytes_le ready.collect.settled.sound ready.booked
        ready.collect.booked
    exact room.trans (Engine.exceeded?_eq_none_of_le limits le room).symm

section

variable (ready : e.Ready X) (secure : e.Secure v) (range : (e.retain v).InRange)

include ready secure range

/-- A reference on what is no garbage can as well be taken after room is made. -/
theorem Engine.Ready.makeRoom_retain (n : Nat) :
    (e.retain v).makeRoom n = (e.makeRoom n).credit v := by
  have held := ready.retain secure.named range
  have retained := Engine.retain_eq_credit secure.named range
  have collected := ready.collect_retain secure range
  have limits : (e.retain v).limits = e.limits := congrArg Frame.limits (Engine.frame_retain range)
  have threshold : (e.retain v).threshold = e.threshold := by
    rw [retained]
    rfl
  have live : (e.retain v).heap.liveCount = e.heap.liveCount := by
    rw [retained]
    exact Heap.liveCount_credit
  have live' : (e.collect.2.credit v).heap.liveCount = e.collect.2.heap.liveCount :=
    Heap.liveCount_credit
  have short : (e.retain v).exceeded? n = e.exceeded? n := by
    rw [retained, Engine.exceeded?_credit]
  have room : (e.retain v).roomFor n = (e.roomFor n).credit v := by
    simp only [Engine.roomFor, threshold, live, short, collected]
    split
    · rfl
    · exact retained
  have next : (e.retain v).nextThreshold = e.nextThreshold := by
    simp only [Engine.nextThreshold, threshold, live, collected, live', limits]
  rw [held.settled.makeRoom_eq, ready.settled.makeRoom_eq, room, next]
  rfl

end

/-! ### One new object -/

/-- How a request for one new object ends: it is refused, and then everything is as after
a collection that is followed by giving back `items`; or it is made. That depends on
whether there is room for it after a collection. -/
inductive Engine.Metered (e : Engine) (o : Object) (items : List Value) :
    Except Refusal Value × Engine → Prop
  | refused {limit : Nat} {e' : Engine} (short : e.collect.2.exceeded? o.size = some limit)
      (heap : e'.heap = (e.collect.2.releaseAll items).heap) (frame : e'.frame = e.frame) :
      Metered e o items (.error (.outOfMemory limit o.size), e')
  | made {h : Handle} {e' : Engine} {o' : Object} (room : e.collect.2.exceeded? o.size = none)
      (fits : e'.exceeded? 0 = none) (slot : e'.heap.slot h = .live o')
      (classId : o'.classId = o.classId) (payload : o'.payload = o.payload)
      (frame : e'.frame = e.frame) :
      Metered e o items (.ok (.reference h), e')

variable {classId : ClassId} {payload : Payload} {items : List Value}
  {r : Except Refusal Value × Engine}

theorem Engine.aside_threshold (t : Nat) :
    Engine.Aside fun e => { e with threshold := t } where
  heap _ := rfl
  finalizers _ := rfl
  updateObject _ _ _ := rfl
  retire _ _ _ _ := rfl
  finalized _ _ := rfl
  record _ _ := rfl
  stray _ := rfl

theorem Engine.Ready.metered_allocate (ready : e.Ready X) :
    e.Metered (Object.new classId payload) payload.values (e.allocate classId payload) := by
  have same := ready.exceeded?_makeRoom (n := headerSize + payload.size)
  rw [Engine.allocate_eq ready.hopen]
  split
  · rename_i limit short
    have collected : e.collect.2.Rested := Engine.Balanced.rested ready.settled.collect
    rw [Engine.abandon_eq,
      ready.settled.makeRoom_of_short (Option.isSome_iff_exists.2 ⟨limit, short⟩),
      (Engine.aside_threshold e.nextThreshold).releaseAll collected collected]
    exact .refused (same.symm.trans short) rfl
      ((Engine.frame_releaseAll _ _).trans (Engine.frame_collect e))
  · rename_i fits
    exact .made (same.symm.trans fits) fits ((Engine.slot_place _).trans (if_pos rfl)) rfl rfl
      (Engine.frame_makeRoom _)

/-- A reference that the new object is to own may be taken before there is room for it. -/
theorem Engine.Metered.of_retain (metered : (e.retain v).Metered o (v :: items) r)
    (ready : e.Ready X) (secure : e.Secure v) (range : (e.retain v).InRange) :
    e.Metered o items r := by
  have same : (e.retain v).collect.2.exceeded? o.size = e.collect.2.exceeded? o.size := by
    rw [ready.collect_retain secure range, Engine.exceeded?_credit]
  have released : (e.retain v).collect.2.releaseAll (v :: items) =
      e.collect.2.releaseAll items := by
    rw [← ready.release_collect_retain secure range]
    rfl
  cases metered with
  | refused short left frame =>
      exact .refused (same.symm.trans short) (left.trans (congrArg Engine.heap released))
        (frame.trans (Engine.frame_retain range))
  | made room fits slot classId payload frame =>
      exact .made (same.symm.trans room) fits slot classId payload
        (frame.trans (Engine.frame_retain range))

end

end CountedHeap
