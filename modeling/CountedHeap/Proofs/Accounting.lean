import CountedHeap.Proofs.Tidy

/-!
The books of the heap. What is charged is at any time the sum of what the slots
are charged with: a live object for its header and its payload, a parked header
for itself. The three numbers that the heap keeps are thus sums over its slots,
and each change moves one slot and the numbers by the same amount. While an object
is being taken off the list its payload is gone and still charged for; the books
say how much is owed. So no more is ever taken off than is charged.
-/

namespace CountedHeap

/-- The bytes that a slot is charged with. -/
def Slot.charge : Slot → Nat
  | .live o => o.size
  | .parked _ => headerSize
  | .reclaimed => 0

/-- The sum of a number over all slots. -/
def Heap.total (H : Heap) (g : Slot → Nat) : Nat :=
  (H.slots.toList.map g).sum

/-- The numbers that the heap keeps are right, but for `owing` bytes that are
still charged, and none was ever taken below zero. -/
structure Heap.Booked (owing : Nat) (H : Heap) : Prop where
  bytes : H.bytes = H.total Slot.charge + owing
  liveCount : H.liveCount = H.total fun s => s.isLive.toNat
  parkedCount : H.parkedCount = H.total fun s => s.isParked.toNat
  overdrawn : H.overdrawn = false

section

variable {H H' : Heap} {h k : Handle} {o : Object} {m n : Nat} {g : Slot → Nat}
  {f : Object → Object} {S : Finset Handle}

/-! ### Sums over a changed heap -/

theorem Heap.total_mapSlot {f : Slot → Slot} (hf : f .reclaimed = .reclaimed) :
    (H.mapSlot h f).total g + g (H.slot h) = H.total g + g (f (H.slot h)) :=
  Heap.sum_mapSlot hf

theorem Heap.total_allocate (o : Object) : (H.allocate o).2.total g = H.total g + g (.live o) := by
  simp [Heap.total, Heap.allocate]

theorem Heap.total_clear (none : g .reclaimed = 0) : H.clear.total g = 0 := by
  simp [Heap.total, Heap.clear, none]

/-! ### One slot changes -/

/-- The books are right after a change of one slot if the numbers have moved with
what the slot counts for. -/
theorem Heap.Booked.mapSlot (booked : H.Booked n) {f : Slot → Slot} (hf : f .reclaimed = .reclaimed)
    (slots : H'.slots = H.slots.modify h f)
    (bytes : H'.bytes + (H.slot h).charge + n = H.bytes + (f (H.slot h)).charge + m)
    (liveCount : H'.liveCount + (H.slot h).isLive.toNat =
      H.liveCount + (f (H.slot h)).isLive.toNat)
    (parkedCount : H'.parkedCount + (H.slot h).isParked.toNat =
      H.parkedCount + (f (H.slot h)).isParked.toNat)
    (overdrawn : H'.overdrawn = H.overdrawn) : H'.Booked m := by
  have total (g : Slot → Nat) : H'.total g + g (H.slot h) = H.total g + g (f (H.slot h)) := by
    rw [← H.total_mapSlot hf, Heap.total, slots]
    rfl
  refine ⟨?_, ?_, ?_, overdrawn.trans booked.overdrawn⟩
  · have moved := total Slot.charge
    have before := booked.bytes
    omega
  · have moved := total fun s => s.isLive.toNat
    have before := booked.liveCount
    omega
  · have moved := total fun s => s.isParked.toNat
    have before := booked.parkedCount
    omega

/-- No slot counts for more than is charged. -/
theorem Heap.Booked.charge_le (booked : H.Booked n) (h : Handle) :
    (H.slot h).charge + n ≤ H.bytes := by
  have part := H.total_mapSlot (h := h) (g := Slot.charge) (f := fun _ => .reclaimed) rfl
  have bytes := booked.bytes
  have none : Slot.charge .reclaimed = 0 := rfl
  omega

theorem Slot.charge_map (hf : ∀ o, (f o).payload = o.payload) (s : Slot) :
    (s.map f).charge = s.charge := by
  cases s with
  | live o => rw [Slot.map, Slot.charge, Slot.charge, Object.size, Object.size, hf]
  | parked o => rfl
  | reclaimed => rfl

@[simp] theorem Slot.isLive_map (s : Slot) : (s.map f).isLive = s.isLive := by
  cases s <;> rfl

@[simp] theorem Slot.isParked_map (s : Slot) : (s.map f).isParked = s.isParked := by
  cases s <;> rfl

/-- A change of a header that leaves the payload where it is. -/
theorem Heap.Booked.update (booked : H.Booked n) (hf : ∀ o, (f o).payload = o.payload) :
    (H.update h f).Booked n :=
  booked.mapSlot (f := Slot.map f) rfl rfl (by rw [Slot.charge_map hf]; rfl) (by simp; rfl)
    (by simp; rfl) rfl

theorem Heap.Booked.countDown (booked : H.Booked n) (hs : List Handle) :
    (H.countDown hs).Booked n := by
  induction hs generalizing H with
  | nil => exact booked
  | cons h rest ih => exact ih (booked.update fun _ => rfl)

/-! ### Longer and shorter payloads -/

theorem Slot.charge_updatePayload {f : Payload → Payload} {s : Slot} (tidy : s.Tidy)
    (found : s.object? = some o) (bare : (f o.payload).bare = o.payload.bare) :
    (s.map fun o => { o with payload := f o.payload }).charge + o.payload.size =
      s.charge + (f o.payload).size := by
  cases s with
  | live o' =>
      obtain rfl := Option.some.inj found
      simp only [Slot.map, Slot.charge, Object.size]
      omega
  | parked o' =>
      -- A parked header has no payload, and does not get one.
      obtain rfl := Option.some.inj found
      obtain ⟨-, -, empty⟩ := tidy
      rw [empty] at bare ⊢
      rw [Payload.bare_eq_released.1 bare]
      rfl
  | reclaimed => cases found

theorem Heap.Booked.lengthen {f : Payload → Payload} (booked : H.Booked 0) (tidy : H.Tidy)
    (found : H.object? h = some o) (bare : (f o.payload).bare = o.payload.bare)
    (size : (f o.payload).size = o.payload.size + n) :
    ((H.update h fun o => { o with payload := f o.payload }).grow n).Booked 0 := by
  have moved := Slot.charge_updatePayload (tidy h) found bare
  refine booked.mapSlot (f := Slot.map fun o => { o with payload := f o.payload }) rfl rfl ?_
    (by simp; rfl) (by simp; rfl) rfl
  show H.bytes + n + (H.slot h).charge + 0 = _
  omega

theorem Heap.Booked.shorten {f : Payload → Payload} (booked : H.Booked 0) (tidy : H.Tidy)
    (found : H.object? h = some o) (bare : (f o.payload).bare = o.payload.bare)
    (size : (f o.payload).size + n = o.payload.size) :
    ((H.update h fun o => { o with payload := f o.payload }).shrink n).Booked 0 := by
  have moved := Slot.charge_updatePayload (tidy h) found bare
  have enough := booked.charge_le h
  refine booked.mapSlot (f := Slot.map fun o => { o with payload := f o.payload }) rfl rfl ?_
    (by simp; rfl) (by simp; rfl) ?_
  · show H.bytes - n + (H.slot h).charge + 0 = _
    omega
  · show (H.overdrawn || decide (H.bytes < n)) = H.overdrawn
    rw [decide_eq_false (by omega), Bool.or_false]

/-! ### The end of an object -/

/-- A payload that is taken is still charged for. -/
theorem Heap.Booked.release (booked : H.Booked m) (slot : H.slot h = .live o)
    (empty : (f o).payload = .released) : (H.update h f).Booked (m + o.payload.size) := by
  refine booked.mapSlot (f := Slot.map f) rfl rfl ?_ (by simp; rfl) (by simp; rfl) rfl
  rw [slot]
  show H.bytes + (headerSize + o.payload.size) + m =
    H.bytes + (headerSize + _) + (m + o.payload.size)
  rw [empty]
  show _ = H.bytes + (headerSize + 0) + (m + o.payload.size)
  omega

/-- What is still charged for is taken off when the header leaves the list. -/
theorem Heap.Booked.retire (booked : H.Booked (m + n)) (slot : H.slot h = .live o)
    (empty : o.payload = .released) (park : Bool) :
    (H.retire h (headerSize + n) park).Booked m := by
  have charge : (H.slot h).charge = headerSize := by
    rw [slot, Slot.charge, Object.size, empty]
    rfl
  have enough := booked.charge_le h
  have listed := booked.liveCount
  have some : 0 < H.liveCount := by
    have part := H.total_mapSlot (h := h) (g := fun s => s.isLive.toNat)
      (f := fun _ => .reclaimed) rfl
    rw [slot] at part
    have one : (Slot.live o).isLive.toNat = 1 := rfl
    have none : Slot.reclaimed.isLive.toNat = 0 := rfl
    omega
  rw [Heap.retire, if_pos (Heap.isLive_iff.2 ⟨o, slot⟩)]
  cases park with
  | true =>
      refine booked.mapSlot (f := Slot.park) rfl rfl ?_ ?_ ?_ ?_
      · rw [charge, slot]
        show H.bytes - (headerSize + n - headerSize) + headerSize + (m + n) =
          H.bytes + headerSize + m
        omega
      · rw [slot]
        show H.liveCount - 1 + 1 = H.liveCount + 0
        omega
      · rw [slot]
        rfl
      · show (H.overdrawn || decide (headerSize + n < headerSize) ||
          decide (H.bytes < headerSize + n - headerSize)) = H.overdrawn
        rw [decide_eq_false (by omega), decide_eq_false (by omega), Bool.or_false, Bool.or_false]
  | false =>
      refine booked.mapSlot (f := Slot.reclaim) rfl rfl ?_ ?_ ?_ ?_
      · rw [charge, slot]
        show H.bytes - (headerSize + n) + headerSize + (m + n) = H.bytes + 0 + m
        omega
      · rw [slot]
        show H.liveCount - 1 + 1 = H.liveCount + 0
        omega
      · rw [slot]
        rfl
      · show (H.overdrawn || decide (H.bytes < headerSize + n)) = H.overdrawn
        rw [decide_eq_false (by omega), Bool.or_false]

/-! ### What the books are kept of -/

/-- The slots determine the numbers. -/
theorem Heap.Booked.eq_of_slots (booked : H.Booked n) (booked' : H'.Booked n)
    (size : H'.slots.size = H.slots.size) (slots : ∀ k, H'.slot k = H.slot k) : H' = H := by
  have total (g : Slot → Nat) (none : g .reclaimed = 0) : H'.total g = H.total g :=
    Heap.sum_eq_of_slots none fun k => congrArg g (slots k)
  refine Heap.ext_slot size slots ?_ ?_ ?_ ?_
  · rw [booked'.liveCount, booked.liveCount, total _ rfl]
  · rw [booked'.parkedCount, booked.parkedCount, total _ rfl]
  · rw [booked'.bytes, booked.bytes, total _ rfl]
  · rw [booked'.overdrawn, booked.overdrawn]

/-! ### Every change keeps the books -/

theorem Heap.Booked.disposed (booked : H.Booked 0) (slot : H.slot h = .live o)
    (dropped : List Handle) :
    (((H.update h Object.release).countDown dropped).retire h o.size o.adopted).Booked 0 := by
  refine ((booked.release slot rfl).countDown dropped).retire (o := { o.release with
    count := o.count - dropped.count h }) ?_ rfl o.adopted
  rw [Heap.slot_countDown, Heap.slot_update, if_pos rfl, slot]
  rfl

theorem Heap.Booked.stain (booked : H.Booked 0) : (H.stain S).Booked 0 := by
  have same (g : Slot → Nat) (none : g .reclaimed = 0) (hg : ∀ s : Slot, ∀ marked : Bool,
      g (s.mapLive fun o => { o with marked := marked }) = g s) :
      (H.stain S).total g = H.total g := by
    refine Heap.sum_eq_of_slots none fun k => ?_
    rw [Heap.slot_stain]
    exact hg _ _
  refine ⟨?_, ?_, ?_, booked.overdrawn⟩
  · rw [same Slot.charge rfl fun s marked => by cases s <;> rfl]
    exact booked.bytes
  · rw [same _ rfl fun s marked => by cases s <;> rfl]
    exact booked.liveCount
  · rw [same _ rfl fun s marked => by cases s <;> rfl]
    exact booked.parkedCount

theorem Engine.booked_discard {e : Engine} (booked : e.heap.Booked 0)
    (slot : e.heap.slot h = .live o) : (e.discard (h, o)).heap.Booked 0 := by
  simp only [Engine.discard, Engine.heap_retire, Engine.heap_updateObject, Engine.heap_finalize]
  refine Heap.Booked.retire (booked.release (f := fun o =>
    { o.release with count := 0, marked := false }) slot rfl) (o :=
    { o.release with count := 0, marked := false }) ?_ rfl _
  rw [Heap.slot_update, if_pos rfl, slot]
  rfl

theorem Engine.booked_foldl_discard {e : Engine} {garbage : List (Handle × Object)}
    (booked : e.heap.Booked 0) (nodup : (garbage.map (·.1)).Nodup)
    (slots : ∀ entry ∈ garbage, e.heap.slot entry.1 = .live entry.2) :
    (garbage.foldl Engine.discard e).heap.Booked 0 := by
  induction garbage generalizing e with
  | nil => exact booked
  | cons entry rest ih =>
      obtain ⟨h, o⟩ := entry
      have later := Engine.live_of_discard nodup slots
      rw [List.map_cons, List.nodup_cons] at nodup
      exact ih (Engine.booked_discard booked (slots _ List.mem_cons_self)) nodup.2 later

theorem Heap.Booked.allocate (booked : H.Booked 0) (o : Object) : (H.allocate o).2.Booked 0 where
  bytes := by
    rw [Heap.total_allocate]
    show H.bytes + o.size = H.total Slot.charge + o.size + 0
    rw [booked.bytes]
    omega
  liveCount := by
    rw [Heap.total_allocate]
    exact congrArg (· + 1) booked.liveCount
  parkedCount := by
    rw [Heap.total_allocate]
    exact booked.parkedCount
  overdrawn := booked.overdrawn

theorem Heap.Booked.clear (booked : H.Booked 0) : H.clear.Booked 0 where
  bytes := (Heap.total_clear rfl).symm
  liveCount := (Heap.total_clear rfl).symm
  parkedCount := (Heap.total_clear rfl).symm
  overdrawn := booked.overdrawn

theorem Engine.Change.booked {C : Set Handle} {K : Prop} {e e' : Engine}
    (change : Engine.Change C K e e') (tidy : e.heap.Tidy) (booked : e.heap.Booked 0) :
    e'.heap.Booked 0 := by
  cases change with
  | aside heap => exact heap ▸ booked
  | recount h g => exact booked.update fun _ => rfl
  | claim mem g => exact booked.update fun _ => rfl
  | lengthen found bare size => exact booked.lengthen tidy found bare size
  | shorten found bare size => exact booked.shorten tidy found bare size
  | dispose h =>
      by_cases live : e.heap.isLive h = true
      · obtain ⟨o, slot⟩ := Heap.isLive_iff.1 live
        obtain ⟨dropped, diagnostics, breaches, result⟩ := Engine.dispose_eq_of_live tidy slot
        rw [result]
        exact booked.disposed slot dropped
      · obtain ⟨breaches, result⟩ :=
          Engine.dispose_eq_of_not_live tidy (Bool.eq_false_iff.2 live)
        rw [result]
        exact booked
  | sweep =>
      obtain ⟨S, result⟩ := Engine.sweep_eq tidy
      rw [result]
      exact Engine.booked_foldl_discard booked.stain Heap.nodup_garbage Engine.live_garbage_stain
  | place hopen fits => exact booked.allocate _
  | close =>
      rw [Engine.heap_close]
      exact booked.clear

end

/-! ### Runs -/

section

variable {H : Heap}

theorem Heap.map_snd_listed (H : Heap) :
    H.listed.map (·.2) = H.slots.toList.filterMap Slot.live? := by
  have values : (H.slots.toList.zipIdx.map (·.1)).filterMap Slot.live? =
      H.slots.toList.filterMap Slot.live? := by
    rw [List.zipIdx_map_fst]
  rw [← values, Heap.listed, List.map_filterMap, List.filterMap_map]
  apply List.filterMap_congr
  rintro ⟨s, h⟩ -
  show ((s.live?.map fun o => (h, o)).map (·.2)) = s.live?
  cases s.live? <;> rfl

theorem sum_map_charge (slots : List Slot) : (slots.map Slot.charge).sum =
    ((slots.filterMap Slot.live?).map Object.size).sum +
      headerSize * (slots.map fun s => s.isParked.toNat).sum := by
  induction slots with
  | nil => rfl
  | cons s rest ih =>
      rw [List.map_cons, List.sum_cons, List.map_cons, List.sum_cons, ih, Nat.mul_add]
      cases s with
      | live o =>
          have listed : (Slot.live o :: rest).filterMap Slot.live? =
              o :: rest.filterMap Slot.live? := rfl
          have parked : (Slot.live o).isParked.toNat = 0 := rfl
          rw [listed, List.map_cons, List.sum_cons, Slot.charge, parked]
          omega
      | parked o =>
          have parked : (Slot.parked o).isParked.toNat = 1 := rfl
          rw [List.filterMap_cons_none rfl, Slot.charge, parked]
          omega
      | reclaimed =>
          have parked : Slot.reclaimed.isParked.toNat = 0 := rfl
          rw [List.filterMap_cons_none rfl, Slot.charge, parked]
          omega

theorem sum_map_isLive (slots : List Slot) :
    (slots.map fun s => s.isLive.toNat).sum = (slots.filterMap Slot.live?).length := by
  induction slots with
  | nil => rfl
  | cons s rest ih =>
      rw [List.map_cons, List.sum_cons, ih]
      cases s with
      | live o => exact Nat.add_comm 1 _
      | parked o => exact Nat.zero_add _
      | reclaimed => exact Nat.zero_add _

/-- The heap charges for each live object its header and its payload and for each
parked header itself, counts both right, and never took off more than it had
charged. -/
structure Heap.Accounted (H : Heap) : Prop where
  bytes : H.bytes = (H.listed.map fun (_, o) => headerSize + o.payload.size).sum +
    headerSize * H.parkedCount
  liveCount : H.liveCount = H.listed.length
  parkedCount : H.parkedCount = H.slots.countP Slot.isParked
  unsaturated : H.overdrawn = false

theorem Heap.Booked.accounted (booked : H.Booked 0) : H.Accounted where
  bytes := by
    have sizes : H.listed.map (fun (_, o) => headerSize + o.payload.size) =
        (H.listed.map (·.2)).map Object.size := by
      rw [List.map_map]
      rfl
    rw [booked.bytes, booked.parkedCount, sizes, Heap.map_snd_listed]
    exact sum_map_charge H.slots.toList
  liveCount := by
    rw [booked.liveCount, ← List.length_map (f := (·.2)), Heap.map_snd_listed]
    exact sum_map_isLive H.slots.toList
  parkedCount := by
    rw [booked.parkedCount, ← Array.countP_toList, Heap.total]
    generalize H.slots.toList = slots
    induction slots with
    | nil => rfl
    | cons s rest ih =>
        rw [List.map_cons, List.sum_cons, List.countP_cons, ih, Nat.add_comm]
        cases s <;> rfl
  unsaturated := booked.overdrawn

theorem Engine.Moves.booked {C : Set Handle} {K : Prop} {e e' : Engine}
    (moves : Engine.Moves C K e e') (tidy : e.heap.Tidy) (booked : e.heap.Booked 0) :
    e'.heap.Booked 0 :=
  (moves.changes.keep (P := fun e => e.heap.Tidy ∧ e.heap.Booked 0)
    (fun change holds => ⟨change.tidy holds.1, change.booked holds.1 holds.2⟩)
    ⟨tidy, booked⟩).2

/-- The books stay right through every request, and so through every run. -/
theorem Engine.booked_perform {e : Engine} (tidy : e.heap.Tidy) (booked : e.heap.Booked 0)
    (a : Action) : (e.perform a).2.heap.Tidy ∧ (e.perform a).2.heap.Booked 0 :=
  Engine.perform_keep (P := fun e => e.heap.Tidy ∧ e.heap.Booked 0)
    (fun change holds => ⟨change.tidy holds.1, change.booked holds.1 holds.2⟩)
    (fun _ _ holds => holds) e a ⟨tidy, booked⟩

theorem Engine.booked_run {e : Engine} (tidy : e.heap.Tidy) (booked : e.heap.Booked 0)
    (requests : List Action) :
    (e.run requests).2.heap.Tidy ∧ (e.run requests).2.heap.Booked 0 :=
  Engine.run_keep (P := fun e => e.heap.Tidy ∧ e.heap.Booked 0)
    (fun _ a holds => Engine.booked_perform holds.1 holds.2 a) ⟨tidy, booked⟩ requests

theorem Engine.booked_new (limits : Limits) : (Engine.new limits).heap.Booked 0 :=
  ⟨rfl, rfl, rfl, rfl⟩

/-- The accounts of the heap are right after every run of requests, whoever makes
them. -/
theorem Engine.accounted_run (limits : Limits) (requests : List Action) :
    ((Engine.new limits).run requests).2.heap.Accounted := by
  have tidy : (Engine.new limits).heap.Tidy := fun _ => trivial
  exact (Engine.booked_run tidy (Engine.booked_new limits) requests).2.accounted

end

end CountedHeap
