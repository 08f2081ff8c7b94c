import CountedHeap.Proofs.Requests
import CountedHeap.Proofs.Exactness

/-!
What every change of an engine keeps, whatever the host does: no header is marked
between two operations, a live object has its payload, and a parked one has lost
it. On such a heap each of the two operations that end objects has a plain
description. Disposing of an object takes its payload, moves counts, and takes
the header off the list. A sweep takes exactly the live objects that a scan did
not reach.
-/

namespace CountedHeap

section

variable {e : Engine} {H : Heap} {S : Finset Handle} {h k : Handle} {o : Object}

/-! ### Dropping references -/

/-- Dropping references lowers counts and makes notes, and does nothing else. -/
theorem Engine.dropReference_eq (e : Engine) (h : Handle) :
    ∃ dropped diagnostics breaches, (e.dropReference h).2 =
      { e with heap := e.heap.countDown dropped, diagnostics := diagnostics,
               breaches := breaches } := by
  rw [Engine.dropReference]
  split
  · split
    · exact ⟨[h], _, _, rfl⟩
    · exact ⟨[], _, _, rfl⟩
  · exact ⟨[], _, _, rfl⟩

theorem Heap.countDown_countDown (first later : List Handle) :
    (H.countDown first).countDown later = H.countDown (first ++ later) := by
  rw [Heap.countDown, Heap.countDown, Heap.countDown, List.foldl_append]

theorem Engine.dropAll_eq (e : Engine) (found hs : List Handle) :
    ∃ dropped diagnostics breaches, (e.dropAll found hs).2 =
      { e with heap := e.heap.countDown dropped, diagnostics := diagnostics,
               breaches := breaches } := by
  induction hs generalizing e found with
  | nil => exact ⟨[], _, _, rfl⟩
  | cons h rest ih =>
      obtain ⟨first, _, _, step⟩ := e.dropReference_eq h
      rw [Engine.dropAll]
      split <;> rename_i e' drop <;> rw [drop] at step <;> subst step
      · obtain ⟨later, diagnostics, breaches, result⟩ := ih _ (h :: found)
        exact ⟨first ++ later, diagnostics, breaches, by rw [result, Heap.countDown_countDown]⟩
      · obtain ⟨later, diagnostics, breaches, result⟩ := ih _ found
        exact ⟨first ++ later, diagnostics, breaches, by rw [result, Heap.countDown_countDown]⟩

/-! ### Disposing -/

/-- Only a live object has anything to dispose of. -/
theorem Engine.dispose_eq_of_not_live (tidy : e.heap.Tidy) (gone : e.heap.isLive h = false) :
    ∃ breaches, (e.dispose h).2 = { e with breaches := breaches } := by
  rw [Engine.dispose]
  split
  · rename_i o found
    rcases Heap.object?_eq_some.1 found with slot | slot
    · rw [Heap.isLive_iff.2 ⟨o, slot⟩] at gone
      cases gone
    · rw [if_pos (tidy.parked slot).2.1]
      exact ⟨_, rfl⟩
  · exact ⟨_, rfl⟩

theorem Engine.dispose_eq_of_live (tidy : e.heap.Tidy) (slot : e.heap.slot h = .live o) :
    ∃ dropped diagnostics breaches, (e.dispose h).2 =
      { e with
        heap := ((e.heap.update h Object.release).countDown dropped).retire h o.size o.adopted
        finalized := (e.finalize h o).finalized
        diagnostics := diagnostics
        breaches := breaches } := by
  obtain ⟨finalized, noted⟩ := (e.updateObject h Object.release).finalize_eq h o
  have same : finalized = (e.finalize h o).finalized := by
    have kept : ((e.updateObject h Object.release).finalize h o).finalized =
        (e.finalize h o).finalized := by
      rw [Engine.finalize, Engine.finalize]
      split
      · split <;> rfl
      · rfl
    rw [← kept, noted]
  obtain ⟨dropped, diagnostics, breaches, result⟩ :=
    ((e.updateObject h Object.release).finalize h o).dropAll_eq [] o.payload.owned
  refine ⟨dropped, diagnostics, breaches, ?_⟩
  rw [Engine.dispose, Heap.object?_of_live slot]
  simp only [(tidy.live slot).2, Bool.false_eq_true, if_false]
  rw [← same]
  show (((e.updateObject h Object.release).finalize h o).dropAll [] o.payload.owned).2.retire h
    o.size o.adopted = _
  rw [result, noted]
  rfl

/-- The header of a disposed object is parked or gone, and elsewhere only counts
have moved. -/
theorem Heap.slot_disposed (slot : H.slot h = .live o) (dropped : List Handle) (size : Nat)
    (park : Bool) (k : Handle) :
    (((H.update h Object.release).countDown dropped).retire h size park).slot k =
      if k = h then
        if park then .parked { o.release with count := o.count - dropped.count h } else .reclaimed
      else (H.slot k).map fun o => { o with count := o.count - dropped.count k } := by
  rw [Heap.slot_retire, Heap.slot_countDown, Heap.slot_update]
  by_cases same : k = h
  · subst k
    rw [if_pos rfl, if_pos rfl, if_pos rfl, slot]
    cases park <;> rfl
  · rw [if_neg same, if_neg same, if_neg same]

theorem Heap.size_disposed (dropped : List Handle) (size : Nat) (park : Bool) :
    (((H.update h Object.release).countDown dropped).retire h size park).slots.size =
      H.slots.size := by
  rw [Heap.size_retire, Heap.size_countDown, Heap.size_update]

/-! ### Sweeping -/

/-- After a scan some live objects have lost their mark, and no other bit has
changed. -/
theorem Heap.Tidy.scan (tidy : H.Tidy) : ∃ S, H.enlist.scan.dismiss = H.stain S := by
  obtain ⟨S, pushed, -, scan, -⟩ := tidy.scan_eq
  exact ⟨S, by rw [scan, Heap.dismiss_paint tidy]⟩

theorem Engine.sweep_eq (tidy : e.heap.Tidy) : ∃ S, e.sweep = e.swept S := by
  obtain ⟨S, scanned⟩ := tidy.scan
  exact ⟨S, by rw [Engine.sweep, scanned, Engine.swept]⟩

/-! ### Every change keeps a heap tidy -/

theorem Slot.Tidy.map {s : Slot} {f : Object → Object} (hf : Object.Recounts f) (tidy : s.Tidy) :
    (s.map f).Tidy := by
  cases s with
  | live o =>
      obtain ⟨⟨marked, reached⟩, fresh⟩ := tidy
      exact ⟨⟨(hf.marked o).trans marked, (hf.reached o).trans reached⟩, (hf.freed o).trans fresh⟩
  | parked o =>
      obtain ⟨⟨marked, reached⟩, freed, empty⟩ := tidy
      exact ⟨⟨(hf.marked o).trans marked, (hf.reached o).trans reached⟩, (hf.freed o).trans freed,
        (hf.payload o).trans empty⟩
  | reclaimed => trivial

theorem Slot.Tidy.discard {s : Slot} (tidy : s.Tidy) : s.discard.Tidy := by
  cases s with
  | live o =>
      obtain ⟨⟨-, reached⟩, -⟩ := tidy
      rw [Slot.discard]
      split
      · exact ⟨⟨rfl, reached⟩, rfl, rfl⟩
      · trivial
  | parked o => exact tidy
  | reclaimed => trivial

theorem Heap.Tidy.update {f : Object → Object} (tidy : H.Tidy) (hf : Object.Recounts f) :
    (H.update h f).Tidy := by
  intro k
  rw [Heap.slot_update]
  split
  · exact (tidy k).map hf
  · exact tidy k

/-- A payload that is released has nothing to change. -/
theorem Heap.Tidy.updatePayload {f : Payload → Payload} (tidy : H.Tidy)
    (found : H.object? h = some o) (bare : (f o.payload).bare = o.payload.bare) :
    (H.update h fun o => { o with payload := f o.payload }).Tidy := by
  intro k
  rw [Heap.slot_update]
  split
  · subst k
    rcases Heap.object?_eq_some.1 found with slot | slot
    · have live := tidy.live slot
      rw [slot]
      exact live
    · obtain ⟨unmarked, freed, empty⟩ := tidy.parked slot
      rw [slot]
      refine ⟨unmarked, freed, ?_⟩
      rw [empty] at bare
      show f o.payload = .released
      rw [empty]
      exact Payload.bare_eq_released.1 bare
  · exact tidy k

theorem Heap.Tidy.disposed (tidy : H.Tidy) (slot : H.slot h = .live o) (dropped : List Handle)
    (size : Nat) (park : Bool) :
    (((H.update h Object.release).countDown dropped).retire h size park).Tidy := by
  obtain ⟨unmarked, -⟩ := tidy.live slot
  intro k
  rw [Heap.slot_disposed slot]
  split
  · split
    · exact ⟨unmarked, rfl, rfl⟩
    · trivial
  · exact (tidy k).map (Object.recounts_count _)

theorem Engine.heap_close {diagnostics : Array Diagnostic} {isClosed : Bool} :
    ({ e.clear with diagnostics := diagnostics, isClosed := isClosed } : Engine).heap =
      e.heap.clear := by
  obtain ⟨finalized, cleared⟩ := e.clear_eq
  rw [cleared]

theorem Engine.Change.tidy {C : Set Handle} {K : Prop} {e e' : Engine}
    (change : Engine.Change C K e e') (tidy : e.heap.Tidy) : e'.heap.Tidy := by
  cases change with
  | aside heap => exact heap ▸ tidy
  | recount h g => exact tidy.update (Object.recounts_count g)
  | claim mem g =>
      exact tidy.update ⟨fun _ => rfl, fun _ => rfl, fun _ => rfl, fun _ => rfl, fun _ _ => rfl⟩
  | lengthen found bare size => exact tidy.updatePayload found bare
  | shorten found bare size => exact tidy.updatePayload found bare
  | dispose h =>
      by_cases live : e.heap.isLive h = true
      · obtain ⟨o, slot⟩ := Heap.isLive_iff.1 live
        obtain ⟨dropped, diagnostics, breaches, result⟩ := Engine.dispose_eq_of_live tidy slot
        rw [result]
        exact tidy.disposed slot dropped o.size o.adopted
      · obtain ⟨breaches, result⟩ :=
          Engine.dispose_eq_of_not_live tidy (Bool.eq_false_iff.2 live)
        rw [result]
        exact tidy
  | sweep =>
      obtain ⟨S, result⟩ := Engine.sweep_eq tidy
      intro k
      rw [result, Engine.slot_swept tidy]
      split
      · exact tidy k
      · exact (tidy k).discard
  | place hopen fits =>
      intro k
      rw [Engine.slot_place]
      split
      · exact ⟨⟨rfl, rfl⟩, rfl⟩
      · exact tidy k
  | close =>
      intro k
      rw [Engine.heap_close, Heap.slot_clear]
      trivial

end

end CountedHeap
