import CountedHeap.Proofs.Cascade
import CountedHeap.Proofs.Marking

/-!
A collection keeps the count discipline. In the middle of it the garbage is gone
and the references from it to other objects are still to be given back; these
then belong to the outside. Garbage is not known to anybody else: the references
on it all came from live payloads, none of them from an object that stays. An
object that the host gave back too often may be garbage and be known to somebody,
but its header is parked.
-/

namespace CountedHeap

/-- What becomes of the slot of a garbage object. -/
def Slot.discard : Slot → Slot
  | .live o =>
    if o.adopted || decide (o.count ≤ 0) then
      .parked { o.release with count := 0, marked := false }
    else
      .reclaimed
  | s => s

/-- The references that live objects outside `S` own. -/
def Heap.lost (H : Heap) (S : Finset Handle) : Multiset Handle :=
  ((H.stain S).garbage.flatMap fun (_, o) => o.payload.owned : List Handle)

/-- An engine in the middle of a collection that keeps `S`: the garbage is gone,
and the references from it are still counted. -/
def Engine.swept (e : Engine) (S : Finset Handle) : Engine :=
  (e.heap.stain S).garbage.foldl Engine.discard { e with heap := e.heap.stain S }

/-! ### The list of live objects -/

section

variable {H : Heap} {S : Finset Handle} {h k : Handle} {o : Object}

theorem Heap.listed_eq : H.listed =
    (List.range H.slots.size).filterMap fun h => (H.slot h).live?.map fun o => (h, o) := by
  have slots : H.slots.toList.zipIdx = (List.range H.slots.size).map fun h => (H.slot h, h) := by
    apply List.ext_getElem (by simp)
    intro h inside _
    rw [List.length_zipIdx, Array.length_toList] at inside
    simp [Heap.slot, inside]
  rw [Heap.listed, slots, List.filterMap_map]
  rfl

theorem Heap.map_fst_listed :
    H.listed.map (·.1) = (List.range H.slots.size).filter H.isLive := by
  rw [Heap.listed_eq, List.map_filterMap, ← List.filterMap_eq_filter]
  apply List.filterMap_congr
  intro h _
  rw [Option.guard, Heap.isLive]
  cases H.slot h <;> rfl

theorem Heap.nodup_listed : (H.listed.map (·.1)).Nodup := by
  rw [Heap.map_fst_listed]
  exact List.nodup_range.filter _

theorem Heap.slot_stain (k : Handle) : (H.stain S).slot k =
    (H.slot k).mapLive fun o => { o with marked := !decide (k ∈ S) } :=
  H.slot_mapLiveIdx _ k

theorem Heap.ownedBy_stain (k : Handle) : (H.stain S).ownedBy k = H.ownedBy k := by
  rw [Heap.ownedBy, Heap.slot_stain, Heap.ownedBy]
  cases H.slot k <;> rfl

theorem Heap.references_stain : (H.stain S).references = H.references :=
  Heap.references_congr Heap.ownedBy_stain

theorem Heap.mem_garbage_stain : (h, o) ∈ (H.stain S).garbage ↔
    (H.stain S).slot h = .live o ∧ h ∉ S := by
  rw [Heap.garbage, List.mem_filter, Heap.mem_listed, Heap.slot_stain]
  cases H.slot h with
  | live o' =>
      simp only [Slot.mapLive, Slot.live.injEq, and_congr_right_iff]
      rintro rfl
      simp
  | parked o' => simp [Slot.mapLive]
  | reclaimed => simp [Slot.mapLive]

theorem Heap.mem_map_garbage_stain : h ∈ (H.stain S).garbage.map (·.1) ↔
    H.isLive h = true ∧ h ∉ S := by
  simp only [List.mem_map, Prod.exists, exists_and_right, exists_eq_right, Heap.mem_garbage_stain,
    and_congr_left_iff]
  rw [Heap.slot_stain, Heap.isLive]
  cases H.slot h <;> simp [Slot.mapLive, Slot.isLive, Slot.live?]

theorem Heap.nodup_garbage : (H.garbage.map (·.1)).Nodup :=
  H.nodup_listed.sublist (List.filter_sublist.map _)

theorem Heap.isMarked_stain (clean : H.Sound 0 0) : (H.stain S).isMarked k = true ↔
    H.isLive k = true ∧ k ∉ S := by
  rw [Heap.isMarked, Heap.object?, Heap.slot_stain, Heap.isLive]
  cases slot : H.slot k with
  | live o => simp [Slot.mapLive, Slot.object?, Slot.isLive, Slot.live?]
  | parked o =>
      obtain ⟨⟨marked, -⟩, -⟩ := clean.parked slot
      simp [Slot.mapLive, Slot.object?, Slot.isLive, Slot.live?, marked]
  | reclaimed => simp [Slot.mapLive, Slot.object?, Slot.isLive, Slot.live?]

theorem Heap.outgoing_eq : H.outgoing =
    (H.garbage.flatMap fun (_, o) => o.payload.owned).filter fun h => !H.isMarked h := by
  rw [Heap.outgoing, List.filter_flatMap]

/-- References from garbage to garbage go with it, and all others are given back. -/
theorem Heap.count_outgoing_stain (clean : H.Sound 0 0) (k : Handle) :
    ((H.stain S).outgoing : Multiset Handle).count k =
      if H.isLive k = true ∧ k ∉ S then 0 else (H.lost S).count k := by
  rw [Heap.outgoing_eq, Heap.lost, Multiset.coe_count, Multiset.coe_count]
  split
  · rename_i garbage
    refine List.count_eq_zero.2 fun hk => ?_
    have unmarked := (List.mem_filter.1 hk).2
    rw [(Heap.isMarked_stain clean).2 garbage] at unmarked
    exact Bool.noConfusion unmarked
  · rename_i other
    apply List.count_filter
    rw [Bool.not_eq_true', Bool.eq_false_iff]
    exact fun marked => other ((Heap.isMarked_stain clean).1 marked)

end

/-! ### The sweep -/

section

variable {e : Engine} {S : Finset Handle} {h k : Handle} {o : Object}
  {garbage : List (Handle × Object)}

theorem Engine.slot_discard (slot : e.heap.slot h = .live o) (k : Handle) :
    (e.discard (h, o)).heap.slot k =
      if k = h then (e.heap.slot k).discard else e.heap.slot k := by
  simp only [Engine.discard, Engine.heap_retire, Engine.heap_updateObject, Engine.heap_finalize,
    Heap.slot_retire, Heap.slot_update]
  by_cases same : k = h
  · subst k
    rw [if_pos rfl, if_pos rfl, if_pos rfl, slot]
    rfl
  · rw [if_neg same, if_neg same, if_neg same]

theorem Engine.references_discard (slot : e.heap.slot h = .live o) :
    (e.discard (h, o)).heap.references + ↑o.payload.owned = e.heap.references := by
  have emptied := e.heap.references_update_live
    (fun o => { o.release with count := 0, marked := false }) slot
  simp only [Object.release, Payload.owned_released, Multiset.coe_nil, add_zero] at emptied
  rw [← emptied]
  simp only [Engine.discard, Engine.heap_retire, Engine.heap_updateObject, Engine.heap_finalize]
  congr 1
  apply Heap.references_retire _ h _ _
  rw [Heap.slot_update, if_pos rfl, slot]
  rfl

theorem Engine.size_discard (entry : Handle × Object) :
    (e.discard entry).heap.slots.size = e.heap.slots.size := by
  simp [Engine.discard]

/-- The entries of a list of garbage stay what they are while others go. -/
theorem Engine.live_of_discard (nodup : (((h, o) :: garbage).map (·.1)).Nodup)
    (slots : ∀ entry ∈ (h, o) :: garbage, e.heap.slot entry.1 = .live entry.2) :
    ∀ entry ∈ garbage, (e.discard (h, o)).heap.slot entry.1 = .live entry.2 := by
  intro entry mem
  rw [List.map_cons, List.nodup_cons] at nodup
  have differ : entry.1 ≠ h := by
    rintro rfl
    exact nodup.1 (List.mem_map_of_mem (f := (·.1)) mem)
  rw [Engine.slot_discard (slots _ List.mem_cons_self), if_neg differ]
  exact slots entry (List.mem_cons_of_mem _ mem)

theorem Engine.slot_foldl_discard (nodup : (garbage.map (·.1)).Nodup)
    (slots : ∀ entry ∈ garbage, e.heap.slot entry.1 = .live entry.2) (k : Handle) :
    (garbage.foldl Engine.discard e).heap.slot k =
      if k ∈ garbage.map (·.1) then (e.heap.slot k).discard else e.heap.slot k := by
  induction garbage generalizing e with
  | nil => rfl
  | cons entry rest ih =>
      obtain ⟨h, o⟩ := entry
      have later := Engine.live_of_discard nodup slots
      have slot := slots _ List.mem_cons_self
      rw [List.map_cons, List.nodup_cons] at nodup
      rw [List.foldl_cons, ih nodup.2 later, Engine.slot_discard slot]
      simp only [List.map_cons, List.mem_cons]
      by_cases same : k = h
      · subst k
        rw [if_pos rfl, if_neg nodup.1, if_pos (.inl rfl)]
      · simp only [same, false_or, if_false]

theorem Engine.references_foldl_discard (nodup : (garbage.map (·.1)).Nodup)
    (slots : ∀ entry ∈ garbage, e.heap.slot entry.1 = .live entry.2) :
    (garbage.foldl Engine.discard e).heap.references +
      ↑(garbage.flatMap fun (_, o) => o.payload.owned) = e.heap.references := by
  induction garbage generalizing e with
  | nil => simp
  | cons entry rest ih =>
      obtain ⟨h, o⟩ := entry
      have later := Engine.live_of_discard nodup slots
      have step := Engine.references_discard (slots _ List.mem_cons_self)
      rw [List.map_cons, List.nodup_cons] at nodup
      rw [List.foldl_cons, List.flatMap_cons, ← Multiset.coe_add, ← step, ← ih nodup.2 later]
      abel

theorem Engine.size_foldl_discard :
    (garbage.foldl Engine.discard e).heap.slots.size = e.heap.slots.size := by
  induction garbage generalizing e with
  | nil => rfl
  | cons entry rest ih => rw [List.foldl_cons, ih, Engine.size_discard]

theorem Engine.diagnostics_discard (entry : Handle × Object) :
    (e.discard entry).diagnostics = e.diagnostics := by
  obtain ⟨finalized, noted⟩ := e.finalize_eq entry.1 entry.2
  rw [Engine.discard, noted]
  rfl

theorem Engine.breaches_discard (entry : Handle × Object) :
    (e.discard entry).breaches = e.breaches := by
  obtain ⟨finalized, noted⟩ := e.finalize_eq entry.1 entry.2
  rw [Engine.discard, noted]
  rfl

theorem Engine.diagnostics_foldl_discard :
    (garbage.foldl Engine.discard e).diagnostics = e.diagnostics := by
  induction garbage generalizing e with
  | nil => rfl
  | cons entry rest ih => rw [List.foldl_cons, ih, Engine.diagnostics_discard]

theorem Engine.breaches_foldl_discard :
    (garbage.foldl Engine.discard e).breaches = e.breaches := by
  induction garbage generalizing e with
  | nil => rfl
  | cons entry rest ih => rw [List.foldl_cons, ih, Engine.breaches_discard]

end

section

variable {e : Engine} {M S : Finset Handle} {X : Multiset Handle} {h k : Handle} {o : Object}

theorem Engine.live_garbage_stain (entry : Handle × Object)
    (mem : entry ∈ (e.heap.stain S).garbage) :
    (e.heap.stain S).slot entry.1 = .live entry.2 :=
  (Heap.mem_garbage_stain.1 mem).1

theorem Engine.slot_swept (tidy : e.heap.Tidy) (k : Handle) :
    (e.swept S).heap.slot k = if k ∈ S then e.heap.slot k else (e.heap.slot k).discard := by
  rw [Engine.swept, Engine.slot_foldl_discard Heap.nodup_garbage Engine.live_garbage_stain]
  simp only [Heap.mem_map_garbage_stain, Heap.slot_stain, Heap.isLive]
  cases slot : e.heap.slot k with
  | live o =>
      obtain ⟨⟨marked, -⟩, -⟩ := tidy.live slot
      by_cases hS : k ∈ S
      · simp [hS, Slot.mapLive, ← marked]
      · simp [hS, Slot.isLive, Slot.live?, Slot.mapLive, Slot.discard, Object.release]
  | parked o => simp [Slot.mapLive, Slot.discard, Slot.isLive, Slot.live?]
  | reclaimed => simp [Slot.mapLive, Slot.discard, Slot.isLive, Slot.live?]

theorem Engine.references_swept :
    (e.swept S).heap.references + e.heap.lost S = e.heap.references := by
  have total := Engine.references_foldl_discard (e := { e with heap := e.heap.stain S })
    Heap.nodup_garbage Engine.live_garbage_stain
  rw [Heap.references_stain] at total
  exact total

theorem Engine.size_swept : (e.swept S).heap.slots.size = e.heap.slots.size := by
  rw [Engine.swept, Engine.size_foldl_discard]
  simp [Heap.stain, Heap.mapLiveIdx]

theorem Engine.frame_swept : (e.swept S).frame = e.frame := by
  rw [Engine.swept, Engine.frame_foldl_discard]
  rfl

theorem Engine.anchors_of_frame {e' : Engine} (hf : e'.frame = e.frame) :
    e'.anchors = e.anchors :=
  Engine.anchors_congr (contexts_of_frame hf) (isClosed_of_frame hf)

theorem Engine.abandoned_of_frame {e' : Engine} (hf : e'.frame = e.frame) :
    e'.abandoned = e.abandoned := by
  rw [Engine.abandoned, leftovers_of_frame hf, Engine.abandoned]

@[simp] theorem Slot.owned_discard (s : Slot) : s.discard.owned = [] := by
  cases s with
  | live o =>
      rw [Slot.discard]
      split <;> rfl
  | parked o => rfl
  | reclaimed => rfl

theorem Engine.slot_swept_of_not_garbage (clean : e.heap.Sound 0 0)
    (other : ¬ (e.heap.isLive k = true ∧ k ∉ S)) : (e.swept S).heap.slot k = e.heap.slot k := by
  rw [Engine.slot_swept clean.tidy]
  split
  · rfl
  · rename_i hS
    cases slot : e.heap.slot k with
    | live o => exact absurd ⟨Heap.isLive_iff.2 ⟨o, slot⟩, hS⟩ other
    | parked o => rfl
    | reclaimed => rfl

/-- The header of garbage is parked if the host has held the object. -/
theorem Engine.slot_swept_of_garbage (clean : e.heap.Sound 0 0) (slot : e.heap.slot k = .live o)
    (hS : k ∉ S) : (e.swept S).heap.slot k =
      if o.adopted then .parked { o.release with count := 0, marked := false } else .reclaimed := by
  obtain ⟨-, -, positive⟩ := clean.live slot
  rw [Engine.slot_swept clean.tidy, if_neg hS, slot, Slot.discard]
  simp [Int.not_le.2 positive]

/-! ### What is known of garbage -/

/-- All references on garbage that was not misused come from live payloads. -/
theorem Engine.Settled.unknown_of_garbage (hs : e.Settled M X)
    (hS : ∀ k, k ∈ S ↔ e.heap.Kept k) (live : e.heap.isLive k = true) (garbage : k ∉ S)
    (hM : k ∉ M) : X.count k = 0 ∧ e.anchors.count k = 0 ∧ e.abandoned.count k = 0 := by
  obtain ⟨o, slot⟩ := Heap.isLive_iff.1 live
  have exact := hs.owned.exact k o (Heap.object?_of_live slot) hM
  have seed : ¬ (e.heap.references.count k : Int) < o.count :=
    fun owned => garbage ((hS k).2 (.seed slot owned))
  simp only [Engine.references, Multiset.count_add] at exact
  omega

/-- No object that stays refers to garbage. -/
theorem Engine.count_references_swept (clean : e.heap.Sound 0 0)
    (hS : ∀ k, k ∈ S ↔ e.heap.Kept k) (live : e.heap.isLive k = true) (garbage : k ∉ S) :
    (e.swept S).heap.references.count k = 0 := by
  rw [Multiset.count_eq_zero, Heap.mem_references]
  rintro ⟨h, edge⟩
  rw [Heap.ownedBy, Engine.slot_swept clean.tidy] at edge
  by_cases stays : h ∈ S
  · rw [if_pos stays] at edge
    exact garbage ((hS k).2 (.child ((hS h).1 stays) edge live))
  · rw [if_neg stays, Slot.owned_discard] at edge
    exact List.not_mem_nil edge

theorem Heap.Sound.swept (clean : e.heap.Sound 0 0) : (e.swept S).heap.Sound 0 0 where
  slots k := by
    by_cases garbage : e.heap.isLive k = true ∧ k ∉ S
    · obtain ⟨o, slot⟩ := Heap.isLive_iff.1 garbage.1
      obtain ⟨⟨-, reached⟩, -⟩ := clean.live slot
      rw [Engine.slot_swept_of_garbage clean slot garbage.2]
      split
      · exact ⟨⟨rfl, reached⟩, ‹_›, rfl, rfl⟩
      · trivial
    · rw [Engine.slot_swept_of_not_garbage clean garbage]
      exact clean.slots k
  waiting k hk := absurd hk (Multiset.notMem_zero k)
  nodup := Multiset.nodup_zero

/-! ### The books after the sweep -/

/-- Nobody is left to own garbage that was not misused. -/
theorem Engine.Settled.notMem_of_garbage (hs : e.Settled M X) (hS : ∀ k, k ∈ S ↔ e.heap.Kept k)
    (garbage : e.heap.isLive k = true ∧ k ∉ S) (hM : k ∉ M) :
    k ∉ ↑(e.heap.stain S).outgoing + X + (e.swept S).references + (e.swept S).abandoned := by
  have clean : e.heap.Sound 0 0 := hs.sound
  obtain ⟨noX, noAnchor, notLeft⟩ := hs.unknown_of_garbage hS garbage.1 garbage.2 hM
  have noReference := Engine.count_references_swept clean hS garbage.1 garbage.2
  rw [← Multiset.count_eq_zero, Engine.references, Engine.anchors_of_frame Engine.frame_swept,
    Engine.abandoned_of_frame Engine.frame_swept]
  simp only [Multiset.count_add, Heap.count_outgoing_stain clean, if_pos garbage, noX, noAnchor,
    notLeft, noReference]

/-- Whatever else is owned is owned as often as before. -/
theorem Engine.count_of_not_garbage (clean : e.heap.Sound 0 0)
    (other : ¬ (e.heap.isLive k = true ∧ k ∉ S)) :
    (↑(e.heap.stain S).outgoing + X + (e.swept S).references).count k =
      (X + e.references).count k := by
  have moved := congrArg (Multiset.count k) (Engine.references_swept (e := e) (S := S))
  rw [Multiset.count_add] at moved
  rw [Engine.references, Engine.references, Engine.anchors_of_frame Engine.frame_swept]
  simp only [Multiset.count_add, Heap.count_outgoing_stain clean, if_neg other]
  omega

theorem Engine.Settled.owned_swept (hs : e.Settled M X) (hS : ∀ k, k ∈ S ↔ e.heap.Kept k) :
    (e.swept S).Owned M (↑(e.heap.stain S).outgoing + X) where
  exact k o' found hM := by
    by_cases garbage : e.heap.isLive k = true ∧ k ∉ S
    · obtain ⟨o, slot⟩ := Heap.isLive_iff.1 garbage.1
      rw [Multiset.count_eq_zero.2 (hs.notMem_of_garbage hS garbage hM)]
      rw [Heap.object?, Engine.slot_swept_of_garbage hs.sound slot garbage.2] at found
      split at found
      · exact Option.some.inj found ▸ rfl
      · cases found
    · rw [Heap.object?, Engine.slot_swept_of_not_garbage hs.sound garbage] at found
      rw [hs.owned.exact k o' found hM, Engine.abandoned_of_frame Engine.frame_swept,
        Multiset.count_add, ← Engine.count_of_not_garbage hs.sound garbage, ← Multiset.count_add]
  named k hk := by
    by_cases garbage : e.heap.isLive k = true ∧ k ∉ S
    · -- Only a misused object can be owned still, and its header is parked.
      have hM : k ∈ M := by
        by_contra hM
        exact hs.notMem_of_garbage hS garbage hM (Multiset.mem_add.2 (.inl hk))
      obtain ⟨o, slot⟩ := Heap.isLive_iff.1 garbage.1
      rw [Heap.object?, Engine.slot_swept_of_garbage hs.sound slot garbage.2,
        hs.owned.adopted k hM o (Heap.object?_of_live slot)]
      exact ⟨_, rfl⟩
    · rw [Heap.object?, Engine.slot_swept_of_not_garbage hs.sound garbage]
      apply hs.owned.named k
      rw [← Multiset.count_pos, ← Engine.count_of_not_garbage hs.sound garbage,
        Multiset.count_pos]
      exact hk
  adopted k hM o' found := by
    by_cases garbage : e.heap.isLive k = true ∧ k ∉ S
    · obtain ⟨o, slot⟩ := Heap.isLive_iff.1 garbage.1
      have adopted := hs.owned.adopted k hM o (Heap.object?_of_live slot)
      rw [Heap.object?, Engine.slot_swept_of_garbage hs.sound slot garbage.2, if_pos adopted]
        at found
      exact Option.some.inj found ▸ adopted
    · rw [Heap.object?, Engine.slot_swept_of_not_garbage hs.sound garbage] at found
      exact hs.owned.adopted k hM o' found
  issued := by
    rw [Engine.abandoned_of_frame Engine.frame_swept, Engine.size_swept]
    exact hs.owned.issued

theorem Engine.Settled.blameless_swept (hs : e.Settled M X) (hS : ∀ k, k ∈ S ↔ e.heap.Kept k) :
    (e.swept S).Blameless M where
  excused := by
    rw [Engine.swept, Engine.diagnostics_foldl_discard]
    exact hs.blameless.excused
  unstrayed := by
    rw [Engine.swept, Engine.breaches_foldl_discard]
    exact hs.blameless.unstrayed
  kept := by
    rw [leftovers_of_frame Engine.frame_swept, isClosed_of_frame Engine.frame_swept]
    intro hopen r hr hM
    -- The reference that was left behind counts, so the object is no garbage.
    have other : ¬ (e.heap.isLive r.target = true ∧ r.target ∉ S) := by
      rintro ⟨live, garbage⟩
      obtain ⟨-, -, notLeft⟩ := hs.unknown_of_garbage hS live garbage hM
      exact Multiset.count_eq_zero.1 notLeft (Engine.target_mem_abandoned hr)
    rw [Heap.isLive, Engine.slot_swept_of_not_garbage hs.sound other]
    exact hs.blameless.kept hopen r hr hM
  spared := by
    rw [leftovers_of_frame Engine.frame_swept]
    exact hs.blameless.spared
  addressed := by
    rw [contexts_of_frame Engine.frame_swept, isClosed_of_frame Engine.frame_swept]
    exact hs.blameless.addressed
  idle := (Engine.work_foldl_discard _ _).trans hs.blameless.idle

/-- After the sweep the references from garbage belong to the outside. -/
theorem Engine.Settled.swept (hs : e.Settled M X) (hS : ∀ k, k ∈ S ↔ e.heap.Kept k) :
    (e.swept S).Settled M (↑(e.heap.stain S).outgoing + X) :=
  ⟨Heap.Sound.swept hs.sound, hs.owned_swept hS, hs.blameless_swept hS⟩

theorem Engine.Settled.hasDangling (hs : e.Settled M X) : e.heap.hasDangling = false := by
  rw [Heap.hasDangling, Array.any_eq_false]
  intro i inside
  rw [Bool.not_eq_true, List.any_eq_false]
  intro k hk
  have named : k ∈ X + e.references := by
    refine Multiset.mem_add.2 (.inr (Multiset.mem_add.2 (.inl (Heap.mem_references.2 ⟨i, ?_⟩))))
    simpa [Heap.ownedBy, Heap.slot, inside] using hk
  obtain ⟨o, found⟩ := hs.owned.named k named
  simp [found]

/-- A collection keeps what is owned from outside the heap and whatever can be
reached from there, takes the rest away at once, and then gives back the
references from it. -/
theorem Engine.Settled.collect_eq (hs : e.Settled M X) :
    ∃ S : Finset Handle, (∀ k, k ∈ S ↔ e.heap.Kept k) ∧
      e.collect = ((e.heap.stain S).garbage.length,
        (e.heap.stain S).outgoing.foldl Engine.releaseReference (e.swept S)) := by
  obtain ⟨S, hS, scanned⟩ := Heap.scan_eq hs.sound
  refine ⟨S, hS, ?_⟩
  rw [Engine.collect_of_idle hs.blameless.idle, hs.hasDangling]
  simp only [Bool.false_eq_true, if_false, scanned, Engine.swept]

theorem Engine.Settled.collect (hs : e.Settled M X) : e.collect.2.Settled M X := by
  obtain ⟨S, hS, result⟩ := hs.collect_eq
  rw [result]
  exact (hs.swept hS).foldl_releaseReference

end

end CountedHeap
