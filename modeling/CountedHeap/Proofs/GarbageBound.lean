import CountedHeap.Proofs.Passes
import CountedHeap.Proofs.CollectionCount

/-!
Collecting in time bounds the garbage. An allocation that finds as many live objects as
the threshold allows collects first, and the threshold is then set to half as much again
as has stayed, but no lower than the host wants it. So if few objects stay in each
collection, there are few live objects at any time, however many are made and dropped.

This depends on no promise of the host: after a collection only what is linked to a root
is live, and nothing else that a request does adds live objects but to make them.
-/

namespace CountedHeap

/-- No more than one object above the bound `B`, and a threshold that it covers. -/
structure Engine.Bounded (B : Nat) (e : Engine) : Prop where
  tidy : e.heap.Tidy
  booked : e.heap.Booked 0
  steady : e.Steady
  few : e.heap.liveCount ≤ B + 1
  threshold : e.threshold ≤ B
  floor : e.limits.threshold ≤ B

section

variable {C : Set Handle} {Q : Prop} {H : Heap} {e e' : Engine} {h : Handle} {B K : Nat}
  {passes : List Heap} {classId : ClassId} {payload : Payload}

/-! ### Live objects are made -/

theorem Heap.liveCount_retire_le {size : Nat} {park : Bool} :
    (H.retire h size park).liveCount ≤ H.liveCount := by
  rw [Heap.retire]
  split
  · split <;> exact Nat.sub_le _ _
  · exact Nat.le_refl _

theorem Heap.liveCount_countDown (hs : List Handle) :
    (H.countDown hs).liveCount = H.liveCount := by
  induction hs generalizing H with
  | nil => rfl
  | cons h rest ih => exact ih

theorem Engine.liveCount_foldl_discard_le (garbage : List (Handle × Object)) :
    (garbage.foldl Engine.discard e).heap.liveCount ≤ e.heap.liveCount := by
  induction garbage generalizing e with
  | nil => exact Nat.le_refl _
  | cons entry rest ih =>
      have first : (e.discard entry).heap.liveCount ≤ e.heap.liveCount := by
        simp only [Engine.discard, Engine.heap_retire, Engine.heap_updateObject,
          Engine.heap_finalize]
        exact Heap.liveCount_retire_le
      exact ih.trans first

/-- There are no more new live objects than were made. -/
theorem Engine.Change.liveCount_le (change : Engine.Change C Q e e') (tidy : e.heap.Tidy) :
    e'.heap.liveCount + e.made.size ≤ e.heap.liveCount + e'.made.size := by
  cases change with
  | aside heap made => rw [heap, made]
  | recount h g => exact Nat.le_refl _
  | claim mem g => exact Nat.le_refl _
  | lengthen found bare size => exact Nat.le_refl _
  | shorten found bare size => exact Nat.le_refl _
  | dispose h =>
      by_cases live : e.heap.isLive h = true
      · obtain ⟨o, slot⟩ := Heap.isLive_iff.1 live
        obtain ⟨dropped, diagnostics, breaches, result⟩ := Engine.dispose_eq_of_live tidy slot
        rw [result]
        refine Nat.add_le_add_right (Heap.liveCount_retire_le.trans ?_) _
        rw [Heap.liveCount_countDown]
        exact Nat.le_refl _
      · obtain ⟨breaches, result⟩ :=
          Engine.dispose_eq_of_not_live tidy (Bool.eq_false_iff.2 live)
        rw [result]
  | sweep =>
      have made : e.sweep.made = e.made :=
        congrArg (·.1)
          (Engine.heapWork_pace.slotWork.foldl Engine.heapWork_pace.slotWork.discard _ _)
      obtain ⟨S, result⟩ := Engine.sweep_eq tidy
      rw [made, result]
      exact Nat.add_le_add_right (Engine.liveCount_foldl_discard_le _) _
  | place hopen fits =>
      show e.heap.liveCount + 1 + e.made.size ≤ e.heap.liveCount + (e.made.push _).size
      rw [Array.size_push]
      omega
  | close closing =>
      obtain ⟨finalized, cleared⟩ := e.clear_eq
      rw [cleared]
      exact Nat.add_le_add_right (Nat.zero_le _) _

theorem Engine.Changes.liveCount_le (changes : Engine.Changes C Q e e') (tidy : e.heap.Tidy)
    (made : e'.made = e.made) : e'.heap.liveCount ≤ e.heap.liveCount := by
  have kept := changes.keep (P := fun e' => e'.heap.Tidy ∧
      e'.heap.liveCount + e.made.size ≤ e.heap.liveCount + e'.made.size)
    (fun change holds => by
      have step := change.liveCount_le holds.1
      exact ⟨change.tidy holds.1, by omega⟩) ⟨tidy, Nat.le_refl _⟩
  rw [made] at kept
  omega

/-! ### After a collection -/

/-- Once the garbage is gone, no more objects are live than stay. -/
theorem Engine.liveCount_swept_le {S : Finset Handle} (tidy : e.heap.Tidy)
    (booked : e.heap.Booked 0) (linked : ∀ k, k ∈ S ↔ e.heap.Linked k) :
    (e.swept S).heap.liveCount ≤ e.heap.staying.length := by
  have kept (h : Handle) (live : (e.swept S).heap.isLive h = true) : e.heap.Kept h := by
    refine ((linked h).1 ?_).kept
    by_contra goes
    rw [Heap.isLive, Engine.slot_swept tidy, if_neg goes] at live
    cases slot : e.heap.slot h <;> rw [slot] at live
    · rw [Slot.discard] at live
      split at live <;> cases live
    · cases live
    · cases live
  have sub : ((e.swept S).heap.listed.map (·.1)).toFinset ⊆ e.heap.staying.toFinset := by
    intro h mem
    rw [List.mem_toFinset, Heap.mem_map_listed] at mem
    have stays := kept h mem
    classical
    rw [List.mem_toFinset, Heap.staying, List.mem_filter, Heap.mem_map_listed, decide_eq_true_eq]
    exact ⟨stays.isLive, stays⟩
  rw [(Engine.booked_swept booked).liveCount_eq]
  exact (Finset.card_le_card sub).trans (List.toFinset_card_le _)

/-- Nor are more of them live at the end of a collection. -/
theorem Engine.liveCount_collect_le (idle : e.work = {}) (tidy : e.heap.Tidy)
    (booked : e.heap.Booked 0) : e.collect.2.heap.liveCount ≤ e.heap.staying.length := by
  have checked : (if e.heap.hasDangling then e.stray else e).heap = e.heap := by
    split <;> rfl
  rw [Engine.collect_of_idle idle]
  dsimp only
  generalize (if e.heap.hasDangling then e.stray else e) = e₁ at checked
  rw [← checked] at tidy booked ⊢
  obtain ⟨S, pushed, linked, scan, -⟩ := tidy.scan_eq
  rw [scan, Heap.dismiss_paint tidy]
  have swept : (e₁.swept S).heap.Tidy := by
    intro h
    rw [Engine.slot_swept tidy]
    split
    · exact tidy h
    · exact (tidy h).discard
  -- The references from the garbage make nothing.
  have given : Engine.Changes ∅ False (e₁.swept S)
      ((e₁.heap.stain S).outgoing.foldl Engine.releaseReference (e₁.swept S)) :=
    Engine.changes_foldl _ fun _ _ => Engine.changes_releaseReference
  have pace := Engine.heapWork_pace.slotWork.foldl
    Engine.heapWork_pace.slotWork.releaseReference (e₁.swept S) (e₁.heap.stain S).outgoing
  exact (given.liveCount_le swept (congrArg (·.1) pace)).trans
    (Engine.liveCount_swept_le tidy booked linked)

/-! ### Between collections -/

theorem Engine.Calm.liveCount_le (calm : e.Calm e') (tidy : e.heap.Tidy) :
    e'.heap.liveCount ≤ e.heap.liveCount :=
  calm.moves.changes.liveCount_le tidy (congrArg (·.1) calm.pace)

theorem Engine.Bounded.calm (bounded : e.Bounded B) (calm : e.Calm e') : e'.Bounded B where
  tidy := calm.moves.changes.keep (P := fun e => e.heap.Tidy) (fun change => change.tidy)
    bounded.tidy
  booked := calm.moves.booked bounded.tidy bounded.booked
  steady := calm.moves.keep (fun move steady => move.steady steady) bounded.steady
  few := (calm.liveCount_le bounded.tidy).trans bounded.few
  threshold := (congrArg (·.2.1) calm.pace : e'.threshold = e.threshold) ▸ bounded.threshold
  floor := (congrArg (·.2.2) calm.pace : e'.limits.threshold = e.limits.threshold) ▸ bounded.floor

/-! ### Making an object -/

/-- Before an object is made there is room for it below the bound. -/
theorem Engine.Bounded.collectAtThreshold (bounded : e.Bounded B) (enough : K + K / 2 ≤ B)
    (few : ∀ H ∈ e.passesAtThreshold, H.staying.length ≤ K) :
    e.collectAtThreshold.Bounded B ∧ e.collectAtThreshold.heap.liveCount ≤ B := by
  have idle := bounded.steady.idle
  by_cases reached : e.threshold ≤ e.heap.liveCount
  · have stay : e.collect.2.heap.liveCount ≤ K := by
      refine (Engine.liveCount_collect_le idle bounded.tidy bounded.booked).trans (few _ ?_)
      rw [Engine.passesAtThreshold, if_pos reached, Engine.pass_of_idle idle]
      exact List.mem_singleton_self _
    have collected : e.collect.2.Bounded B := bounded.calm Engine.calm_collect
    have next : max e.collect.2.limits.threshold
        (e.collect.2.heap.liveCount + e.collect.2.heap.liveCount / 2) ≤ B :=
      max_le collected.floor (by omega)
    rw [Engine.collectAtThreshold, idle, if_pos ⟨rfl, reached⟩]
    refine ⟨⟨collected.tidy, collected.booked, ⟨collected.steady.idle, collected.steady.sound⟩,
      collected.few, next, collected.floor⟩, ?_⟩
    show e.collect.2.heap.liveCount ≤ B
    omega
  · rw [Engine.collectAtThreshold, if_neg fun both => reached both.2]
    have below := bounded.threshold
    exact ⟨bounded, by omega⟩

theorem Engine.Bounded.makeRoom (bounded : e.Bounded B) (size : Nat) (enough : K + K / 2 ≤ B)
    (few : ∀ H ∈ e.passesAtThreshold, H.staying.length ≤ K) :
    (e.makeRoom size).Bounded B ∧ (e.makeRoom size).heap.liveCount ≤ B := by
  obtain ⟨ready, room⟩ := bounded.collectAtThreshold enough few
  rw [Engine.makeRoom]
  split
  · exact ⟨ready.calm Engine.calm_collect, (Engine.calm_collect.liveCount_le ready.tidy).trans room⟩
  · exact ⟨ready, room⟩

theorem Engine.Bounded.place (bounded : e.Bounded B) (room : e.heap.liveCount ≤ B)
    (hopen : e.isClosed = false) (fits : payload.Fits (ObjectClass.ofId classId)) :
    (e.place classId payload).2.Bounded B := by
  have change : Engine.Change ∅ False e (e.place classId payload).2 := .place hopen fits
  have move : Engine.Move ∅ False e (e.place classId payload).2 := .place hopen fits
  exact ⟨change.tidy bounded.tidy, change.booked bounded.tidy bounded.booked,
    move.steady bounded.steady, Nat.succ_le_succ room, bounded.threshold, bounded.floor⟩

theorem Engine.Bounded.allocate (bounded : e.Bounded B) (enough : K + K / 2 ≤ B)
    (fits : payload.Fits (ObjectClass.ofId classId))
    (few : ∀ H ∈ e.passesOfAllocate payload, H.staying.length ≤ K) :
    (e.allocate classId payload).2.Bounded B := by
  rw [Engine.allocate]
  split
  · exact bounded.calm Engine.calm_abandon
  · rename_i closed
    obtain ⟨ready, room⟩ := bounded.makeRoom (headerSize + payload.size) enough
      fun H mem => few H (by
        rw [Engine.passesOfAllocate, if_neg closed, Engine.passesForRoom]
        exact List.mem_append_left _ mem)
    have hopen : (e.makeRoom (headerSize + payload.size)).isClosed = false := by
      rw [isClosed_of_frame (Engine.frame_makeRoom _)]
      exact Bool.eq_false_iff.2 closed
    dsimp only
    split
    · exact ready.calm Engine.calm_abandon
    · exact ready.place room hopen fits

/-! ### Runs -/

theorem Engine.Course.bounded (course : Engine.Course passes e e') (bounded : e.Bounded B)
    (enough : K + K / 2 ≤ B) (few : ∀ H ∈ passes, H.staying.length ≤ K) : e'.Bounded B := by
  induction course with
  | refl e => exact bounded
  | calm _ moves pace ih => exact (ih bounded few).calm ⟨moves, pace⟩
  | attach _ finalizers ih =>
      have before := ih bounded few
      exact ⟨before.tidy, before.booked, ⟨before.steady.idle, before.steady.sound⟩, before.few,
        before.threshold, before.floor⟩
  | allocate _ fits ih =>
      rw [List.forall_mem_append] at few
      exact (ih bounded few.1).allocate enough fits few.2
  | collect _ ih =>
      rw [List.forall_mem_append] at few
      exact (ih bounded few.1).calm Engine.calm_collect

theorem Engine.bounded_new {limits : Limits} (floor : limits.threshold ≤ B) :
    (Engine.new limits).Bounded B :=
  ⟨fun _ => trivial, Engine.booked_new limits, Engine.steady_new limits, Nat.zero_le _, floor,
    floor⟩

end

/-- Let no more than `K` of the live objects stay in any collection of a run, that is, be
owned from outside the heap or be referred to by one that stays. If the host does not set
the threshold, then at the end of the run, and so after each of its requests, there are at
most as many live objects as the threshold was at first, or half as many again as `K`, and
one more. -/
theorem Engine.garbage_bounded_run (limits : Limits) (requests : List Action) (K : Nat)
    (keeps : ∀ n, .setThreshold n ∉ requests)
    (few : ∀ H ∈ (Engine.new limits).passes requests, H.staying.length ≤ K) :
    ((Engine.new limits).run requests).2.heap.liveCount ≤
      max limits.threshold (K + K / 2) + 1 :=
  ((Engine.course_run keeps).bounded (Engine.bounded_new (le_max_left _ _)) (le_max_right _ _)
    few).few

/-! ### Counting what stays -/

instance (ending queued : Prop) [Decidable ending] [Decidable queued] (s : Slot) :
    Decidable (s.Sound ending queued) :=
  match s with
  | .live o => inferInstanceAs (Decidable ((o.marked = false ∧ o.reached = false) ∧ _))
  | .parked o => inferInstanceAs (Decidable ((o.marked = false ∧ o.reached = false) ∧ _))
  | .reclaimed => inferInstanceAs (Decidable True)

theorem Heap.sound_of_slots {H : Heap} (slots : ∀ s ∈ H.slots.toList, s.Sound False False) :
    H.Sound 0 0 := by
  refine ⟨fun h => ?_, fun h mem => absurd mem (Multiset.notMem_zero h), Multiset.nodup_zero⟩
  simp only [Multiset.notMem_zero]
  by_cases inside : h < H.slots.size
  · exact slots _ (List.mem_of_getElem? (H.slots_getElem? inside))
  · rw [H.slot_of_size_le (Nat.le_of_not_lt inside)]
    trivial

/-- On a sound heap the scan tells how many objects stay. -/
theorem Heap.length_staying {H : Heap} (clean : H.Sound 0 0) :
    H.staying.length + H.enlist.scan.dismiss.garbage.length = H.listed.length := by
  classical
  obtain ⟨S, kept, result⟩ := Heap.scan_eq clean
  have going : H.enlist.scan.dismiss.garbage.length = H.going.length := by
    rw [result, ← Heap.map_fst_garbage_stain kept, List.length_map]
  have parts := List.length_eq_length_filter_add (l := H.listed.map (·.1))
    fun h => decide (H.Kept h)
  simp only [List.length_map, ← decide_not] at parts
  rw [going, Heap.staying, Heap.going]
  exact parts.symm

/-- A host that keeps one object and makes four others, each of which refers to itself when
the host gives it back. -/
def droppedCycles : List Action :=
  .makePlain Value.null :: [1, 2, 3, 4].flatMap fun h =>
    [.makePlain Value.null, .retain (.reference h), .store (.reference h) "me" (.reference h),
      .release (.reference h)]

/-- With a threshold of two live objects, three collections keep one object each, and there
are never more than three. -/
theorem garbage_bounded_droppedCycles :
    ((Engine.new { threshold := 2 }).passes droppedCycles).length = 3 ∧
      (∀ H ∈ (Engine.new { threshold := 2 }).passes droppedCycles, H.staying.length ≤ 1) ∧
      ((Engine.new { threshold := 2 }).run droppedCycles).2.heap.slots.size = 5 ∧
      ((Engine.new { threshold := 2 }).run droppedCycles).2.heap.liveCount ≤ 3 := by
  have keeps : ∀ n, .setThreshold n ∉ droppedCycles := by
    intro n
    simp [droppedCycles]
  have checked : ((Engine.new { threshold := 2 }).passes droppedCycles).all (fun H =>
      decide ((∀ s ∈ H.slots.toList, s.Sound False False) ∧
        H.listed.length ≤ 1 + H.enlist.scan.dismiss.garbage.length)) = true := by
    decide +kernel
  have few : ∀ H ∈ (Engine.new { threshold := 2 }).passes droppedCycles,
      H.staying.length ≤ 1 := by
    intro H mem
    obtain ⟨slots, most⟩ := of_decide_eq_true (List.all_eq_true.1 checked H mem)
    have parts := Heap.length_staying (Heap.sound_of_slots slots)
    omega
  exact ⟨by decide +kernel, few, by decide +kernel,
    Engine.garbage_bounded_run { threshold := 2 } droppedCycles 1 keeps few⟩

end CountedHeap
