import CountedHeap.Proofs.Work

/-!
What counting and collecting leave alone. Releasing a reference may end any
number of objects, and a collection may end even more, but neither touches a
context, a setting, or the notes about registrations, and neither raises a
count. Those parts of an engine are put together as its frame, and each
operation that works on the heap alone gets one lemma: the frame is as before.
-/

namespace CountedHeap

/-- The parts of an engine that work on the heap alone does not touch. -/
structure Frame where
  contexts : Array Context
  finalizers : List (ClassId × Finalizer)
  leftovers : Array Leftover
  limits : Limits
  isClosed : Bool
  countWrapped : Bool

def Engine.frame (e : Engine) : Frame where
  contexts := e.contexts
  finalizers := e.finalizers
  leftovers := e.leftovers
  limits := e.limits
  isClosed := e.isClosed
  countWrapped := e.breaches.countWrapped

/-- No count has left its range. -/
def Engine.InRange (e : Engine) : Prop :=
  e.breaches.countWrapped = false

instance (e : Engine) : Decidable e.InRange :=
  inferInstanceAs (Decidable (_ = _))

section

variable {e e' : Engine}

theorem contexts_of_frame (hf : e'.frame = e.frame) : e'.contexts = e.contexts :=
  congrArg Frame.contexts hf

theorem leftovers_of_frame (hf : e'.frame = e.frame) : e'.leftovers = e.leftovers :=
  congrArg Frame.leftovers hf

theorem isClosed_of_frame (hf : e'.frame = e.frame) : e'.isClosed = e.isClosed :=
  congrArg Frame.isClosed hf

theorem inRange_of_frame (hf : e'.frame = e.frame) : e'.InRange ↔ e.InRange := by
  have same : e'.breaches.countWrapped = e.breaches.countWrapped := congrArg Frame.countWrapped hf
  rw [Engine.InRange, Engine.InRange, same]

end

/-! ### Single changes -/

@[simp] theorem Engine.frame_record (e : Engine) (d : Diagnostic) :
    (e.record d).frame = e.frame := rfl

@[simp] theorem Engine.frame_stray (e : Engine) : e.stray.frame = e.frame := rfl

@[simp] theorem Engine.frame_updateObject (e : Engine) (h : Handle) (f : Object → Object) :
    (e.updateObject h f).frame = e.frame := rfl

@[simp] theorem Engine.frame_doing (e : Engine) (w : Work) : (e.doing w).frame = e.frame := rfl

@[simp] theorem Engine.frame_retire (e : Engine) (h : Handle) (size : Nat) (park : Bool) :
    (e.retire h size park).frame = e.frame := rfl

/-- Finalizing notes the finalization and touches nothing else. -/
theorem Engine.finalize_eq (e : Engine) (h : Handle) (o : Object) :
    ∃ finalized, e.finalize h o = { e with finalized := finalized } := by
  rw [Engine.finalize]
  split
  · split
    · exact ⟨_, rfl⟩
    · exact ⟨_, rfl⟩
  · exact ⟨_, rfl⟩

@[simp] theorem Engine.frame_finalize (e : Engine) (h : Handle) (o : Object) :
    (e.finalize h o).frame = e.frame := by
  obtain ⟨finalized, noted⟩ := e.finalize_eq h o
  rw [noted]
  rfl

/-! ### Releasing and collecting -/

theorem Engine.heapWork_frame : Engine.HeapWork fun e e' => e'.frame = e.frame where
  refl _ := rfl
  trans first later := later.trans first
  heap _ _ := rfl
  finalized _ _ := rfl
  surplus _ _ _ := rfl
  stray _ := rfl
  doing _ _ := rfl

@[simp] theorem Engine.frame_dispose (e : Engine) (h : Handle) :
    (e.dispose h).2.frame = e.frame :=
  Engine.heapWork_frame.slotWork.dispose e h

@[simp] theorem Engine.frame_queueZero (e : Engine) (h : Handle) :
    (e.queueZero h).frame = e.frame :=
  Engine.heapWork_frame.slotWork.queueZero e h

@[simp] theorem Engine.frame_releaseReference (e : Engine) (h : Handle) :
    (e.releaseReference h).frame = e.frame :=
  Engine.heapWork_frame.slotWork.releaseReference e h

@[simp] theorem Engine.frame_foldl_releaseReference (e : Engine) (hs : List Handle) :
    (hs.foldl Engine.releaseReference e).frame = e.frame :=
  Engine.heapWork_frame.slotWork.foldl Engine.heapWork_frame.slotWork.releaseReference e hs

@[simp] theorem Engine.frame_release (e : Engine) (v : Value) :
    (e.release v).frame = e.frame :=
  Engine.heapWork_frame.slotWork.release e v

@[simp] theorem Engine.frame_releaseAll (e : Engine) (vs : List Value) :
    (e.releaseAll vs).frame = e.frame :=
  Engine.heapWork_frame.slotWork.releaseAll e vs

@[simp] theorem Engine.frame_foldl_discard (e : Engine) (garbage : List (Handle × Object)) :
    (garbage.foldl Engine.discard e).frame = e.frame :=
  Engine.heapWork_frame.slotWork.foldl Engine.heapWork_frame.slotWork.discard e garbage

@[simp] theorem Engine.frame_collect (e : Engine) : e.collect.2.frame = e.frame :=
  Engine.heapWork_frame.slotWork.collect e

/-! ### Allocating -/

@[simp] theorem Engine.frame_collectAtThreshold (e : Engine) :
    e.collectAtThreshold.frame = e.frame := by
  rw [Engine.collectAtThreshold]
  split
  · exact e.frame_collect
  · rfl

@[simp] theorem Engine.frame_abandon (e : Engine) (payload : Payload) :
    (e.abandon payload).frame = e.frame :=
  e.frame_foldl_releaseReference _

@[simp] theorem Engine.frame_allocate (e : Engine) (classId : ClassId) (payload : Payload) :
    (e.allocate classId payload).2.frame = e.frame := by
  rw [Engine.allocate]
  split
  · simp
  · have room (size : Nat) :
        (if (e.collectAtThreshold.exceeded? size).isSome then e.collectAtThreshold.collect.2
          else e.collectAtThreshold).frame = e.frame := by
      split <;> simp
    dsimp only
    split
    · rw [Engine.frame_abandon, room]
    · exact room _

theorem Engine.exceeded?_of_unlimited {e : Engine} {size : Nat}
    (unlimited : e.limits.memory = none) : e.exceeded? size = none := by
  rw [Engine.exceeded?, unlimited]
  rfl

/-- Without a limit every object finds its place. -/
theorem Engine.allocate_of_unlimited {e : Engine} (classId : ClassId) (payload : Payload)
    (hopen : e.isClosed = false) (unlimited : e.limits.memory = none) :
    e.allocate classId payload =
      (.ok (e.collectAtThreshold.place classId payload).1,
        (e.collectAtThreshold.place classId payload).2) := by
  have limits : e.collectAtThreshold.limits = e.limits :=
    congrArg Frame.limits e.frame_collectAtThreshold
  have room (size : Nat) : e.collectAtThreshold.exceeded? size = none :=
    Engine.exceeded?_of_unlimited (limits ▸ unlimited)
  rw [Engine.allocate, if_neg (Bool.eq_false_iff.1 hopen)]
  simp only [room, Option.isSome_none, Bool.false_eq_true, if_false]

/-- Nothing is made in an engine that is closed. -/
theorem Engine.isClosed_of_allocate {e e' : Engine} {classId : ClassId} {payload : Payload}
    {v : Value} (made : e.allocate classId payload = (.ok v, e')) : e'.isClosed = false := by
  have same := isClosed_of_frame (e.frame_allocate classId payload)
  rw [made] at same
  rw [Engine.allocate] at made
  split at made
  · cases made
  · rename_i hopen
    exact same.trans (Bool.eq_false_iff.2 hopen)

end CountedHeap
