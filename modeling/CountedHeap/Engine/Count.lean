import CountedHeap.Engine.Basic

/-!
Reference counting. Giving back the last reference on an object releases its
payload, and with it every reference that the payload owns. That does not
recurse: an object whose count reaches zero joins the end of a queue, and the
queue is worked off until it is empty. While that goes on, objects only join.
Each object that joins has just lost its positive count, and counts only fall
while the queue is worked off, so it ends.
-/

namespace CountedHeap

/-- One more reference on an object. -/
def Engine.addReference (e : Engine) (h : Handle) : Engine :=
  match e.heap.object? h with
  | some o =>
    (e.checkCount (o.count + 1)).updateObject h fun o => { o with count := wrapCount (o.count + 1) }
  | none => e.stray

/-- Takes one more reference on a value. Immediates have no count. -/
def Engine.retain (e : Engine) (v : Value) : Engine :=
  match v.handle? with
  | some h => e.addReference h
  | none => e

/-- The count of a value: 0 for immediates, and below zero where the host gave
back too much. -/
def Engine.countOf (e : Engine) (v : Value) : Int :=
  match e.object? v with
  | some o => o.count
  | none => 0

/-- One reference less on an object, and whether that was the last one. At zero
and below the count stays and the attempt is recorded. -/
def Engine.dropReference (e : Engine) (h : Handle) : Bool × Engine :=
  match e.heap.object? h with
  | some o =>
    if 0 < o.count then
      (o.count == 1, e.updateObject h fun o => { o with count := o.count - 1 })
    else
      (false, e.record (.surplusRelease h o))
  | none => (false, e.stray)

/-- One reference less on each object of a list, in order. The objects that lose
their last one are given in order too, after those found before, which are in
`found` with the latest first. -/
def Engine.dropAll (e : Engine) (found : List Handle) : List Handle → List Handle × Engine
  | [] => (found.reverse, e)
  | h :: rest =>
    match e.dropReference h with
    | (true, e) => e.dropAll (h :: found) rest
    | (false, e) => e.dropAll found rest

/-- Releases the payload of an object that is no longer counted, and gives the
objects that lose their last reference with it. The header is still there while
the references are given back, since the object may hold one on itself. -/
def Engine.dispose (e : Engine) (h : Handle) : List Handle × Engine :=
  match e.heap.object? h with
  | some o =>
    if o.freed then ([], e)
    else
      match ((e.updateObject h Object.release).finalize h o).dropAll [] o.payload.owned with
      | (zeroed, e) => (zeroed, e.retire h o.size o.adopted)
  | none => ([], e.stray)

/-- Appends to a queue. -/
def enqueue (queue : List Handle) : List Handle → List Handle
  | [] => queue
  | joining => queue ++ joining

/-- Objects join the end of the queue. -/
def Engine.join (e : Engine) (joining : List Handle) : Engine :=
  e.doing { e.work with waiting := enqueue e.work.waiting joining }

@[simp] theorem enqueue_eq_append (queue joining : List Handle) :
    enqueue queue joining = queue ++ joining := by
  cases joining <;> simp [enqueue]

/-! ### The queue shrinks -/

theorem Engine.countedHeaders_dropReference (e : Engine) (h : Handle) :
    (e.dropReference h).2.heap.countedHeaders + (if (e.dropReference h).1 then 1 else 0) ≤
      e.heap.countedHeaders := by
  unfold Engine.dropReference
  cases found : e.heap.object? h with
  | none => simp
  | some o =>
    by_cases positive : 0 < o.count
    · simp only [positive, if_true, Engine.heap_updateObject, Heap.update]
      by_cases last : o.count = 1
      · have step := e.heap.countedHeaders_mapSlot_lt h
          (f := Slot.map fun o => { o with count := o.count - 1 })
          (by simp only [Heap.object?] at found; simp [Slot.isCounted, found, positive])
          (by
            simp only [Heap.object?] at found
            cases slot : e.heap.slot h <;> simp_all [Slot.isCounted, Slot.object?, Slot.map])
        simp only [last]
        exact Nat.le_of_eq step
      · have step := e.heap.countedHeaders_mapSlot_le h
          (f := Slot.map fun o => { o with count := o.count - 1 }) (by
            intro s
            cases s <;> simp only [Slot.isCounted, Slot.object?, Slot.map, decide_eq_true_eq,
              Bool.false_eq_true, false_implies] <;> omega)
        simpa [last] using step
    · simp [positive]

theorem Engine.countedHeaders_dropAll (e : Engine) (found hs : List Handle) :
    (e.dropAll found hs).2.heap.countedHeaders + (e.dropAll found hs).1.length ≤
      e.heap.countedHeaders + found.length := by
  induction hs generalizing e found with
  | nil => simp [Engine.dropAll]
  | cons h rest ih =>
    have step := e.countedHeaders_dropReference h
    unfold Engine.dropAll
    split
    · rename_i e' drop
      have later := ih e' (h :: found)
      simp only [drop, if_true, List.length_cons] at step later
      omega
    · rename_i e' drop
      have later := ih e' found
      simp only [drop, Bool.false_eq_true, if_false] at step
      omega

theorem Engine.countedHeaders_dispose (e : Engine) (h : Handle) :
    (e.dispose h).2.heap.countedHeaders + (e.dispose h).1.length ≤ e.heap.countedHeaders := by
  unfold Engine.dispose
  split
  · rename_i o found
    split
    · simp
    · have emptied : (e.updateObject h Object.release).heap.countedHeaders ≤
          e.heap.countedHeaders :=
        e.heap.countedHeaders_mapSlot_le h fun s => by cases s <;> exact id
      have dropped :=
        ((e.updateObject h Object.release).finalize h o).countedHeaders_dropAll [] o.payload.owned
      have retired := (((e.updateObject h Object.release).finalize h o).dropAll []
        o.payload.owned).2.heap.countedHeaders_retire_le h o.size o.adopted
      simp only [Engine.heap_finalize, Engine.heap_retire, List.length_nil] at *
      omega
  · simp

/-! ### Disposing is not working off the queue -/

@[simp] theorem Engine.work_finalize (e : Engine) (h : Handle) (o : Object) :
    (e.finalize h o).work = e.work := by
  unfold Engine.finalize; split
  · split <;> rfl
  · rfl

theorem Engine.work_dropReference (e : Engine) (h : Handle) :
    (e.dropReference h).2.work = e.work := by
  unfold Engine.dropReference
  split
  · split <;> rfl
  · rfl

theorem Engine.work_dropAll (e : Engine) (found hs : List Handle) :
    (e.dropAll found hs).2.work = e.work := by
  induction hs generalizing e found with
  | nil => rfl
  | cons h rest ih =>
    have step := e.work_dropReference h
    unfold Engine.dropAll
    split <;> rename_i e' drop <;> rw [ih, ← step, drop]

theorem Engine.work_dispose (e : Engine) (h : Handle) : (e.dispose h).2.work = e.work := by
  unfold Engine.dispose
  split
  · rename_i o found
    split
    · rfl
    · have dropped :=
        ((e.updateObject h Object.release).finalize h o).work_dropAll [] o.payload.owned
      rw [Engine.work_finalize] at dropped
      exact dropped
  · rfl

/-! ### Giving back -/

/-- Works off the queue, together with all that join it on the way. -/
def Engine.workOff (e : Engine) : Engine :=
  match _queue : e.work.waiting with
  | [] => e
  | h :: rest =>
    match _step : (e.doing { e.work with waiting := rest }).dispose h with
    | (zeroed, e') => (e'.join zeroed).workOff
termination_by e.heap.countedHeaders + e.work.waiting.length
decreasing_by
  have bound := (e.doing { e.work with waiting := rest }).countedHeaders_dispose h
  have work := (e.doing { e.work with waiting := rest }).work_dispose h
  rw [_step] at bound work
  simp only [Engine.join, Engine.doing, enqueue_eq_append, List.length_append] at *
  simp only [work, _queue, List.length_cons]
  omega

def Engine.setDraining (e : Engine) (draining : Bool) : Engine :=
  e.doing { e.work with draining := draining }

/-- An object that has lost its last reference joins the queue. The queue is
worked off at once, unless that is being done already. -/
def Engine.queueZero (e : Engine) (h : Handle) : Engine :=
  let e := e.join [h]
  if e.work.draining then e
  else ((e.setDraining true).workOff).setDraining false

/-- Gives back one reference on an object. -/
def Engine.releaseReference (e : Engine) (h : Handle) : Engine :=
  match e.dropReference h with
  | (true, e) => e.queueZero h
  | (false, e) => e

/-- Gives back one reference on a value. -/
def Engine.release (e : Engine) (v : Value) : Engine :=
  match v.handle? with
  | some h => e.releaseReference h
  | none => e

/-- Gives back one reference on each value, each before the next. -/
def Engine.releaseAll (e : Engine) (vs : List Value) : Engine :=
  vs.foldl Engine.release e

end CountedHeap
