import CountedHeap.Engine.Count

/-!
Collection of cycles by trial deletion. Every live object takes part in the pass
and is marked. From a scratch copy of its count, one is taken away for each
reference that a live payload owns on it. What is left then belongs to somebody
outside the heap, so an object with something left is a seed. What can be
reached from the seeds stays; the rest is garbage, and all of it goes at once.
References from garbage to garbage are dropped with the payloads that own them.
References from garbage to anything else are given back one by one, after all
garbage is gone. The counts themselves do not change before that.

An object whose count is zero or below is no seed and is never reached, so an
object that the host gave back too often does not survive a collection.
-/

namespace CountedHeap

/-! ### Trial deletion -/

/-- Every live object takes part. -/
def Heap.enlist (H : Heap) : Heap :=
  H.mapLive fun o => { o with marked := true }

/-- Whether a handle names an object that takes part and is not gone yet. -/
def Heap.isTracked (H : Heap) (h : Handle) : Bool :=
  (H.object? h).any fun o => o.marked && !o.freed

/-- The scratch copy of a count. -/
def Slot.scratch (s : Slot) : Nat :=
  match s.live? with
  | some o => o.count.toNat
  | none => 0

/-- Takes one away from the scratch count of each tracked object in a list. -/
def Heap.deduct (H : Heap) (scratch : Array Nat) (hs : List Handle) : Array Nat :=
  hs.foldl (fun scratch h => if H.isTracked h then scratch.modify h (· - 1) else scratch) scratch

/-- For each handle, what is left of its count without the references that live
payloads own. -/
def Heap.trialCounts (H : Heap) : Array Nat :=
  H.slots.foldl (fun scratch s => H.deduct scratch s.owned) (H.slots.map Slot.scratch)

/-- The live objects that are owned from outside the heap. -/
def Heap.seeds (H : Heap) : List Handle :=
  let scratch := H.trialCounts
  (H.listed.filter fun (h, o) => decide (0 < scratch.getD h 0) && decide (0 < o.count)).map (·.1)

/-! ### The scan -/

def Heap.reach (H : Heap) (h : Handle) : Heap :=
  H.update h fun o => { o with reached := true }

/-- Whether the slot holds an object that the scan would still reach, were there
a reference to it. -/
def Slot.awaitsScan (s : Slot) : Bool :=
  match s.object? with
  | some o => o.marked && !o.freed && !o.reached && decide (0 < o.count)
  | none => false

/-- The number of objects that the scan may still reach. -/
def Heap.awaiting (H : Heap) : Nat :=
  H.slots.countP Slot.awaitsScan

/-- Reaches those of the given objects that are not reached yet and puts each
onto the stack. -/
def Heap.reachEach (H : Heap) (stack : List Handle) : List Handle → Heap × List Handle
  | [] => (H, stack)
  | h :: rest =>
    if (H.slot h).awaitsScan then (H.reach h).reachEach (h :: stack) rest
    else H.reachEach stack rest

theorem Heap.awaiting_reachEach (H : Heap) (stack hs : List Handle) :
    (H.reachEach stack hs).1.awaiting + (H.reachEach stack hs).2.length =
      H.awaiting + stack.length := by
  induction hs generalizing H stack with
  | nil => rfl
  | cons h rest ih =>
    unfold Heap.reachEach
    split
    · rename_i awaits
      have step : (H.reach h).awaiting + 1 = H.awaiting := by
        refine H.countP_mapSlot_lt h Slot.awaitsScan rfl awaits ?_
        cases H.slot h <;> simp [Slot.map, Slot.awaitsScan, Slot.object?]
      rw [ih, List.length_cons]
      omega
    · exact ih H stack

/-- Reaches whatever can be reached from the objects on the stack, which are
reached already. Every step takes one object off the stack, and each object that
is put onto it is one fewer to be reached. -/
def Heap.reachFrom (H : Heap) (stack : List Handle) : Heap :=
  match stack with
  | [] => H
  | h :: rest =>
    match _step : H.reachEach rest (H.ownedBy h) with
    | (H', stack') => H'.reachFrom stack'
termination_by H.awaiting + stack.length
decreasing_by
  have bound := H.awaiting_reachEach rest (H.ownedBy h)
  simp only [_step, List.length_cons] at *
  omega

/-- Reaches the seeds and everything that can be reached from them. -/
def Heap.scan (H : Heap) : Heap :=
  (H.seeds.foldl Heap.reach H).reachFrom H.seeds.reverse

/-! ### The sweep -/

/-- What stays leaves the pass; garbage keeps its mark. -/
def Heap.dismiss (H : Heap) : Heap :=
  H.mapLive fun o => if o.reached then { o with marked := false, reached := false } else o

def Heap.isMarked (H : Heap) (h : Handle) : Bool :=
  (H.object? h).any (·.marked)

/-- The live objects that are still marked. -/
def Heap.garbage (H : Heap) : List (Handle × Object) :=
  H.listed.filter (·.2.marked)

/-- The references of garbage to anything else. -/
def Heap.outgoing (H : Heap) : List Handle :=
  H.garbage.flatMap fun (_, o) => o.payload.owned.filter fun h => !H.isMarked h

/-- One garbage object goes, with all that it owns. Its header stays if the host
has held it, or gave it back too often. -/
def Engine.discard (e : Engine) (entry : Handle × Object) : Engine :=
  let (h, o) := entry
  ((e.finalize h o).updateObject h fun o => { o.release with count := 0, marked := false }).retire h
    o.size (o.adopted || decide (o.count ≤ 0))

/-- Whether a live payload holds a reference to an object that is gone. -/
def Heap.hasDangling (H : Heap) : Bool :=
  H.slots.any fun s => s.owned.any fun h => (H.object? h).isNone

def Engine.setCollecting (e : Engine) (collecting : Bool) : Engine :=
  e.doing { e.work with collecting := collecting }

/-- Collects, and tells how many objects were garbage. One collection at a time is
enough. -/
def Engine.collect (e : Engine) : Nat × Engine :=
  if e.work.collecting then
    (0, e)
  else
    let e := if e.heap.hasDangling then e.stray else e
    let e := e.setCollecting true
    let e := { e with heap := e.heap.enlist.scan.dismiss }
    let garbage := e.heap.garbage
    let outgoing := e.heap.outgoing
    let e := outgoing.foldl Engine.releaseReference (garbage.foldl Engine.discard e)
    (garbage.length, e.setCollecting false)

end CountedHeap
