import CountedHeap.Engine.Collect

/-!
Allocation. An allocation that finds too many live objects collects first, and
then lets the heap grow by half before it collects again. One that would exceed
the memory limit collects too, and is refused only if that was not enough. The
references inside a refused payload are given back.
-/

namespace CountedHeap

/-- The limit that `size` more bytes would exceed, if they would. -/
def Engine.exceeded? (e : Engine) (size : Nat) : Option Nat :=
  e.limits.memory.filter fun limit => limit < e.heap.bytes + size

/-- Collects if there are as many live objects as the threshold allows, and no
collection is under way. -/
def Engine.collectAtThreshold (e : Engine) : Engine :=
  if e.work.collecting = false ∧ e.threshold ≤ e.heap.liveCount then
    let e := e.collect.2
    { e with threshold := max e.limits.threshold (e.heap.liveCount + e.heap.liveCount / 2) }
  else
    e

/-- Gives back the references inside a payload that found no place. -/
def Engine.abandon (e : Engine) (payload : Payload) : Engine :=
  payload.owned.foldl Engine.releaseReference e

/-- Puts a new object on the heap without asking for room. -/
def Engine.place (e : Engine) (classId : ClassId) (payload : Payload) : Value × Engine :=
  match e.heap.allocate (Object.new classId payload) with
  | (h, heap) =>
    (.reference h, { e with heap := heap, made := e.made.push (Object.new classId payload) })

/-- A new object that owns the references inside `payload`. -/
def Engine.allocate (e : Engine) (classId : ClassId) (payload : Payload) :
    Except Refusal Value × Engine :=
  if e.isClosed then
    (.error .shutDown, e.abandon payload)
  else
    let size := headerSize + payload.size
    let e := e.collectAtThreshold
    let e := if (e.exceeded? size).isSome then e.collect.2 else e
    match e.exceeded? size with
    | some limit => (.error (.outOfMemory limit size), e.abandon payload)
    | none =>
      match e.place classId payload with
      | (v, e) => (.ok v, e)

end CountedHeap
