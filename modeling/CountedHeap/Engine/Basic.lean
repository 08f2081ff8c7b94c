import CountedHeap.Heap.Basic
import CountedHeap.Closing

/-!
The state of an engine: the heap, the contexts that share it, the host's
finalizers and limits, and what the engine has to say about its own past (the
objects made, the diagnostics not yet taken, the finalizations, and the
registrations that closed contexts left behind).

Operations are functions from a state to a result and a state, and nothing that
a caller may do stops them. A caller who breaks a promise (names an object that
is gone, or takes more than `2 ^ 31` references) gets some answer, and the state
remembers that the promise was broken.
-/

namespace CountedHeap

/-- Why an operation was refused. -/
inductive Refusal
  | outOfMemory (limit requested : Nat)
  | invalidClass (id : ClassId)
  | contextFreed (id : ContextId)
  | notAnObject
  | shutDown
  deriving DecidableEq, Repr

def Refusal.message : Refusal → String
  | .outOfMemory limit requested =>
    "out of memory (limit " ++ toString limit ++ " bytes, requested " ++ toString requested ++ ")"
  | .invalidClass id => "invalid class id " ++ toString id.toNat
  | .contextFreed id => "context " ++ id.text ++ " is freed"
  | .notAnObject => "not an object"
  | .shutDown => "runtime is shut down"

/-- The number of live objects at which an allocation first collects, unless the
host sets another. -/
def defaultThreshold : Nat := 256

/-- The limits that the host sets: the bytes that may be charged, if bounded,
and the number of live objects at which an allocation first collects. -/
structure Limits where
  memory : Option Nat := none
  threshold : Nat := defaultThreshold
  deriving DecidableEq, Repr

inductive ContextPhase
  | active
  | closing
  | freed
  deriving DecidableEq, Repr

/-- A context: a global object, one prototype for each class it has a slot for,
and the values that the host has registered on it. It owns one reference for
each of these. `id` is what it was given when it was opened. -/
structure Context where
  id : ContextId
  phase : ContextPhase
  count : Int
  global : Value
  prototypes : Array Value
  registered : Array Value
  deriving DecidableEq, Repr

def Context.isOpen (c : Context) : Bool :=
  c.phase != .freed

/-- A finalizer is known by its name. -/
abbrev Finalizer := String

/-- The end of a host object: its cookie, and the finalizer that its class had
at that moment and that was called with it. -/
structure Finalization where
  target : Handle
  classId : ClassId
  cookie : UInt64
  finalizer : Option Finalizer
  deriving DecidableEq, Repr

/-- A registration whose reference a context did not give back when it was
closed, whether the registered object was live at that moment, and its count. -/
structure Leftover where
  target : Handle
  wasLive : Bool
  count : Int
  deriving DecidableEq, Repr

/-- The promises of its callers that an engine has seen broken: that they only
name objects that are live or parked, and that no count leaves its range. -/
structure Breaches where
  strayAccess : Bool := false
  countWrapped : Bool := false
  deriving DecidableEq, Repr

/-- What an operation is in the middle of: the objects that have lost their last
reference and wait for their end, whether this queue is being worked off, and
whether a collection is under way. Between two operations there is nothing. -/
structure Work where
  waiting : List Handle := []
  draining : Bool := false
  collecting : Bool := false
  deriving DecidableEq, Repr

/-- `made` has every object as it was when it was made, in the order of
allocation. `threshold` is the number of live objects at which an allocation
collects first. Unlike the one in `limits` it moves with the heap. -/
structure Engine where
  heap : Heap := {}
  made : Array Object := #[]
  contexts : Array Context := #[]
  finalizers : List (ClassId × Finalizer) := []
  finalized : Array Finalization := #[]
  leftovers : Array Leftover := #[]
  diagnostics : Array Diagnostic := #[]
  limits : Limits := {}
  threshold : Nat := defaultThreshold
  isClosed : Bool := false
  work : Work := {}
  breaches : Breaches := {}
  deriving Repr

/-- An engine without objects or contexts. -/
def Engine.new (limits : Limits) : Engine :=
  { limits := limits, threshold := limits.threshold }

instance : Inhabited Engine := ⟨Engine.new {}⟩

/-! ### Notes about the past -/

def Engine.record (e : Engine) (d : Diagnostic) : Engine :=
  { e with diagnostics := e.diagnostics.push d }

/-- The diagnostics recorded since they were last taken. -/
def Engine.flushDiagnostics (e : Engine) : List Diagnostic × Engine :=
  (e.diagnostics.toList, { e with diagnostics := #[] })

/-- An object was named that is gone. -/
def Engine.stray (e : Engine) : Engine :=
  { e with breaches := { e.breaches with strayAccess := true } }

/-- A count was to become `n`. -/
def Engine.checkCount (e : Engine) (n : Int) : Engine :=
  if CountInRange n then e
  else { e with breaches := { e.breaches with countWrapped := true } }

/-- The same engine in the middle of other work. -/
def Engine.doing (e : Engine) (work : Work) : Engine :=
  { e with work := work }

/-! ### Settings -/

def Engine.limitMemory (e : Engine) (limit : Option Nat) : Engine :=
  { e with limits := { e.limits with memory := limit } }

def Engine.setThreshold (e : Engine) (threshold : Nat) : Engine :=
  { e with limits := { e.limits with threshold := threshold }, threshold := threshold }

/-- Attaches a finalizer to a host class, or takes it away. -/
def Engine.setFinalizer (e : Engine) (id : ClassId) (f : Option Finalizer) :
    Except Refusal Unit × Engine :=
  if id.isHost then
    let others := e.finalizers.filter (·.1 != id)
    (.ok (), { e with finalizers := (f.map (id, ·)).toList ++ others })
  else
    (.error (.invalidClass id), e)

/-- The finalization of an object whose payload is being released; of a host
object only. -/
def Engine.finalize (e : Engine) (h : Handle) (o : Object) : Engine :=
  match o.payload with
  | .host _ _ cookie =>
    if o.classId.isHost then
      { e with finalized := e.finalized.push ⟨h, o.classId, cookie, e.finalizers.lookup o.classId⟩ }
    else e
  | _ => e

/-! ### Headers -/

def Engine.updateObject (e : Engine) (h : Handle) (f : Object → Object) : Engine :=
  { e with heap := e.heap.update h f }

/-- A header whose payload is released leaves the list of live objects. -/
def Engine.retire (e : Engine) (h : Handle) (size : Nat) (park : Bool) : Engine :=
  { e with heap := e.heap.retire h size park }

/-- The header that a value refers to. -/
def Engine.object? (e : Engine) (v : Value) : Option Object :=
  v.handle?.bind e.heap.object?

def Engine.isLive (e : Engine) (v : Value) : Bool :=
  v.handle?.any e.heap.isLive

def Engine.isParked (e : Engine) (v : Value) : Bool :=
  v.handle?.any e.heap.isParked

/-- A value that a caller may pass: an immediate, or a reference to an object
that is live or parked. -/
def Engine.isValid (e : Engine) (v : Value) : Bool :=
  !v.isReference || e.isLive v || e.isParked v

@[simp] theorem Engine.heap_record (e : Engine) (d : Diagnostic) : (e.record d).heap = e.heap := rfl

@[simp] theorem Engine.heap_stray (e : Engine) : e.stray.heap = e.heap := rfl

@[simp] theorem Engine.heap_checkCount (e : Engine) (n : Int) : (e.checkCount n).heap = e.heap := by
  unfold Engine.checkCount; split <;> rfl

@[simp] theorem Engine.heap_finalize (e : Engine) (h : Handle) (o : Object) :
    (e.finalize h o).heap = e.heap := by
  unfold Engine.finalize; split
  · split <;> rfl
  · rfl

@[simp] theorem Engine.heap_updateObject (e : Engine) (h : Handle) (f : Object → Object) :
    (e.updateObject h f).heap = e.heap.update h f := rfl

@[simp] theorem Engine.heap_retire (e : Engine) (h : Handle) (size : Nat) (park : Bool) :
    (e.retire h size park).heap = e.heap.retire h size park := rfl

end CountedHeap
