import CountedHeap.Heap.Object

/-!
Diagnostics: what an engine found wrong and went on in spite of. Each says who
is to blame, so that a host which gave back too much can be told from a fault
of the engine.
-/

namespace CountedHeap

/-- A context is known by a number. Contexts are numbered in the order in which
they are opened, but there are only `2 ^ 32` numbers. -/
abbrev ContextId := UInt32

def ContextId.text (c : ContextId) : String :=
  "#" ++ toString c

/-- Who or what an anomaly is put down to. -/
inductive Blame
  /-- A count went below zero, or was released there, through the host. -/
  | hostOverRelease
  /-- Objects were left at shutdown, presumably held by the host. -/
  | externalHold
  /-- An ordinary release met a count of an object the host never held that was
  zero already. -/
  | engineDoubleFree
  /-- An operation named a context that is freed or was never opened. -/
  | staleContext
  deriving DecidableEq, Repr

def Blame.name : Blame → String
  | .hostOverRelease => "HostOverRelease"
  | .externalHold => "ExternalHold"
  | .engineDoubleFree => "EngineDoubleFree"
  | .staleContext => "StaleContext"

/-- What was found. -/
inductive Anomaly
  | contextBelowZero (context : ContextId) (count : Int)
  | objectBelowZero (target : Handle) (classId : ClassId) (count : Int)
  | leftBehind (total adopted : Nat)
  | surplusRelease (target : Handle) (classId : ClassId) (count : Int)
  | contextGone (context : ContextId)
  deriving DecidableEq, Repr

structure Diagnostic where
  blame : Blame
  anomaly : Anomaly
  deriving DecidableEq, Repr

def Anomaly.message : Anomaly → String
  | .contextBelowZero context count =>
    "context " ++ context.text ++ " over-released (ref_count " ++ toString count ++ ")"
  | .objectBelowZero _ classId count =>
    "object of class " ++ toString classId.toNat ++ " over-released (ref_count " ++
      toString count ++ ")"
  | .leftBehind total adopted =>
    toString total ++ " objects left on the gc list at shutdown (" ++ toString adopted ++
      " externally adopted)"
  | .surplusRelease _ classId count =>
    "release of class " ++ toString classId.toNat ++ " object at ref_count " ++ toString count ++
      " ignored"
  | .contextGone context =>
    "context " ++ context.text ++ " is already freed"

def Diagnostic.message (d : Diagnostic) : String :=
  d.anomaly.message

/-- The message after the name of the blame. -/
def Diagnostic.report (d : Diagnostic) : String :=
  d.blame.name ++ ": " ++ d.message

/-- An object found over-released is laid at the door of the host. -/
def Diagnostic.objectBelowZero (target : Handle) (o : Object) : Diagnostic :=
  ⟨.hostOverRelease, .objectBelowZero target o.classId o.count⟩

/-- An ordinary release at zero or below is the fault of the host if the host
has held the object, and of the engine otherwise. -/
def Diagnostic.surplusRelease (target : Handle) (o : Object) : Diagnostic :=
  ⟨if o.adopted then .hostOverRelease else .engineDoubleFree,
    .surplusRelease target o.classId o.count⟩

def Diagnostic.contextGone (context : ContextId) : Diagnostic :=
  ⟨.staleContext, .contextGone context⟩

end CountedHeap
