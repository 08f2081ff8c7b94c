import CountedHeap.Engine.Tables

/-!
Constructors. Each takes one more reference on the prototype it is given and
hands over a new object with one reference on itself, or is refused and leaves
the counts as they were. The constructors in the second half take the prototype
from a context.
-/

namespace CountedHeap

/-! ### With a prototype -/

/-- A new object with a payload that contains the prototype. -/
def Engine.allocateWithProto (e : Engine) (proto : Value) (classId : ClassId) (payload : Payload) :
    Except Refusal Value × Engine :=
  (e.retain proto).allocate classId payload

/-- A new empty object of a class. Strings and numbers are not made this way. -/
def Engine.makeWithProto (e : Engine) (proto : Value) (classId : ClassId) :
    Except Refusal Value × Engine :=
  match Payload.empty? (ObjectClass.ofId classId) proto with
  | some payload => e.allocateWithProto proto classId payload
  | none => (.error (.invalidClass classId), e)

def Engine.makePlain (e : Engine) (proto : Value) : Except Refusal Value × Engine :=
  e.makeWithProto proto ClassId.object

/-- A new array that takes over the caller's references on its elements. -/
def Engine.makeArray (e : Engine) (proto : Value) (items : Array Value) :
    Except Refusal Value × Engine :=
  e.allocateWithProto proto ClassId.array (.array proto items)

def Engine.makeFunction (e : Engine) (name : String) (proto : Value) :
    Except Refusal Value × Engine :=
  e.allocateWithProto proto ClassId.function (.function proto name [])

/-- A new object of a host class, with the host's cookie. -/
def Engine.makeHost (e : Engine) (proto : Value) (classId : ClassId) (cookie : UInt64) :
    Except Refusal Value × Engine :=
  if classId.isHost then
    e.allocateWithProto proto classId (.host proto [] cookie)
  else
    (.error (.invalidClass classId), e)

/-! ### Numbers and strings -/

/-- A number on the heap. -/
def Engine.boxNumber (e : Engine) (d : Binary64) : Except Refusal Value × Engine :=
  e.allocate ClassId.number (.number d)

/-- A number as an immediate where it has such an encoding, else on the heap. -/
def Engine.makeNumber (e : Engine) (d : Binary64) : Except Refusal Value × Engine :=
  match Word.ofNumber? d with
  | some w => (.ok (.immediate w), e)
  | none => e.boxNumber d

/-- The double that a value stands for. -/
def Engine.number? (e : Engine) (v : Value) : Option Binary64 :=
  match v with
  | .immediate w => w.number?
  | .reference h => (e.heap.object? h).bind (·.payload.number?)

/-- The text of a string. -/
def Engine.string? (e : Engine) (v : Value) : Option String :=
  (e.object? v).bind (·.payload.string?)

/-! ### In a context -/

/-- An active context. Contexts that are freed, and ids that were never given
out, are refused alike. -/
def Engine.activeContext (e : Engine) (c : ContextId) : Except Refusal Context :=
  match e.contexts[c.toNat]? with
  | some ctx => if ctx.phase = .active then .ok ctx else .error (.contextFreed c)
  | none => .error (.contextFreed c)

/-- The prototype that a context has for a class, with no reference of its own.
Host classes without a slot have none. -/
def Engine.protoFor (e : Engine) (c : ContextId) (classId : ClassId) : Except Refusal Value :=
  match e.activeContext c with
  | .error refusal => .error refusal
  | .ok ctx =>
    match ctx.prototypes[classId.toNat]? with
    | some proto => .ok proto
    | none => if classId.isHost then .ok Value.null else .error (.invalidClass classId)

/-- A new reference to the global object of a context. -/
def Engine.globalOf (e : Engine) (c : ContextId) : Except Refusal Value × Engine :=
  match e.activeContext c with
  | .ok ctx => (.ok ctx.global, e.retain ctx.global)
  | .error refusal => (.error refusal, e)

/-- A new reference to the prototype that a context has for a class. -/
def Engine.takeProto (e : Engine) (c : ContextId) (classId : ClassId) :
    Except Refusal Value × Engine :=
  match e.protoFor c classId with
  | .ok proto => (.ok proto, e.retain proto)
  | .error refusal => (.error refusal, e)

/-- A new object of a class with the context's prototype for it. -/
def Engine.makeOfClass (e : Engine) (c : ContextId) (classId : ClassId) :
    Except Refusal Value × Engine :=
  match e.protoFor c classId with
  | .ok proto => e.makeWithProto proto classId
  | .error refusal => (.error refusal, e)

def Engine.makeObjectIn (e : Engine) (c : ContextId) : Except Refusal Value × Engine :=
  e.makeOfClass c ClassId.object

def Engine.makeArrayIn (e : Engine) (c : ContextId) : Except Refusal Value × Engine :=
  e.makeOfClass c ClassId.array

/-- A new function with the context's prototype for functions. -/
def Engine.makeFunctionIn (e : Engine) (c : ContextId) (name : String) :
    Except Refusal Value × Engine :=
  match e.takeProto c ClassId.function with
  | (.error refusal, e) => (.error refusal, e)
  | (.ok proto, e) =>
    match e.makeFunction name proto with
    | (made, e) => (made, e.release proto)

/-- A new object as a constructor makes it: its prototype is the object under
`prototype` in the constructor, or the context's prototype for the class where
there is no constructor or that is not an object. -/
def Engine.construct (e : Engine) (c : ContextId) (constructor : Value) (classId : ClassId) :
    Except Refusal Value × Engine :=
  match e.activeContext c with
  | .error refusal => (.error refusal, e)
  | .ok _ =>
    if constructor.isUndefined then
      e.makeOfClass c classId
    else
      match e.fetch constructor "prototype" with
      | (proto, e) =>
        if e.carriesProperties proto then
          match e.makeWithProto proto classId with
          | (made, e) => (made, e.release proto)
        else
          (e.release proto).makeOfClass c classId

end CountedHeap
