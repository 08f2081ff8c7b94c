import CountedHeap.Engine.Shutdown

/-!
The operations of an engine as data, so that one can speak of a whole run: what
a host may ask for, what it is answered, and what a list of requests does to an
engine. A host promises to pass only values that are immediates or name objects
that are live or parked. A request that breaks the promise is carried out all
the same, as if the object had nothing to it, and the engine notes it.
-/

namespace CountedHeap

/-- A request to an engine. -/
inductive Action
  /- contexts -/
  | openContext (slots : Nat)
  | shareContext (c : ContextId)
  | leaveContext (c : ContextId)
  | contextPhase (c : ContextId)
  | context (c : ContextId)
  /- constructors -/
  | globalOf (c : ContextId)
  | takeProto (c : ContextId) (classId : ClassId)
  | makeObjectIn (c : ContextId)
  | makeArrayIn (c : ContextId)
  | makeOfClass (c : ContextId) (classId : ClassId)
  | makeWithProto (proto : Value) (classId : ClassId)
  | construct (c : ContextId) (constructor : Value) (classId : ClassId)
  | makePlain (proto : Value)
  | makeArray (proto : Value) (items : Array Value)
  | makeFunction (name : String) (proto : Value)
  | makeFunctionIn (c : ContextId) (name : String)
  | makeHost (proto : Value) (classId : ClassId) (cookie : UInt64)
  | makeString (text : String)
  | boxNumber (d : Binary64)
  | makeNumber (d : Binary64)
  /- reading -/
  | number (v : Value)
  | string (v : Value)
  | carriesProperties (v : Value)
  /- properties -/
  | store (target : Value) (key : String) (v : Value)
  | fetch (target : Value) (key : String)
  | erase (target : Value) (key : String)
  | append (target v : Value)
  | protoOf (target : Value)
  | keysOf (target : Value)
  | keyTableOf (target : Value)
  | dropKeyTable (table : List KeyEntry)
  /- counts -/
  | retain (v : Value)
  | release (v : Value)
  | countOf (v : Value)
  | adopt (v : Value)
  | relinquish (v : Value)
  | hold (v : Value)
  | letGo (held : Hold)
  | register (c : ContextId) (v : Value)
  | unregister (c : ContextId) (v : Value)
  | isLive (v : Value)
  | isParked (v : Value)
  /- the engine -/
  | collect
  | limitMemory (limit : Option Nat)
  | setThreshold (threshold : Nat)
  | limits
  | isClosed
  | setFinalizer (classId : ClassId) (f : Option Finalizer)
  | flushDiagnostics
  | shutdown
  deriving Repr

/-- The values that a request passes and that must be valid. Whether an object
is live or parked may be asked of any value. -/
def Action.arguments : Action → List Value
  | .makeWithProto proto _ => [proto]
  | .construct _ constructor _ => [constructor]
  | .makePlain proto => [proto]
  | .makeArray proto items => proto :: items.toList
  | .makeFunction _ proto => [proto]
  | .makeHost proto _ _ => [proto]
  | .number v => [v]
  | .string v => [v]
  | .carriesProperties v => [v]
  | .store target _ v => [target, v]
  | .fetch target _ => [target]
  | .erase target _ => [target]
  | .append target v => [target, v]
  | .protoOf target => [target]
  | .keysOf target => [target]
  | .keyTableOf target => [target]
  | .dropKeyTable table => table.map (·.atom)
  | .retain v => [v]
  | .release v => [v]
  | .countOf v => [v]
  | .adopt v => [v]
  | .relinquish v => [v]
  | .hold v => [v]
  | .letGo held => [held.value]
  | .register _ v => [v]
  | .unregister _ v => [v]
  | _ => []

/-- The answer to a request. -/
inductive Answer
  | done
  | flag (b : Bool)
  | freed (objects : Nat)
  | count (n : Int)
  | value (v : Value)
  | number (d : Option Binary64)
  | string (text : Option String)
  | keys (keys : List String)
  | keyTable (table : Option (List KeyEntry))
  | held (h : Hold)
  | contextId (c : ContextId)
  | contextPhase (phase : Option ContextPhase)
  | context (ctx : Context)
  | decision (d : Decision)
  | limits (l : Limits)
  | diagnostics (ds : List Diagnostic)
  | report (r : FinalReport)
  | refused (r : Refusal)
  deriving Repr

/-- An answer out of the result of an operation that may be refused. -/
def answered {α : Type} (answer : α → Answer) : Except Refusal α × Engine → Answer × Engine
  | (.ok a, e) => (answer a, e)
  | (.error r, e) => (.refused r, e)

theorem snd_answered {α : Type} {answer : α → Answer} {r : Except Refusal α × Engine} :
    (answered answer r).2 = r.2 := by
  rcases r with ⟨_ | _, _⟩ <;> rfl

/-- Carries out a request. -/
def Engine.carryOut (e : Engine) : Action → Answer × Engine
  | .openContext slots => answered .contextId (e.openContext slots)
  | .shareContext c => (.done, e.shareContext c)
  | .leaveContext c => (e.leaveContext c).map .decision id
  | .contextPhase c => (.contextPhase (e.contextPhase? c), e)
  | .context c => answered .context (e.activeContext c, e)
  | .globalOf c => answered .value (e.globalOf c)
  | .takeProto c classId => answered .value (e.takeProto c classId)
  | .makeObjectIn c => answered .value (e.makeObjectIn c)
  | .makeArrayIn c => answered .value (e.makeArrayIn c)
  | .makeOfClass c classId => answered .value (e.makeOfClass c classId)
  | .makeWithProto proto classId => answered .value (e.makeWithProto proto classId)
  | .construct c constructor classId => answered .value (e.construct c constructor classId)
  | .makePlain proto => answered .value (e.makePlain proto)
  | .makeArray proto items => answered .value (e.makeArray proto items)
  | .makeFunction name proto => answered .value (e.makeFunction name proto)
  | .makeFunctionIn c name => answered .value (e.makeFunctionIn c name)
  | .makeHost proto classId cookie => answered .value (e.makeHost proto classId cookie)
  | .makeString text => answered .value (e.makeString text)
  | .boxNumber d => answered .value (e.boxNumber d)
  | .makeNumber d => answered .value (e.makeNumber d)
  | .number v => (.number (e.number? v), e)
  | .string v => (.string (e.string? v), e)
  | .carriesProperties v => (.flag (e.carriesProperties v), e)
  | .store target key v => answered (fun _ => .done) (e.store target key v)
  | .fetch target key => (e.fetch target key).map .value id
  | .erase target key => (e.erase target key).map .flag id
  | .append target v => answered (fun _ => .done) (e.append target v)
  | .protoOf target => (.value (e.protoOf target), e)
  | .keysOf target => (.keys (e.keysOf target), e)
  | .keyTableOf target => (e.keyTableOf target).map .keyTable id
  | .dropKeyTable table => (.done, e.dropKeyTable table)
  | .retain v => (.value v, e.retain v)
  | .release v => (.done, e.release v)
  | .countOf v => (.count (e.countOf v), e)
  | .adopt v => (.done, e.adopt v)
  | .relinquish v => (e.relinquish v).map .count id
  | .hold v => (e.hold v).map .held id
  | .letGo held => (e.letGo held).map .count id
  | .register c v => answered (fun _ => .done) (e.register c v)
  | .unregister c v => (e.unregister c v).map .flag id
  | .isLive v => (.flag (e.isLive v), e)
  | .isParked v => (.flag (e.isParked v), e)
  | .collect => e.collect.map .freed id
  | .limitMemory limit => (.done, e.limitMemory limit)
  | .setThreshold threshold => (.done, e.setThreshold threshold)
  | .limits => (.limits e.limits, e)
  | .isClosed => (.flag e.isClosed, e)
  | .setFinalizer classId f => answered (fun _ => .done) (e.setFinalizer classId f)
  | .flushDiagnostics => e.flushDiagnostics.map .diagnostics id
  | .shutdown => e.shutdown.map .report id

/-- Carries out a request, and notes first if it passes an object that is gone. -/
def Engine.perform (e : Engine) (a : Action) : Answer × Engine :=
  (if a.arguments.all e.isValid then e else e.stray).carryOut a

/-- Carries out requests one after the other. -/
def Engine.run (e : Engine) : List Action → List Answer × Engine
  | [] => ([], e)
  | a :: rest =>
    match e.perform a with
    | (answer, e) => (e.run rest).map (answer :: ·) id

end CountedHeap
