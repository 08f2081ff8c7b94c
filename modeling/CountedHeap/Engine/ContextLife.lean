import CountedHeap.Engine.Making

/-!
The life of contexts. A context is opened with one reference on itself, may be
shared, and is closed when as many are given back. Closing gives back what the
context owns. The values that the host registered on it are the exception: one
that is down to its last reference is left for the collector to judge.
-/

namespace CountedHeap

/-- The most prototypes that a context has slots for: one for each class id. -/
def prototypeSlotLimit : Nat := 256

/-- The number of prototypes of a context for which `requested` are asked: at
least those of the built-in classes. -/
def prototypeSlots (requested : Nat) : Nat :=
  min (max requested builtinClassCount) prototypeSlotLimit

/-- Makes `n` more prototypes on top of the object prototype `base`. At the first
refusal all that were made are given back. -/
def Engine.makePrototypes (e : Engine) (base : Value) (made : Array Value) :
    Nat → Except Refusal (Array Value) × Engine
  | 0 => (.ok made, e)
  | n + 1 =>
    match e.makePlain base with
    | (.ok proto, e) => e.makePrototypes base (made.push proto) n
    | (.error refusal, e) => (.error refusal, e.releaseAll made.toList)

/-- Makes the global object of a context with these prototypes, and the context. Its
id is the number of contexts before it, as far as that fits. -/
def Engine.makeContext (e : Engine) (base : Value) (prototypes : Array Value) :
    Except Refusal ContextId × Engine :=
  match e.allocateWithProto base ClassId.global (.plain base []) with
  | (.error refusal, e) => (.error refusal, e.releaseAll prototypes.toList)
  | (.ok global, e) =>
    (.ok (.ofNat e.contexts.size),
      { e with
        contexts := e.contexts.push
          ⟨.ofNat e.contexts.size, .active, 1, global, prototypes, #[]⟩ })

/-- Opens a context with slots for the prototypes of `requested` classes. -/
def Engine.openContext (e : Engine) (requested : Nat) : Except Refusal ContextId × Engine :=
  if e.isClosed then
    (.error .shutDown, e)
  else
    match e.makePlain Value.null with
    | (.error refusal, e) => (.error refusal, e)
    | (.ok base, e) =>
      match e.makePrototypes base #[base] (prototypeSlots requested - 1) with
      | (.error refusal, e) => (.error refusal, e)
      | (.ok prototypes, e) => e.makeContext base prototypes

/-- The phase of a context, if there ever was one of that id. -/
def Engine.contextPhase? (e : Engine) (c : ContextId) : Option ContextPhase :=
  e.contexts[c.toNat]?.map (·.phase)

def Engine.updateContext (e : Engine) (c : ContextId) (f : Context → Context) : Engine :=
  { e with contexts := e.contexts.modify c.toNat f }

/-- Notes that an operation named a context that is not active. -/
def Engine.recordStale (e : Engine) (c : ContextId) : Engine :=
  e.record (.contextGone c)

/-- One more reference on a context. -/
def Engine.shareContext (e : Engine) (c : ContextId) : Engine :=
  match e.activeContext c with
  | .ok ctx =>
    (e.checkCount (ctx.count + 1)).updateContext c fun ctx =>
      { ctx with count := wrapCount (ctx.count + 1) }
  | .error _ => e.recordStale c

/-- Notes that the reference of a registration is not given back. -/
def Engine.leaveBehind (e : Engine) (v : Value) : Engine :=
  match v.handle? with
  | some h => { e with leftovers := e.leftovers.push ⟨h, e.isLive v, e.countOf v⟩ }
  | none => e

/-- Gives back the reference of one registration, unless the value is gone or
that reference is its last. -/
def Engine.releaseRegistered (e : Engine) (v : Value) : Engine :=
  if e.isLive v && decide (1 < e.countOf v) then e.release v else e.leaveBehind v

/-- The context owns nothing any more. -/
def Context.emptied (ctx : Context) : Context :=
  { ctx with phase := .closing, global := Value.null, prototypes := #[], registered := #[] }

/-- Closes an open context. -/
def Engine.tearDown (e : Engine) (c : ContextId) : Engine :=
  match e.contexts[c.toNat]? with
  | none => e
  | some ctx =>
    if ctx.isOpen then
      let e := e.updateContext c Context.emptied
      let e := ctx.registered.foldl Engine.releaseRegistered e
      let e := (e.release ctx.global).releaseAll ctx.prototypes.toList
      e.updateContext c fun ctx => { ctx with phase := .freed }
    else
      e

/-- Does what was decided for a context. -/
def Engine.settle (e : Engine) (c : ContextId) : Decision → Engine
  | .defer => e
  | .proceed => e.tearDown c
  | .tolerate d => (e.record d).tearDown c

/-- Gives back one reference on a context, and closes it if that was the last. -/
def Engine.leaveContext (e : Engine) (c : ContextId) : Decision × Engine :=
  match e.activeContext c with
  | .error _ => (.tolerate (.contextGone c), e.recordStale c)
  | .ok ctx =>
    let count := wrapCount (ctx.count - 1)
    let e := (e.checkCount (ctx.count - 1)).updateContext c fun ctx => { ctx with count := count }
    let decision := Decision.make c count .release
    (decision, e.settle c decision)

end CountedHeap
