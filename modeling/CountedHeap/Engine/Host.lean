import CountedHeap.Engine.ContextLife

/-!
References that the host holds on its own account. It may adopt an object,
relinquish it more often than it adopted it, and register values on a context
for as long as that context is open. None of this fails. An object that is
relinquished below zero is parked, and its count goes on downwards.
-/

namespace CountedHeap

/-- From now on the host is known to have held the object. -/
def Object.adopt (o : Object) : Object :=
  { o with adopted := true }

/-- Takes a reference for the host. -/
def Engine.adopt (e : Engine) (v : Value) : Engine :=
  match v.handle? with
  | some h => (e.updateObject h Object.adopt).addReference h
  | none => e

/-- The object lost a reference of the host and has `count` left. It is released
if none is left, and below zero the host gave back too much. -/
def Engine.afterRelinquish (e : Engine) (h : Handle) (o : Object) : Engine :=
  if o.count = 0 then e.queueZero h
  else if o.count < 0 then e.record (.objectBelowZero h o)
  else e

/-- Gives back a reference of the host, whether it holds one or not, and tells
the count that is left. -/
def Engine.relinquish (e : Engine) (v : Value) : Int × Engine :=
  match v.handle? with
  | none => (0, e)
  | some h =>
    match e.heap.object? h with
    | none => (0, e.stray)
    | some o =>
      let left : Object := { o.adopt with count := wrapCount (o.count - 1) }
      let e := (e.checkCount (o.count - 1)).updateObject h fun o =>
        { o.adopt with count := left.count }
      (left.count, e.afterRelinquish h left)

/-- One adopted reference, to be handed back once. -/
structure Hold where
  value : Value
  deriving DecidableEq, Repr

/-- Adopts a value and gives a hold on it. -/
def Engine.hold (e : Engine) (v : Value) : Hold × Engine :=
  (⟨v⟩, e.adopt v)

/-- Hands a hold back. -/
def Engine.letGo (e : Engine) (held : Hold) : Int × Engine :=
  e.relinquish held.value

/-! ### Registered values -/

/-- Registers a value on a context, with a reference that the context will give
back. A closing context takes no more, and immediates need no registration. -/
def Engine.register (e : Engine) (c : ContextId) (v : Value) : Except Refusal Unit × Engine :=
  match e.contextPhase? c with
  | some .active =>
    if v.isReference then
      (.ok (), (e.retain v).updateContext c fun ctx =>
        { ctx with registered := ctx.registered.push v })
    else
      (.ok (), e)
  | some .closing => (.ok (), e)
  | _ => (.error (.contextFreed c), e)

/-- Removes the entry at a place and puts the last one there. -/
def removeSwap {α : Type} (xs : Array α) (i : Nat) : Array α :=
  match xs.back? with
  | some last => (xs.setIfInBounds i last).pop
  | none => xs

/-- The last place at which a value stands. -/
def lastPlace? {α : Type} [BEq α] (xs : Array α) (a : α) : Option Nat :=
  (xs.reverse.finIdxOf? a).map fun i => xs.size - 1 - i

/-- Takes back the latest registration of a value, with its reference, and tells
whether there was one. -/
def Engine.unregister (e : Engine) (c : ContextId) (v : Value) : Bool × Engine :=
  match e.activeContext c with
  | .error _ => (false, e)
  | .ok ctx =>
    match lastPlace? ctx.registered v with
    | none => (false, e)
    | some i =>
      let e := e.updateContext c fun ctx => { ctx with registered := removeSwap ctx.registered i }
      (true, e.release v)

end CountedHeap
