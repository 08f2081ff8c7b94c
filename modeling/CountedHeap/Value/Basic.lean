import CountedHeap.Value.Word

/-!
Values: an immediate word, or a reference to an object of the heap. A handle is
the place of an object in the order of allocation. It is never given out again,
so a handle to an object that is gone names nothing else.
-/

namespace CountedHeap

/-- The identity of an object: how many objects were allocated before it. -/
abbrev Handle := Nat

inductive Value
  | immediate (word : Word)
  | reference (target : Handle)
  deriving DecidableEq, Repr

instance : Inhabited Value := ⟨.immediate Word.null⟩

def Value.null : Value := .immediate Word.null
def Value.undefined : Value := .immediate Word.undefined
def Value.exception : Value := .immediate Word.exception

/-- The object that a value refers to. -/
def Value.handle? : Value → Option Handle
  | .immediate _ => none
  | .reference h => some h

def Value.isReference (v : Value) : Bool :=
  v.handle?.isSome

def Value.isUndefined : Value → Bool
  | .immediate w => w.isUndefined
  | .reference _ => false

end CountedHeap
