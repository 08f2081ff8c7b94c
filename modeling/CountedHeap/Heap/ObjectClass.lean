/-!
Object classes. A class is one byte in the header of an object. The ids below
`builtinClassCount` are the engine's own; all others belong to the host, which
may attach a finalizer to each.
-/

namespace CountedHeap

abbrev ClassId := UInt8

/-- What a class id stands for. -/
inductive ObjectClass
  | object
  | array
  | function
  | string
  | number
  | global
  | host
  deriving DecidableEq, Repr

def ClassId.object : ClassId := 0
def ClassId.array : ClassId := 1
def ClassId.function : ClassId := 2
def ClassId.string : ClassId := 3
def ClassId.number : ClassId := 4
def ClassId.global : ClassId := 5

/-- The number of classes that are the engine's own, and the first host id. -/
def builtinClassCount : Nat := 6

/-- Every id stands for some class: all ids past the built-in ones are host
classes. -/
def ObjectClass.ofId (id : ClassId) : ObjectClass :=
  match id with
  | 0 => .object
  | 1 => .array
  | 2 => .function
  | 3 => .string
  | 4 => .number
  | 5 => .global
  | _ => .host

def ClassId.isHost (id : ClassId) : Bool :=
  builtinClassCount ≤ id.toNat

/-- Strings and boxed numbers carry no properties. -/
def ObjectClass.carriesProperties : ObjectClass → Bool
  | .string | .number => false
  | _ => true

theorem ClassId.isHost_iff (id : ClassId) :
    id.isHost = true ↔ ObjectClass.ofId id = .host := by
  have all : ∀ i : Fin 256, ClassId.isHost (UInt8.ofFin i) = true ↔
      ObjectClass.ofId (UInt8.ofFin i) = .host := by decide +kernel
  exact all id.toFin

end CountedHeap
