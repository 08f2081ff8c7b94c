import CountedHeap.Heap.ObjectClass
import CountedHeap.Value.Basic

/-!
What an object holds. Each value in a payload owns one reference on its object,
if it names one. The module gives the two views of a payload that the rest of
the library works with: the values it holds, in order, and the bytes it is
accounted for.
-/

namespace CountedHeap

/-- A named value of an object. -/
structure Property where
  key : String
  value : Value
  deriving DecidableEq, Repr

/-- The content of an object. A host object also holds the word `cookie`, which
the host put there and gets back when the object is finalized. -/
inductive Payload
  | plain (proto : Value) (properties : List Property)
  | array (proto : Value) (items : Array Value)
  | function (proto : Value) (name : String) (properties : List Property)
  | string (text : String)
  | number (value : Binary64)
  | host (proto : Value) (properties : List Property) (cookie : UInt64)
  | released
  deriving DecidableEq, Repr

instance : Inhabited Payload := ⟨.released⟩

/-! ### Sizes

The accounting does not follow what a payload really takes up. It charges fixed
sizes, which are those of a machine with 8-byte words. -/

/-- The bytes charged for the header of an object. -/
def headerSize : Nat := 88

/-- The bytes charged for one array element. -/
def elementSize : Nat := 8

/-- The bytes charged for one property with that key. -/
def propertySize (key : String) : Nat :=
  24 + key.utf8ByteSize

/-- The bytes charged for a list of properties. -/
def propertiesSize (properties : List Property) : Nat :=
  properties.foldr (fun p total => propertySize p.key + total) 0

def Payload.size : Payload → Nat
  | .plain _ properties => propertiesSize properties
  | .array _ items => items.size * elementSize
  | .function _ name properties => name.utf8ByteSize + propertiesSize properties
  | .string text => text.utf8ByteSize
  | .number _ => 0
  | .host _ properties _ => propertiesSize properties
  | .released => 0

/-! ### The values held -/

/-- Every value that the payload holds, the prototype first. -/
def Payload.values : Payload → List Value
  | .plain proto properties => proto :: properties.map (·.value)
  | .array proto items => proto :: items.toList
  | .function proto _ properties => proto :: properties.map (·.value)
  | .string _ => []
  | .number _ => []
  | .host proto properties _ => proto :: properties.map (·.value)
  | .released => []

/-- The objects that the payload owns references on, once for each reference. -/
def Payload.owned (p : Payload) : List Handle :=
  p.values.filterMap Value.handle?

def Payload.proto : Payload → Value
  | .plain proto _ => proto
  | .array proto _ => proto
  | .function proto _ _ => proto
  | .host proto _ _ => proto
  | _ => Value.null

def Payload.properties : Payload → List Property
  | .plain _ properties => properties
  | .function _ _ properties => properties
  | .host _ properties _ => properties
  | _ => []

/-- Whether the payload has a property table. Arrays have elements instead. -/
def Payload.hasTable : Payload → Bool
  | .plain .. => true
  | .function .. => true
  | .host .. => true
  | _ => false

/-- The same payload with another property table, where it has one. -/
def Payload.setProperties (table : List Property) : Payload → Payload
  | .plain proto _ => .plain proto table
  | .function proto name _ => .function proto name table
  | .host proto _ cookie => .host proto table cookie
  | p => p

/-- The double in a boxed number. -/
def Payload.number? : Payload → Option Binary64
  | .number d => some d
  | _ => none

/-- The text in a string. -/
def Payload.string? : Payload → Option String
  | .string text => some text
  | _ => none

/-- The empty payload of a class that is made by giving a prototype. Strings
and numbers are not. -/
def Payload.empty? (c : ObjectClass) (proto : Value) : Option Payload :=
  match c with
  | .object | .global => some (.plain proto [])
  | .array => some (.array proto #[])
  | .function => some (.function proto "" [])
  | .host => some (.host proto [] 0)
  | .string | .number => none

@[simp] theorem Payload.owned_released : Payload.owned .released = [] := rfl

end CountedHeap
