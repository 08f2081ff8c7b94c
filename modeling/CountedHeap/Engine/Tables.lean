import CountedHeap.Engine.Allocate
import CountedHeap.Text.Numeral

/-!
Own properties. Objects keep a table of properties in the order in which the
keys were first stored; arrays keep their elements under the keys that are
their indices. The module first says what reading and storing do to a payload,
and then what they do to the references involved: a stored value owns one, a
value read is given with one of its own, and a displaced value loses one after
it has left the payload, since that may end the object that was written.
-/

namespace CountedHeap

/-! ### Tables and elements -/

/-- The index that a key stands for in an array. A numeral with a leading zero
is no index, unless it is zero itself. -/
def elementIndex? (key : String) : Option Nat :=
  match key.toList with
  | '0' :: _ :: _ => none
  | text => wordNumeral? text

/-- The value under a key in a table. -/
def findKey? (table : List Property) (key : String) : Option Value :=
  (table.find? (·.key == key)).map (·.value)

/-- A table with `v` under `key`, in the place that the key has, or at the end. -/
def storeKey (key : String) (v : Value) : List Property → List Property
  | [] => [⟨key, v⟩]
  | p :: table => if p.key == key then ⟨key, v⟩ :: table else p :: storeKey key v table

/-- A table without `key`. -/
def eraseKey (key : String) (table : List Property) : List Property :=
  table.eraseP (·.key == key)

theorem findKey?_storeKey (key other : String) (v : Value) (table : List Property) :
    findKey? (storeKey key v table) other =
      if other = key then some v else findKey? table other := by
  induction table with
  | nil =>
    by_cases same : other = key
    · simp [findKey?, storeKey, same]
    · simp [findKey?, storeKey, same, Ne.symm same]
  | cons p table ih =>
    simp only [findKey?, storeKey] at ih ⊢
    by_cases here : p.key = key
    · by_cases same : other = key
      · simp [here, same]
      · simp [here, same, Ne.symm same]
    · by_cases found : p.key = other
      · have differ : other ≠ key := fun same => here (found.trans same)
        simp [found, differ]
      · simpa [here, found] using ih

/-- A key that was there stays in its place, and a new one comes last. -/
theorem keys_storeKey (key : String) (v : Value) (table : List Property) :
    (storeKey key v table).map (·.key) =
      if key ∈ table.map (·.key) then table.map (·.key) else table.map (·.key) ++ [key] := by
  induction table with
  | nil => simp [storeKey]
  | cons p table ih =>
    by_cases here : p.key = key
    · simp [storeKey, here]
    · simp only [storeKey, beq_iff_eq, here, if_false, List.map_cons, ih, List.mem_cons,
        Ne.symm here, false_or]
      split <;> simp

/-- The value that a payload holds under a key. The length of an array is not
held: it is made when asked for. -/
def Payload.find? (p : Payload) (key : String) : Option Value :=
  match p with
  | .array _ items => (elementIndex? key).bind (items[·]?)
  | p => findKey? p.properties key

/-- What storing under a key would do. -/
inductive Placement
  | replaces (old : Value)
  | extends (bytes : Nat)
  deriving DecidableEq, Repr

/-- Whether and how a payload takes a value under a key. An array takes its
indices and, as the next one, its length. -/
def Payload.placement? (p : Payload) (key : String) : Option Placement :=
  match p with
  | .array _ items =>
    match elementIndex? key with
    | none => none
    | some i =>
      match items[i]? with
      | some old => some (.replaces old)
      | none => if i = items.size then some (.extends elementSize) else none
  | p =>
    if p.hasTable then
      match findKey? p.properties key with
      | some old => some (.replaces old)
      | none => some (.extends (propertySize key))
    else
      none

/-- A table takes every key. -/
theorem Payload.placement?_of_table {p : Payload} {key : String} (hp : p.hasTable = true) :
    p.placement? key = some
      ((findKey? p.properties key).elim (.extends (propertySize key)) .replaces) := by
  cases p <;> simp only [Payload.hasTable, Bool.false_eq_true] at hp <;>
    (simp only [Payload.placement?, Payload.hasTable, if_true]
     cases findKey? _ key <;> rfl)

/-- A payload with `v` under `key`, where it takes it. -/
def Payload.store (key : String) (v : Value) : Payload → Payload
  | .array proto items =>
    match elementIndex? key with
    | none => .array proto items
    | some i => if i = items.size then .array proto (items.push v)
      else .array proto (items.setIfInBounds i v)
  | p => p.setProperties (storeKey key v p.properties)

/-- An array with one more element. -/
def Payload.append (v : Value) : Payload → Payload
  | .array proto items => .array proto (items.push v)
  | p => p

def Payload.isArray : Payload → Bool
  | .array .. => true
  | _ => false

/-- The keys in order; those of an array are its indices. -/
def Payload.keys : Payload → List String
  | .array _ items => (List.range items.size).map toString
  | p => p.properties.map (·.key)

/-- The length of an array as a value, in which only 31 bits of it fit. -/
def Payload.length? : Payload → Option Value
  | .array _ items => some (.immediate (Word.ofInt items.size))
  | _ => none

/-! ### Properties of objects -/

/-- The payload of an object is charged with `n` more bytes. -/
def Engine.grow (e : Engine) (n : Nat) : Engine :=
  { e with heap := e.heap.grow n }

/-- The payload of an object is charged with `n` bytes less. -/
def Engine.shrink (e : Engine) (n : Nat) : Engine :=
  { e with heap := e.heap.shrink n }

/-- Changes the payload of the object that a value refers to. -/
def Engine.updatePayload (e : Engine) (v : Value) (f : Payload → Payload) : Engine :=
  match v.handle? with
  | some h => e.updateObject h fun o => { o with payload := f o.payload }
  | none => e

/-- Stores `v` under a key and takes over the caller's reference on it. Where
the target does not take it, that reference is given back. -/
def Engine.store (e : Engine) (target : Value) (key : String) (v : Value) :
    Except Refusal Unit × Engine :=
  match (e.object? target).bind (·.payload.placement? key) with
  | none => (.error .notAnObject, e.release v)
  | some (.replaces old) => (.ok (), (e.updatePayload target (Payload.store key v)).release old)
  | some (.extends n) => (.ok (), (e.updatePayload target (Payload.store key v)).grow n)

/-- A new reference to the value under a key, or `undefined`. An array also
answers its length. -/
def Engine.fetch (e : Engine) (target : Value) (key : String) : Value × Engine :=
  match e.object? target with
  | none => (Value.undefined, e)
  | some o =>
    match o.payload.length?, key == "length" with
    | some n, true => (n, e)
    | _, _ =>
      match o.payload.find? key with
      | some v => (v, e.retain v)
      | none => (Value.undefined, e)

/-- Removes a key from a table and tells whether it was there. -/
def Engine.erase (e : Engine) (target : Value) (key : String) : Bool × Engine :=
  match (e.object? target).bind (findKey? ·.payload.properties key) with
  | none => (false, e)
  | some old =>
    let e := e.updatePayload target fun p => p.setProperties (eraseKey key p.properties)
    (true, (e.shrink (propertySize key)).release old)

/-- Appends to an array and takes over the caller's reference on `v`. -/
def Engine.append (e : Engine) (target v : Value) : Except Refusal Unit × Engine :=
  if (e.object? target).any (·.payload.isArray) then
    (.ok (), (e.updatePayload target (Payload.append v)).grow elementSize)
  else
    (.error .notAnObject, e.release v)

/-- The prototype of an object, with no reference of its own. -/
def Engine.protoOf (e : Engine) (target : Value) : Value :=
  match e.object? target with
  | some o => o.payload.proto
  | none => Value.null

/-- The keys of an object in order. -/
def Engine.keysOf (e : Engine) (target : Value) : List String :=
  match e.object? target with
  | some o => o.payload.keys
  | none => []

/-- Whether a value refers to an object of a class that carries properties. -/
def Engine.carriesProperties (e : Engine) (v : Value) : Bool :=
  (e.object? v).any (·.objectClass.carriesProperties)

/-! ### Key tables

The keys of an object as strings on the heap. -/

/-- One entry of a key table; it owns one reference on its string. -/
structure KeyEntry where
  isEnumerable : Bool
  atom : Value
  deriving DecidableEq, Repr

def Engine.makeString (e : Engine) (text : String) : Except Refusal Value × Engine :=
  e.allocate ClassId.string (.string text)

/-- Gives back the strings of a key table. -/
def Engine.dropKeyTable (e : Engine) (table : List KeyEntry) : Engine :=
  e.releaseAll (table.map (·.atom))

/-- Makes strings of keys, after those of `made`. At the first refusal all that
were made are given back. -/
def Engine.makeKeyTable (e : Engine) (made : Array KeyEntry) :
    List String → Option (List KeyEntry) × Engine
  | [] => (some made.toList, e)
  | key :: rest =>
    match e.makeString key with
    | (.ok atom, e) => e.makeKeyTable (made.push ⟨true, atom⟩) rest
    | (.error _, e) => (none, e.dropKeyTable made.toList)

/-- The key table of an object. -/
def Engine.keyTableOf (e : Engine) (target : Value) : Option (List KeyEntry) × Engine :=
  e.makeKeyTable #[] (e.keysOf target)

end CountedHeap
