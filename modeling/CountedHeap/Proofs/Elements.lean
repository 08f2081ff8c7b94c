import CountedHeap.Proofs.BridgeCounts
import CountedHeap.Proofs.Construction
import CountedHeap.Proofs.Numerals
import CountedHeap.Proofs.Upkeep

/-!
Arrays as lists of values. Under a key that stands for an index an array has the element
with that index. A store replaces an element, appends one at the end, and is refused
beyond it; nothing is ever erased. An element that is displaced is released once, when
the array holds the new one already. So there are several ways to build an array of
given values, and as long as nothing is collected on the way they all lead to the same
heap.
-/

namespace CountedHeap

/-- An array holds other elements from now on. -/
def Engine.setItems (e : Engine) (h : Handle) (proto : Value) (items : Array Value) : Engine :=
  e.updatePayload (.reference h) fun _ => .array proto items

/-- The elements after a store under an index. -/
def storedAt (items : Array Value) (i : Nat) (v : Value) : Array Value :=
  if i = items.size then items.push v else items.setIfInBounds i v

section

variable {e e' : Engine} {h : Handle} {o o' : Object} {key : String} {v old proto : Value}
  {items : Array Value} {i n : Nat}

/-! ### Elements under their keys -/

theorem toString_ne_length : toString i ≠ "length" := by
  intro same
  have digit : 'l'.isDigit = true := by
    refine Nat.isDigit_of_mem_toDigits (b := 10) (n := i) (by decide) (by decide) ?_
    rw [← toList_toString, same]
    decide
  cases digit

theorem Payload.find?_array : (Payload.array proto items).find? key =
    (elementIndex? key).bind (items[·]?) := rfl

theorem Engine.reads_of_array (live : e.heap.slot h = .live o)
    (array : o.payload = .array proto items) (other : key ≠ "length") :
    e.reads h key = ((elementIndex? key).bind (items[·]?)).getD Value.undefined := by
  rw [Engine.reads, Engine.fetch, Engine.object?_of_live live]
  simp only [array, Payload.length?, Payload.find?_array, beq_false_of_ne other]
  cases (elementIndex? key).bind (items[·]?) <;> rfl

theorem Engine.keysOf_of_array (live : e.heap.slot h = .live o)
    (array : o.payload = .array proto items) :
    e.keysOf (.reference h) = (List.range items.size).map toString := by
  rw [Engine.keysOf_of_live live, array, Payload.keys]

/-! ### Writing elements -/

theorem Payload.store_of_index (index : elementIndex? key = some i) (proto v : Value)
    (items : Array Value) :
    (Payload.array proto items).store key v = .array proto (storedAt items i v) := by
  rw [Payload.store, index, storedAt]
  dsimp only
  split <;> rfl

theorem Engine.updatePayload_eq_setItems {f : Payload → Payload} {items' : Array Value}
    (live : e.heap.slot h = .live o) (array : o.payload = .array proto items)
    (result : f (.array proto items) = .array proto items') :
    e.updatePayload (.reference h) f = e.setItems h proto items' :=
  Engine.updatePayload_congr live (by rw [array, result])

/-- The key of an element that is there. -/
theorem Engine.store_of_lt_size (live : e.heap.slot h = .live o)
    (array : o.payload = .array proto items) (index : elementIndex? key = some i)
    (found : items[i]? = some old) : e.store (.reference h) key v =
      (.ok (), (e.setItems h proto (items.setIfInBounds i v)).release old) := by
  have inside : i ≠ items.size := (Array.getElem?_eq_some_iff.1 found).1.ne
  have written := Engine.updatePayload_eq_setItems live array
    (Payload.store_of_index index proto v items)
  rw [storedAt, if_neg inside] at written
  rw [← written, Engine.store, Engine.object?_of_live live, Option.bind_some, array]
  simp only [Payload.placement?, index, found]

/-- The key of the place behind the last element. -/
theorem Engine.store_of_eq_size (live : e.heap.slot h = .live o)
    (array : o.payload = .array proto items) (index : elementIndex? key = some items.size) :
    e.store (.reference h) key v =
      (.ok (), (e.setItems h proto (items.push v)).grow elementSize) := by
  have written := Engine.updatePayload_eq_setItems live array
    (Payload.store_of_index index proto v items)
  rw [storedAt, if_pos rfl] at written
  rw [← written, Engine.store, Engine.object?_of_live live, Option.bind_some, array]
  simp [Payload.placement?, index]

/-- Any other key. -/
theorem Engine.store_of_no_place (live : e.heap.slot h = .live o)
    (array : o.payload = .array proto items)
    (outside : ∀ i, elementIndex? key = some i → items.size < i) :
    e.store (.reference h) key v = (.error .notAnObject, e.release v) := by
  rw [Engine.store, Engine.object?_of_live live, Option.bind_some, array]
  cases index : elementIndex? key with
  | none => simp only [Payload.placement?, index]
  | some i =>
      have beyond := outside i index
      simp [Payload.placement?, index, beyond.le, beyond.ne']

theorem Engine.append_of_array (live : e.heap.slot h = .live o)
    (array : o.payload = .array proto items) : e.append (.reference h) v =
      (.ok (), (e.setItems h proto (items.push v)).grow elementSize) := by
  have written : e.updatePayload (.reference h) (Payload.append v) =
      e.setItems h proto (items.push v) := Engine.updatePayload_eq_setItems live array rfl
  rw [← written, Engine.append, Engine.object?_of_live live]
  simp [array, Payload.isArray]

theorem Engine.erase_of_array (live : e.heap.slot h = .live o)
    (array : o.payload = .array proto items) : e.erase (.reference h) key = (false, e) := by
  rw [Engine.erase, Engine.object?_of_live live, Option.bind_some, array]
  rfl

/-- What an array holds after a store, if it is still live. -/
theorem Engine.payload_store_of_array (tidy : e.heap.Tidy) (live : e.heap.slot h = .live o)
    (array : o.payload = .array proto items)
    (after : (e.store (.reference h) key v).2.heap.slot h = .live o') :
    o'.payload = (Payload.array proto items).store key v := by
  have payload := ((Engine.rewritten_store tidy).payload_eq live after).2
  rwa [Action.written, if_pos rfl, array] at payload

end

/-! ### Arrays as lists -/

/-- A live array is the list of its elements. Indices are machine words, so a key that
spells a larger number is no index. -/
structure Engine.IsList (e : Engine) (h : Handle) (proto : Value) (items : Array Value) :
    Prop where
  keysOf : e.keysOf (.reference h) = (List.range items.size).map toString
  reads : ∀ i, i < wordLimit → e.reads h (toString i) = items[i]?.getD Value.undefined
  outside : ∀ i, wordLimit ≤ i → e.reads h (toString i) = Value.undefined ∧
    ∀ v, e.store (.reference h) (toString i) v = (.error .notAnObject, e.release v)
  replaces : ∀ i v old, i < wordLimit → items[i]? = some old →
    e.store (.reference h) (toString i) v =
      (.ok (), (e.setItems h proto (items.setIfInBounds i v)).release old)
  grows : ∀ v, items.size < wordLimit →
    e.store (.reference h) (toString items.size) v =
      (.ok (), (e.setItems h proto (items.push v)).grow elementSize)
  refuses : ∀ i v, items.size < i →
    e.store (.reference h) (toString i) v = (.error .notAnObject, e.release v)
  remains : ∀ i v o, i < wordLimit →
    (e.store (.reference h) (toString i) v).2.heap.slot h = .live o →
      o.payload = .array proto (storedAt items i v)
  erase : ∀ key, e.erase (.reference h) key = (false, e)
  append : ∀ v, e.append (.reference h) v =
    (.ok (), (e.setItems h proto (items.push v)).grow elementSize)
  append_eq_store : ∀ v, items.size < wordLimit →
    e.append (.reference h) v = e.store (.reference h) (toString items.size) v

section

variable {e : Engine} {h : Handle} {o : Object} {proto : Value} {items : Array Value}

theorem Engine.isList (tidy : e.heap.Tidy) (live : e.heap.slot h = .live o)
    (array : o.payload = .array proto items) : e.IsList h proto items := by
  have index (i : Nat) (small : i < wordLimit) : elementIndex? (toString i) = some i := by
    rw [elementIndex?_toString, if_pos small]
  have noIndex (i : Nat) (large : wordLimit ≤ i) : elementIndex? (toString i) = none := by
    rw [elementIndex?_toString, if_neg large.not_gt]
  have refuses (i : Nat) (v : Value) (beyond : items.size < i) :
      e.store (.reference h) (toString i) v = (.error .notAnObject, e.release v) := by
    refine Engine.store_of_no_place live array fun j same => ?_
    rw [elementIndex?_toString, Option.ite_none_right_eq_some, Option.some.injEq] at same
    exact same.2 ▸ beyond
  have append (v : Value) := Engine.append_of_array (v := v) live array
  have grows (v : Value) (small : items.size < wordLimit) :=
    Engine.store_of_eq_size (v := v) live array (index _ small)
  refine ⟨Engine.keysOf_of_array live array, fun i small => ?_, fun i large => ⟨?_, fun v => ?_⟩,
    fun i v old small found => Engine.store_of_lt_size live array (index i small) found,
    grows, refuses, fun i v o' small after => ?_,
    fun key => Engine.erase_of_array live array, append, fun v small => ?_⟩
  · rw [Engine.reads_of_array live array toString_ne_length, index i small]
    rfl
  · rw [Engine.reads_of_array live array toString_ne_length, noIndex i large]
    rfl
  · exact Engine.store_of_no_place live array (by rw [noIndex i large]; nofun)
  · rw [Engine.payload_store_of_array tidy live array after,
      Payload.store_of_index (index i small)]
  · rw [append, grows v small]

end

/-! ### Building arrays -/

/-- An object of `size` bytes can be placed at once, without a collection. -/
structure Engine.HasRoom (e : Engine) (size : Nat) : Prop where
  hopen : e.isClosed = false
  below : e.heap.liveCount < e.threshold
  fits : e.exceeded? size = none

/-- A heap with a new array. -/
def Heap.withArray (H : Heap) (proto : Value) (items : Array Value) : Heap :=
  (H.allocate (Object.new ClassId.array (.array proto items))).2

/-- An array made with its elements. -/
def arrayAtOnce (proto : Value) (items : List Value) : List Action :=
  [.makeArray proto items.toArray]

/-- An array made empty, to which the elements are appended. -/
def arrayByPushes (h : Handle) (proto : Value) (items : List Value) : List Action :=
  .makeArray proto #[] :: items.map (.append (.reference h))

/-- An array made empty, in which each element is stored under its index. -/
def arrayByKeys (h : Handle) (proto : Value) (items : List Value) : List Action :=
  .makeArray proto #[] ::
    items.zipIdx.map fun (v, i) => .store (.reference h) (toString i) v

/-- The ways to build an array are answered, and they lead to the same heap: the same
elements, the same counts, the same bytes. -/
structure Engine.BuildsAlike (e : Engine) (h : Handle) (proto : Value) (items : List Value) :
    Prop where
  answer : (e.run (arrayAtOnce proto items)).1 = [.value (.reference h)]
  array : (e.run (arrayAtOnce proto items)).2.heap.slot h =
    .live (Object.new ClassId.array (.array proto items.toArray))
  answer_pushes : (e.run (arrayByPushes h proto items)).1 =
    .value (.reference h) :: List.replicate items.length .done
  pushes : (e.run (arrayByPushes h proto items)).2.heap =
    (e.run (arrayAtOnce proto items)).2.heap
  answer_keys : items.length ≤ wordLimit → (e.run (arrayByKeys h proto items)).1 =
    .value (.reference h) :: List.replicate items.length .done
  keys : items.length ≤ wordLimit → (e.run (arrayByKeys h proto items)).2.heap =
    (e.run (arrayAtOnce proto items)).2.heap

section

variable {e : Engine} {H : Heap} {proto v : Value} {items : Array Value} {n : Nat}

theorem Engine.HasRoom.makeRoom (room : e.HasRoom n) : e.makeRoom n = e := by
  have below : e.collectAtThreshold = e := by
    rw [Engine.collectAtThreshold, if_neg]
    exact fun reached => reached.2.not_gt room.below
  rw [Engine.makeRoom, below, room.fits, if_neg (by simp)]

theorem Engine.HasRoom.allocate {classId : ClassId} {payload : Payload}
    (room : e.HasRoom (headerSize + payload.size)) : e.allocate classId payload =
      (.ok (e.place classId payload).1, (e.place classId payload).2) := by
  rw [Engine.allocate_eq room.hopen, room.makeRoom, room.fits]

/-- Taking a reference moves a count, and may note a broken promise. -/
theorem Engine.retain_cases (e : Engine) (v : Value) : ∃ heap breaches,
    e.retain v = { e with heap := heap, breaches := breaches } ∧
      heap.slots.size = e.heap.slots.size ∧ heap.liveCount = e.heap.liveCount ∧
        heap.bytes = e.heap.bytes ∧ ∀ k, (heap.object? k).isSome = (e.heap.object? k).isSome := by
  rw [Engine.retain]
  split
  · rename_i h _
    rw [Engine.addReference]
    split
    · rename_i o _
      have noted : ∃ breaches, e.checkCount (o.count + 1) = { e with breaches := breaches } := by
        rw [Engine.checkCount]
        split <;> exact ⟨_, rfl⟩
      obtain ⟨breaches, noted⟩ := noted
      rw [noted]
      refine ⟨_, breaches, rfl, Heap.size_update, rfl, rfl, fun k => ?_⟩
      rw [Heap.object?_update]
      split
      · exact Option.isSome_map
      · rfl
    · exact ⟨e.heap, _, rfl, rfl, rfl, rfl, fun _ => rfl⟩
  · exact ⟨e.heap, _, rfl, rfl, rfl, rfl, fun _ => rfl⟩

theorem Engine.HasRoom.retain (room : e.HasRoom n) (v : Value) : (e.retain v).HasRoom n := by
  obtain ⟨heap, breaches, result, -, live, bytes, -⟩ := e.retain_cases v
  rw [result]
  refine ⟨room.hopen, live ▸ room.below, ?_⟩
  have fits := room.fits
  rw [Engine.exceeded?] at fits ⊢
  rwa [bytes]

theorem Engine.size_retain (e : Engine) (v : Value) :
    (e.retain v).heap.slots.size = e.heap.slots.size := by
  obtain ⟨heap, breaches, result, size, -⟩ := e.retain_cases v
  rw [result]
  exact size

theorem Engine.isValid_retain {w : Value} (valid : e.isValid w = true) (v : Value) :
    (e.retain v).isValid w = true := by
  cases w with
  | immediate w => rfl
  | reference k =>
      obtain ⟨heap, breaches, result, -, -, -, found⟩ := e.retain_cases v
      rw [Engine.isValid_reference_iff, ← Option.isSome_iff_exists] at valid ⊢
      rw [result]
      exact (found k).trans valid

/-- Whoever has room for more has room for less. -/
theorem Engine.HasRoom.mono {m : Nat} (room : e.HasRoom n) (le : m ≤ n) : e.HasRoom m := by
  refine ⟨room.hopen, room.below, ?_⟩
  have fits := room.fits
  rw [Engine.exceeded?, Option.filter_eq_none_iff] at fits ⊢
  intro limit same
  have within := fits limit same
  rw [decide_eq_true_eq, Nat.not_lt] at within ⊢
  exact (Nat.add_le_add_left le _).trans within

theorem Heap.slot_withArray (H : Heap) (proto : Value) (items : Array Value) :
    (H.withArray proto items).slot H.slots.size =
      .live (Object.new ClassId.array (.array proto items)) := by
  rw [Heap.withArray, Heap.slot_allocate]
  exact if_pos rfl

theorem modify_push_size {α : Type} (as : Array α) (a : α) (f : α → α) :
    (as.push a).modify as.size f = as.push (f a) := by
  refine Array.ext (by simp) fun i inside _ => ?_
  rw [Array.size_modify, Array.size_push] at inside
  rw [Array.getElem_modify, Array.getElem_push, Array.getElem_push]
  split
  · subst i
    simp
  · have before : i < as.size := by omega
    rw [dif_pos before, dif_pos before]

/-- An array that was made last gets one more element. -/
theorem Heap.grow_withArray (H : Heap) (proto : Value) (items : Array Value) (v : Value) :
    ((H.withArray proto items).update H.slots.size fun o =>
        { o with payload := .array proto (items.push v) }).grow elementSize =
      H.withArray proto (items.push v) := by
  have slots := modify_push_size H.slots (.live (Object.new ClassId.array (.array proto items)))
    (Slot.map fun o => { o with payload := .array proto (items.push v) })
  have bytes : H.bytes + (headerSize + items.size * elementSize) + elementSize =
      H.bytes + (headerSize + (items.push v).size * elementSize) := by
    rw [Array.size_push, Nat.succ_mul]
    omega
  exact (Heap.mk.injEq ..).mpr ⟨slots, rfl, rfl, bytes, rfl⟩

theorem Engine.grow_setItems (heap : e.heap = H.withArray proto items) (v : Value) :
    (e.setItems H.slots.size proto (items.push v)).grow elementSize =
      { e with heap := H.withArray proto (items.push v) } := by
  rw [← H.grow_withArray, ← heap]
  rfl

/-- Values that could be passed before the array was made can be passed still. -/
theorem Engine.isValid_withArray {e₀ : Engine} (heap : e.heap = e₀.heap.withArray proto items)
    (valid : e₀.isValid v = true) : e.isValid v = true := by
  cases v with
  | immediate w => rfl
  | reference k =>
      obtain ⟨o, found⟩ := Engine.isValid_reference_iff.1 valid
      refine Engine.isValid_reference_iff.2 ⟨o, ?_⟩
      rw [heap, Heap.object?, Heap.withArray, Heap.slot_allocate, if_neg]
      · exact found
      · exact (Heap.lt_size_of_object? found).ne

end

/-- The requests `f i v` add `v` as the element with index `i` to an array that has `i`
elements, as long as `fits` allows for that many. -/
structure AddsInTurn (h : Handle) (fits : Nat → Prop) (f : Nat → Value → Action) : Prop where
  arguments : ∀ i v, (f i v).arguments = [.reference h, v]
  carried : ∀ {e : Engine} {o : Object} {proto : Value} {items : Array Value} (v : Value),
    e.heap.slot h = .live o → o.payload = .array proto items → fits items.size →
      e.carryOut (f items.size v) =
        (.done, (e.setItems h proto (items.push v)).grow elementSize)

theorem addsInTurn_append (h : Handle) :
    AddsInTurn h (fun _ => True) fun _ v => .append (.reference h) v where
  arguments _ _ := rfl
  carried v live array _ := by
    rw [Engine.carryOut, Engine.append_of_array live array]
    rfl

theorem addsInTurn_store (h : Handle) :
    AddsInTurn h (· < wordLimit) fun i v => .store (.reference h) (toString i) v where
  arguments _ _ := rfl
  carried v live array small := by
    have index := (elementIndex?_toString _).trans (if_pos small)
    rw [Engine.carryOut, Engine.store_of_eq_size live array index]
    rfl

section

variable {e₀ e : Engine} {fits : Nat → Prop} {f : Nat → Value → Action} {proto v : Value}
  {items : Array Value} {values : List Value}

/-- One element is added to an array that was made last. -/
theorem AddsInTurn.perform (adds : AddsInTurn e₀.heap.slots.size fits f)
    (heap : e.heap = e₀.heap.withArray proto items) (valid : e₀.isValid v = true)
    (small : fits items.size) : e.perform (f items.size v) =
      (.done, { e with heap := e₀.heap.withArray proto (items.push v) }) := by
  have live : e.heap.slot e₀.heap.slots.size = .live _ :=
    heap ▸ e₀.heap.slot_withArray proto items
  have passed : ∀ w ∈ (f items.size v).arguments, e.isValid w = true := by
    rw [adds.arguments, List.forall_mem_cons, List.forall_mem_singleton]
    exact ⟨Engine.isValid_reference_iff.2 ⟨_, Heap.object?_of_live live⟩,
      Engine.isValid_withArray heap valid⟩
  rw [Engine.perform_of_valid passed, adds.carried v live rfl small,
    Engine.grow_setItems heap]

/-- All elements are added, one after the other. -/
theorem AddsInTurn.run (adds : AddsInTurn e₀.heap.slots.size fits f)
    (heap : e.heap = e₀.heap.withArray proto items)
    (valid : ∀ v ∈ values, e₀.isValid v = true)
    (small : ∀ i < items.size + values.length, fits i) :
    e.run ((values.zipIdx items.size).map fun (v, i) => f i v) =
      (List.replicate values.length .done,
        { e with heap := e₀.heap.withArray proto (items ++ values.toArray) }) := by
  induction values generalizing e items with
  | nil =>
      rw [Array.append_empty, ← heap]
      rfl
  | cons v values ih =>
      rw [List.forall_mem_cons] at valid
      rw [List.length_cons] at small
      have first := adds.perform heap valid.1 (small _ (by omega))
      have fewer : ∀ i < (items.push v).size + values.length, fits i := fun i inside =>
        small i (by rw [Array.size_push] at inside; omega)
      -- The engine for the rest is the one that the first request leaves.
      have rest := ih (e := { e with heap := e₀.heap.withArray proto (items.push v) }) rfl
        valid.2 fewer
      rw [Array.size_push] at rest
      rw [List.zipIdx_cons, List.map_cons, Engine.run]
      simp only [first, rest]
      have items' : items.push v ++ values.toArray = items ++ (v :: values).toArray := by simp
      rw [items']
      rfl

/-- An array is made where there is room for it. -/
theorem Engine.HasRoom.perform_makeArray
    (room : e.HasRoom (headerSize + items.size * elementSize))
    (valid : ∀ v ∈ proto :: items.toList, e.isValid v = true) :
    ∃ e', e.perform (.makeArray proto items) = (.value (.reference e.heap.slots.size), e') ∧
      e'.heap = (e.retain proto).heap.withArray proto items := by
  have made : e.makeArray proto items =
      (.ok ((e.retain proto).place ClassId.array (.array proto items)).1,
        ((e.retain proto).place ClassId.array (.array proto items)).2) :=
    (room.retain proto).allocate
  refine ⟨((e.retain proto).place ClassId.array (.array proto items)).2, ?_, rfl⟩
  rw [Engine.perform_of_valid (a := .makeArray proto items) valid, Engine.carryOut, made,
    ← e.size_retain proto]
  rfl

/-- Any requests that add the elements in turn to an empty array. -/
theorem AddsInTurn.builds (adds : AddsInTurn e.heap.slots.size fits f)
    (room : e.HasRoom (headerSize + values.length * elementSize))
    (valid : ∀ v ∈ proto :: values, e.isValid v = true)
    (small : ∀ i < values.length, fits i) :
    (e.run (.makeArray proto #[] :: values.zipIdx.map fun (v, i) => f i v)).1 =
        .value (.reference e.heap.slots.size) :: List.replicate values.length .done ∧
      (e.run (.makeArray proto #[] :: values.zipIdx.map fun (v, i) => f i v)).2.heap =
        (e.retain proto).heap.withArray proto values.toArray := by
  have less : e.HasRoom (headerSize + (#[] : Array Value).size * elementSize) :=
    room.mono (by simp)
  obtain ⟨e', begun, heap⟩ := less.perform_makeArray (List.forall_mem_singleton.2 (valid proto
    List.mem_cons_self))
  rw [← e.size_retain proto] at adds
  have still : ∀ v ∈ values, (e.retain proto).isValid v = true := fun v mem =>
    Engine.isValid_retain (valid v (List.mem_cons_of_mem _ mem)) proto
  have added := adds.run heap still (by simpa using small)
  rw [Array.size_empty, Array.empty_append] at added
  rw [Engine.run]
  simp only [begun, added]
  exact ⟨rfl, rfl⟩

theorem Engine.buildsAlike
    (room : e.HasRoom (headerSize + values.length * elementSize))
    (valid : ∀ v ∈ proto :: values, e.isValid v = true) :
    e.BuildsAlike e.heap.slots.size proto values := by
  have whole : e.HasRoom (headerSize + values.toArray.size * elementSize) := by simpa using room
  obtain ⟨e', made, heap⟩ := whole.perform_makeArray valid
  have atOnce : e.run (arrayAtOnce proto values) =
      ([.value (.reference e.heap.slots.size)], e') := by
    rw [arrayAtOnce, Engine.run, made]
    rfl
  have pushes := (addsInTurn_append e.heap.slots.size).builds room valid fun _ _ => trivial
  have forget : (values.zipIdx.map fun (v, _) => Action.append (.reference e.heap.slots.size) v) =
      values.map (.append (.reference e.heap.slots.size)) := by
    have places := congrArg (List.map (Action.append (.reference e.heap.slots.size)))
      (List.zipIdx_map_fst 0 values)
    rwa [List.map_map] at places
  rw [forget] at pushes
  have keys (small : values.length ≤ wordLimit) :=
    (addsInTurn_store e.heap.slots.size).builds room valid fun i inside => inside.trans_le small
  refine ⟨congrArg Prod.fst atOnce, ?_, pushes.1, ?_, fun small => (keys small).1, fun small => ?_⟩
  · rw [atOnce, heap, ← e.size_retain proto]
    exact Heap.slot_withArray _ _ _
  · rw [atOnce, heap]
    exact pushes.2
  · rw [atOnce, heap]
    exact (keys small).2

end

/-- Whoever makes which requests, every live array is the list of its elements, and
wherever there is room for an array without a collection, it does not matter in which way
it is built. -/
theorem Engine.arrays_run (limits : Limits) (past : List Action) :
    (∀ h o proto items, (Engine.after limits past).heap.slot h = .live o →
      o.payload = .array proto items → (Engine.after limits past).IsList h proto items) ∧
    ∀ proto values, (∀ v ∈ proto :: values, (Engine.after limits past).isValid v = true) →
      (Engine.after limits past).HasRoom (headerSize + values.length * elementSize) →
        (Engine.after limits past).BuildsAlike (Engine.after limits past).heap.slots.size
          proto values := by
  have tidy : (Engine.after limits past).heap.Tidy := ((Engine.recorded_new limits).run past).tidy
  exact ⟨fun h o proto items live array => Engine.isList tidy live array,
    fun proto values valid room => Engine.buildsAlike room valid⟩

/-- An array that holds itself and an object that nobody else owns. -/
def arrayHoldsItself : List Action :=
  [.makeArray Value.null #[], .makeString "text", .append (.reference 0) (.reference 1),
    .retain (.reference 0), .append (.reference 0) (.reference 0)]

theorem arrays_holdsItself :
    (Engine.after {} arrayHoldsItself).IsList 0 Value.null #[.reference 1, .reference 0] ∧
      (Engine.after {} arrayHoldsItself).BuildsAlike 2 (.reference 0)
        [.reference 1, Value.null, .reference 0] := by
  obtain ⟨lists, builds⟩ := Engine.arrays_run {} arrayHoldsItself
  refine ⟨lists 0
    ⟨1, 2, false, false, false, false, .array Value.null #[.reference 1, .reference 0]⟩ _ _
    (by decide +kernel) rfl, ?_⟩
  exact builds (.reference 0) [.reference 1, Value.null, .reference 0] (by decide +kernel)
    ⟨by decide +kernel, by decide +kernel, by decide +kernel⟩

end CountedHeap
