import CountedHeap.Proofs.Elements
import CountedHeap.Proofs.Integers

/-!
The length of an array. It is told as an integer word, in which 31 bits of it fit, the
highest of them for the sign. So an array of `2 ^ 30` elements tells a negative length,
and lengths agree with the number of elements and of keys only below that.
-/

namespace CountedHeap

/-- What an array tells about its length. -/
structure Engine.TellsLength (e : Engine) (h : Handle) (proto : Value) (items : Array Value) :
    Prop where
  keys : (e.keysOf (.reference h)).length = items.size
  number : e.number? (e.reads h "length") =
    some (Binary64.ofInt ((items.size : Int).bmod 0x80000000))
  agrees : (e.number? (e.reads h "length")).bind Binary64.integer? = some (items.size : Int) ↔
    items.size < 0x40000000
  next : ∀ v, items.size < wordLimit → e.store (.reference h) (toString items.size) v =
    (.ok (), (e.setItems h proto (items.push v)).grow elementSize)

section

variable {e : Engine} {h : Handle} {o : Object} {proto : Value} {items : Array Value}

theorem Engine.reads_length (live : e.heap.slot h = .live o)
    (array : o.payload = .array proto items) :
    e.reads h "length" = .immediate (Word.ofInt items.size) := by
  rw [Engine.reads, Engine.fetch, Engine.object?_of_live live]
  simp only [array, Payload.length?, beq_self_eq_true]

theorem integer?_bmod (n : Int) : (Binary64.ofInt (n.bmod 0x80000000)).integer? =
    some (n.bmod 0x80000000) := by
  have low := Int.le_bmod (x := n) (m := 0x80000000) (by decide)
  have high := Int.bmod_lt (x := n) (m := 0x80000000) (by decide)
  exact Binary64.integer?_ofInt (by omega)

theorem Engine.tellsLength (live : e.heap.slot h = .live o)
    (array : o.payload = .array proto items) : e.TellsLength h proto items := by
  have number : e.number? (e.reads h "length") =
      some (Binary64.ofInt ((items.size : Int).bmod 0x80000000)) := by
    rw [Engine.reads_length live array]
    exact Word.number?_ofInt items.size
  refine ⟨?_, number, ?_, fun v small => ?_⟩
  · rw [Engine.keysOf_of_array live array, List.length_map, List.length_range]
  · rw [number, Option.bind_some, integer?_bmod, Option.some.injEq, Int.bmod_def]
    split <;> omega
  · exact Engine.store_of_eq_size live array ((elementIndex?_toString _).trans (if_pos small))

end

/-- Whoever makes which requests, a live array has as many keys as elements, tells the
number that the low 31 bits of its length stand for, and takes one more element under the
key that spells its length. -/
theorem Engine.arrayLength_run (limits : Limits) (past : List Action) {h : Handle} {o : Object}
    {proto : Value} {items : Array Value}
    (live : (Engine.after limits past).heap.slot h = .live o)
    (array : o.payload = .array proto items) :
    (Engine.after limits past).TellsLength h proto items :=
  Engine.tellsLength live array

theorem arrayLength_two :
    (Engine.after {} [.makeArray Value.null #[Value.null, Value.null]]).TellsLength 0
      Value.null #[Value.null, Value.null] :=
  Engine.arrayLength_run {} [.makeArray Value.null #[Value.null, Value.null]]
    (o := ⟨1, 1, false, false, false, false, .array Value.null #[Value.null, Value.null]⟩)
    (by decide +kernel) rfl

/-- What an array tells that was built from nothing by pushes. -/
theorem length_of_pushes {values : List Value}
    (valid : ∀ v ∈ Value.null :: values, (Engine.new {}).isValid v = true) :
    ∃ o, (Engine.after {} (arrayByPushes 0 Value.null values)).heap.slot 0 = .live o ∧
      o.payload = .array Value.null values.toArray ∧
        ((Engine.after {} (arrayByPushes 0 Value.null values)).number?
            ((Engine.after {} (arrayByPushes 0 Value.null values)).reads 0 "length")).bind
          Binary64.integer? = some ((values.length : Int).bmod 0x80000000) := by
  have room : (Engine.new {}).HasRoom (headerSize + values.length * elementSize) :=
    ⟨rfl, by decide, rfl⟩
  have built := Engine.buildsAlike room valid
  have slot : (Engine.after {} (arrayByPushes 0 Value.null values)).heap.slot 0 =
      .live (Object.new ClassId.array (.array Value.null values.toArray)) := by
    rw [← built.array, ← built.pushes]
    rfl
  refine ⟨_, slot, rfl, ?_⟩
  rw [(Engine.tellsLength slot rfl).number, Option.bind_some, integer?_bmod, List.size_toArray]

/-- Elements that nobody counts. -/
def nulls (n : Nat) : List Value :=
  List.replicate n Value.null

theorem arrayLength_negative :
    (nulls 0x40000000).length = 0x40000000 ∧
      ∃ o, (Engine.after {} (arrayByPushes 0 Value.null (nulls 0x40000000))).heap.slot 0 = .live o ∧
        o.payload = .array Value.null (nulls 0x40000000).toArray ∧
          ((Engine.after {} (arrayByPushes 0 Value.null (nulls 0x40000000))).number?
              ((Engine.after {} (arrayByPushes 0 Value.null (nulls 0x40000000))).reads 0
                "length")).bind Binary64.integer? = some (-0x40000000) := by
  have length : (nulls 0x40000000).length = 0x40000000 := List.length_replicate
  have valid : ∀ v ∈ Value.null :: nulls 0x40000000, (Engine.new {}).isValid v = true := by
    intro v mem
    rcases List.mem_cons.1 mem with rfl | more
    · rfl
    · rw [List.eq_of_mem_replicate more]
      rfl
  obtain ⟨o, slot, array, tells⟩ := length_of_pushes valid
  rw [length] at tells
  exact ⟨length, o, slot, array, tells⟩

end CountedHeap
