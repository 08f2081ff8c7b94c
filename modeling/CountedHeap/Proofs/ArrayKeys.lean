import CountedHeap.Proofs.Elements

/-!
The keys of arrays. An array takes a key if it stands for one of its indices or for the
next one, and refuses any other without a trace. Keys without a sign are told apart by
the index they stand for. A plus sign and zeros behind it make other keys for the same
index, which are taken as well but never listed.
-/

namespace CountedHeap

/-- A key that stands for an index behind a plus sign. -/
def IsSigned (key : String) : Prop :=
  ∃ zeros i, key = plusNumeral zeros i

/-- Which keys an array takes, and what it has under the others. -/
structure Engine.TakesIndices (e : Engine) (h : Handle) (proto : Value) (items : Array Value) :
    Prop where
  takes : ∀ key v, (e.store (.reference h) key v).1 = .ok () ↔
    ∃ i, elementIndex? key = some i ∧ i ≤ items.size
  refuses : ∀ key v, (e.store (.reference h) key v).1 ≠ .ok () →
    e.store (.reference h) key v = (.error .notAnObject, e.release v) ∧
      ∀ o, (e.release v).heap.slot h = .live o → o.payload = .array proto items
  unread : ∀ key, elementIndex? key = none → key ≠ "length" →
    e.reads h key = Value.undefined
  listed : ∀ key v, (e.store (.reference h) key v).1 = .ok () →
    (e.store (.reference h) key v).2.isLive (.reference h) = true →
      (key ∈ (e.store (.reference h) key v).2.keysOf (.reference h) ↔ ¬ IsSigned key)

section

variable {e : Engine} {h : Handle} {o : Object} {proto v : Value} {items : Array Value}
  {key key' : String} {i : Nat}

/-- A key without a sign is the text of the index it stands for. -/
theorem eq_toString_of_not_signed (index : elementIndex? key = some i)
    (plain : ¬ IsSigned key) : key = toString i := by
  obtain ⟨-, same | ⟨zeros, signed⟩⟩ := elementIndex?_eq_some_iff.1 index
  · exact same
  · exact absurd ⟨zeros, i, signed⟩ plain

theorem not_isSigned_toString (i : Nat) : ¬ IsSigned (toString i) := by
  rintro ⟨zeros, k, signed⟩
  exact toString_ne_plusNumeral signed

theorem key_unique (index : elementIndex? key = some i) (index' : elementIndex? key' = some i)
    (plain : ¬ IsSigned key) (plain' : ¬ IsSigned key') : key = key' :=
  (eq_toString_of_not_signed index plain).trans (eq_toString_of_not_signed index' plain').symm

/-- A store is done at a place of the array, and refused where there is none. -/
theorem Engine.store_cases_of_array (live : e.heap.slot h = .live o)
    (array : o.payload = .array proto items) (key : String) (v : Value) :
    (∃ i, elementIndex? key = some i ∧ i ≤ items.size ∧
      (e.store (.reference h) key v).1 = .ok ()) ∨
    ((∀ i, elementIndex? key = some i → items.size < i) ∧
      e.store (.reference h) key v = (.error .notAnObject, e.release v)) := by
  by_cases place : ∃ i, elementIndex? key = some i ∧ i ≤ items.size
  · obtain ⟨i, index, within⟩ := place
    refine .inl ⟨i, index, within, ?_⟩
    rcases within.lt_or_eq with inside | rfl
    · rw [Engine.store_of_lt_size live array index (Array.getElem?_eq_getElem inside)]
    · rw [Engine.store_of_eq_size live array index]
  · have outside (i : Nat) (index : elementIndex? key = some i) : items.size < i :=
      Nat.lt_of_not_le fun within => place ⟨i, index, within⟩
    exact .inr ⟨outside, Engine.store_of_no_place live array outside⟩

theorem size_storedAt (within : i ≤ items.size) :
    i < (storedAt items i v).size := by
  rw [storedAt]
  split
  · rename_i last
    rw [Array.size_push, last]
    exact Nat.lt_succ_self _
  · rename_i differ
    rw [Array.size_setIfInBounds]
    exact Nat.lt_of_le_of_ne within differ

theorem Engine.takesIndices (tidy : e.heap.Tidy) (live : e.heap.slot h = .live o)
    (array : o.payload = .array proto items) : e.TakesIndices h proto items := by
  have cases := Engine.store_cases_of_array live array
  refine ⟨fun key v => ?_, fun key v refused => ?_, fun key none other => ?_,
    fun key v taken stays => ?_⟩
  · rcases cases key v with ⟨i, index, within, done⟩ | ⟨outside, refused⟩
    · exact ⟨fun _ => ⟨i, index, within⟩, fun _ => done⟩
    · rw [refused]
      exact ⟨nofun, fun ⟨i, index, within⟩ => absurd within (outside i index).not_ge⟩
  · obtain ⟨_, _, _, done⟩ | ⟨-, result⟩ := cases key v
    · exact absurd done refused
    · refine ⟨result, fun o' after => ?_⟩
      rw [((Engine.preserves_release tidy).2.payload_eq live after).2, array]
  · rw [Engine.reads_of_array live array other, none]
    rfl
  · obtain ⟨i, index, within, -⟩ | ⟨-, refused⟩ := cases key v
    swap
    · rw [refused] at taken
      cases taken
    obtain ⟨o', after⟩ := Heap.isLive_iff.1 stays
    have payload := Engine.payload_store_of_array tidy live array after
    rw [Payload.store_of_index index] at payload
    rw [Engine.keysOf_of_array after payload, List.mem_map]
    constructor
    · rintro ⟨j, -, rfl⟩
      exact not_isSigned_toString j
    · intro plain
      have spelled := eq_toString_of_not_signed index plain
      exact ⟨i, List.mem_range.2 (size_storedAt within), spelled.symm⟩

end

/-- A key stands for an index if it is its decimal text, or a plus sign, any number of
zeros, and its decimal text. Whoever makes which requests, a live array takes the keys of
the indices up to its length and no others. -/
theorem Engine.arrayKeys_run (limits : Limits) (past : List Action) :
    (∀ key i, elementIndex? key = some i ↔
      i < wordLimit ∧ (key = toString i ∨ ∃ zeros, key = plusNumeral zeros i)) ∧
    (∀ key key' i, elementIndex? key = some i → elementIndex? key' = some i →
      ¬ IsSigned key → ¬ IsSigned key' → key = key') ∧
    ∀ h o proto items, (Engine.after limits past).heap.slot h = .live o →
      o.payload = .array proto items → (Engine.after limits past).TakesIndices h proto items := by
  have tidy : (Engine.after limits past).heap.Tidy := ((Engine.recorded_new limits).run past).tidy
  exact ⟨fun key i => elementIndex?_eq_some_iff, fun key key' i => key_unique,
    fun h o proto items live array => Engine.takesIndices tidy live array⟩

theorem arrayKeys_empty :
    (Engine.after {} [.makeArray Value.null #[]]).TakesIndices 0 Value.null #[] := by
  obtain ⟨-, -, takes⟩ := Engine.arrayKeys_run {} [.makeArray Value.null #[]]
  exact takes 0 ⟨1, 1, false, false, false, false, .array Value.null #[]⟩ _ _
    (by decide +kernel) rfl

/-- Two keys for one element, of which one is taken but not listed. -/
theorem signed_key_taken :
    elementIndex? "+0" = elementIndex? "0" ∧
      ((Engine.after {} [.makeArray Value.null #[]]).store (.reference 0) "+0" Value.null).1 =
        .ok () ∧
      ((Engine.after {} [.makeArray Value.null #[]]).store (.reference 0) "+0"
        Value.null).2.keysOf (.reference 0) = ["0"] := by
  decide +kernel

end CountedHeap
