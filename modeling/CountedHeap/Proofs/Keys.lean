import CountedHeap.Proofs.Payloads
import CountedHeap.Engine.Action
import Mathlib.Data.List.Basic
import Mathlib.Data.Nat.Find
import Mathlib.Order.Basic

/-!
Keys of a table and the history behind them. A table is a map whose keys keep the order
in which they were first stored since they were last erased. What that order is can be
read off the requests made so far, without any table; and the keys of a table follow it
if each store and each erasure does to them what it does to that reading.
-/

namespace CountedHeap

/-! ### Keys of a table -/

section

variable {table : List Property} {key other : String} {v : Value} {p : Payload}

theorem mem_keys_iff : key ∈ table.map (·.key) ↔ ∃ v, findKey? table key = some v := by
  rw [← Option.isSome_iff_exists, findKey?, Option.isSome_map, List.find?_isSome]
  simp only [List.mem_map, beq_iff_eq]

theorem findKey?_eq_none_iff : findKey? table key = none ↔ key ∉ table.map (·.key) := by
  rw [mem_keys_iff, ← Option.isSome_iff_exists, Option.not_isSome_iff_eq_none]

theorem keys_eraseKey (key : String) (table : List Property) :
    (eraseKey key table).map (·.key) = (table.map (·.key)).erase key := by
  rw [List.erase_eq_eraseP', List.eraseP_map]
  rfl

theorem findKey?_eraseKey_of_ne (differ : other ≠ key) (table : List Property) :
    findKey? (eraseKey key table) other = findKey? table other := by
  induction table with
  | nil => rfl
  | cons q table ih =>
      by_cases here : q.key = key
      · rw [findKey?_cons_of_ne (by rw [here]; exact differ.symm), eraseKey,
          List.eraseP_cons_of_pos (by simpa using here)]
      · have keep : eraseKey key (q :: table) = q :: eraseKey key table := by
          simp [eraseKey, here]
        rw [keep]
        by_cases found : q.key = other
        · simp [findKey?, found]
        · rw [findKey?_cons_of_ne found, findKey?_cons_of_ne found, ih]

/-- What is left under an erased key would be a second value for it. -/
theorem findKey?_eraseKey (distinct : (table.map (·.key)).Nodup) :
    findKey? (eraseKey key table) other = if other = key then none else findKey? table other := by
  split
  · rename_i same
    rw [same, findKey?_eq_none_iff, keys_eraseKey]
    exact distinct.not_mem_erase
  · rename_i differ
    exact findKey?_eraseKey_of_ne differ table

end

/-! ### Keys of a history -/

/-- The request at place `i` stores a value under `key` in an object. -/
def StoredAt (past : List Action) (h : Handle) (key : String) (i : Nat) : Prop :=
  ∃ v, past[i]? = some (.store (.reference h) key v)

/-- The request at place `i` erases `key` from an object. -/
def ErasedAt (past : List Action) (h : Handle) (key : String) (i : Nat) : Prop :=
  past[i]? = some (.erase (.reference h) key)

/-- The request at place `i` was the first to store `key` in an object since the key was
last erased, if it ever was, and it has not been erased since. -/
structure InsertedAt (past : List Action) (h : Handle) (key : String) (i : Nat) : Prop where
  stored : StoredAt past h key i
  kept : ∀ j, i < j → ¬ ErasedAt past h key j
  first : ∀ j, j < i → StoredAt past h key j → ∃ k, j < k ∧ k < i ∧ ErasedAt past h key k

/-- A list of keys is what a history says: the keys inserted and not erased, in the order
of their insertion. -/
structure KeysOfPast (past : List Action) (h : Handle) (keys : List String) : Prop where
  present : ∀ key, key ∈ keys ↔ ∃ i, InsertedAt past h key i
  ordered : keys.Pairwise fun key key' =>
    ∃ i j, InsertedAt past h key i ∧ InsertedAt past h key' j ∧ i < j

section

variable {past : List Action} {a : Action} {h : Handle} {key key' : String} {keys : List String}
  {i j : Nat} {v : Value}

theorem StoredAt.lt_length (stored : StoredAt past h key i) : i < past.length := by
  obtain ⟨v, found⟩ := stored
  exact (List.getElem?_eq_some_iff.1 found).1

/-- No key has two places. -/
theorem InsertedAt.unique (one : InsertedAt past h key i) (two : InsertedAt past h key j) :
    i = j := by
  have notBefore {i j : Nat} (one : InsertedAt past h key i) (two : InsertedAt past h key j) :
      ¬ i < j := by
    intro before
    obtain ⟨k, after, -, erased⟩ := two.first i before one.stored
    exact one.kept k after erased
  exact Nat.le_antisymm (Nat.le_of_not_lt (notBefore two one))
    (Nat.le_of_not_lt (notBefore one two))

theorem KeysOfPast.nodup (follows : KeysOfPast past h keys) : keys.Nodup := by
  refine follows.ordered.imp ?_
  rintro key _ ⟨i, j, one, two, before⟩ rfl
  exact before.ne (one.unique two)

/-- A key that was stored and not erased later has a place: that of the earliest such
store. -/
theorem InsertedAt.of_stored (stored : StoredAt past h key i)
    (kept : ∀ j, i < j → ¬ ErasedAt past h key j) : ∃ j, InsertedAt past h key j := by
  classical
  have lasting : ∃ i, StoredAt past h key i ∧ ∀ j, i < j → ¬ ErasedAt past h key j :=
    ⟨i, stored, kept⟩
  refine ⟨Nat.find lasting, (Nat.find_spec lasting).1, (Nat.find_spec lasting).2, ?_⟩
  intro j before stored
  have erased : ¬ ∀ k, j < k → ¬ ErasedAt past h key k :=
    fun kept => Nat.find_min lasting before ⟨stored, kept⟩
  push Not at erased
  obtain ⟨k, after, erased⟩ := erased
  refine ⟨k, after, ?_, erased⟩
  -- The erasure is not after the store that was found, and it is not that store.
  rcases Nat.lt_trichotomy k (Nat.find lasting) with lt | eq | gt
  · exact lt
  · obtain ⟨v, store⟩ := (Nat.find_spec lasting).1
    rw [ErasedAt, eq, store] at erased
    cases erased
  · exact absurd erased ((Nat.find_spec lasting).2 k gt)

/-! ### One more request -/

theorem getElem?_concat_eq_some {α : Type} {as : List α} {a b : α} {i : Nat} :
    (as ++ [a])[i]? = some b ↔ as[i]? = some b ∨ i = as.length ∧ a = b := by
  rw [List.getElem?_append]
  split
  · rename_i inside
    simp [inside.ne]
  · rename_i outside
    rw [List.getElem?_eq_none (Nat.le_of_not_lt outside)]
    obtain ⟨n, rfl⟩ := Nat.exists_eq_add_of_le (Nat.le_of_not_lt outside)
    cases n <;> simp

theorem storedAt_concat : StoredAt (past ++ [a]) h key i ↔
    StoredAt past h key i ∨ i = past.length ∧ ∃ v, a = .store (.reference h) key v := by
  simp only [StoredAt, getElem?_concat_eq_some, exists_or, exists_and_left]

theorem erasedAt_concat : ErasedAt (past ++ [a]) h key i ↔
    ErasedAt past h key i ∨ i = past.length ∧ a = .erase (.reference h) key :=
  getElem?_concat_eq_some

/-- A request about something else. -/
theorem insertedAt_concat_of_other (stores : ∀ v, a ≠ .store (.reference h) key v)
    (erases : a ≠ .erase (.reference h) key) :
    InsertedAt (past ++ [a]) h key i ↔ InsertedAt past h key i := by
  have stored (i : Nat) : StoredAt (past ++ [a]) h key i ↔ StoredAt past h key i := by
    simp [storedAt_concat, stores]
  have erased (i : Nat) : ErasedAt (past ++ [a]) h key i ↔ ErasedAt past h key i := by
    simp [erasedAt_concat, erases]
  constructor
  · rintro ⟨here, kept, first⟩
    simp only [stored, erased] at here kept first
    exact ⟨here, kept, first⟩
  · rintro ⟨here, kept, first⟩
    refine ⟨?_, ?_, ?_⟩ <;> simpa only [stored, erased]

/-- A request that does not erase the key leaves it its place. -/
theorem InsertedAt.concat (inserted : InsertedAt past h key i)
    (erases : a ≠ .erase (.reference h) key) : InsertedAt (past ++ [a]) h key i where
  stored := storedAt_concat.2 (.inl inserted.stored)
  kept j after erased := by
    rcases erasedAt_concat.1 erased with erased | ⟨-, erased⟩
    · exact inserted.kept j after erased
    · exact erases erased
  first j before stored := by
    rcases storedAt_concat.1 stored with stored | ⟨rfl, -⟩
    · obtain ⟨k, after, before, erased⟩ := inserted.first j before stored
      exact ⟨k, after, before, erasedAt_concat.2 (.inl erased)⟩
    · exact absurd inserted.stored.lt_length before.not_gt

theorem not_insertedAt_concat_erase :
    ¬ InsertedAt (past ++ [.erase (.reference h) key]) h key i := by
  intro inserted
  rcases storedAt_concat.1 inserted.stored with stored | ⟨-, v, stored⟩
  · exact inserted.kept past.length stored.lt_length (erasedAt_concat.2 (.inr ⟨rfl, rfl⟩))
  · cases stored

/-- A key that was not there is inserted by the request that stores it. -/
theorem insertedAt_concat_store (absent : ¬ ∃ j, InsertedAt past h key j) (v : Value) :
    InsertedAt (past ++ [.store (.reference h) key v]) h key past.length where
  stored := storedAt_concat.2 (.inr ⟨rfl, v, rfl⟩)
  kept j after erased := by
    rcases erasedAt_concat.1 erased with erased | ⟨rfl, -⟩
    · exact absurd (List.getElem?_eq_some_iff.1 erased).1 after.not_gt
    · exact absurd after (Nat.lt_irrefl _)
  first j before stored := by
    rcases storedAt_concat.1 stored with stored | ⟨rfl, -⟩
    · have erased : ¬ ∀ k, j < k → ¬ ErasedAt past h key k :=
        fun kept => absent (InsertedAt.of_stored stored kept)
      push Not at erased
      obtain ⟨k, after, erased⟩ := erased
      exact ⟨k, after, (List.getElem?_eq_some_iff.1 erased).1, erasedAt_concat.2 (.inl erased)⟩
    · exact absurd before (Nat.lt_irrefl _)

/-! ### Keys that follow their history -/

theorem keysOfPast_nil : KeysOfPast past h [] ↔ ∀ key i, ¬ InsertedAt past h key i := by
  constructor
  · intro follows key i inserted
    exact absurd ((follows.present key).2 ⟨i, inserted⟩) List.not_mem_nil
  · intro none
    refine ⟨fun key => ⟨nofun, fun ⟨i, inserted⟩ => absurd inserted (none key i)⟩, .nil⟩

theorem KeysOfPast.of_iff {past' : List Action} (follows : KeysOfPast past h keys)
    (same : ∀ key i, InsertedAt past' h key i ↔ InsertedAt past h key i) :
    KeysOfPast past' h keys where
  present key := by simp only [follows.present, same]
  ordered := by
    simp only [same]
    exact follows.ordered

/-- A request that is about no key of the object. -/
theorem KeysOfPast.other (follows : KeysOfPast past h keys)
    (stores : ∀ key v, a ≠ .store (.reference h) key v)
    (erases : ∀ key, a ≠ .erase (.reference h) key) : KeysOfPast (past ++ [a]) h keys :=
  follows.of_iff fun key _ => insertedAt_concat_of_other (stores key) (erases key)

theorem insertedAt_concat_store_of_ne (differ : key' ≠ key) :
    InsertedAt (past ++ [.store (.reference h) key v]) h key' i ↔ InsertedAt past h key' i :=
  insertedAt_concat_of_other (fun _ same => by cases same; exact differ rfl) nofun

theorem insertedAt_concat_erase_of_ne (differ : key' ≠ key) :
    InsertedAt (past ++ [.erase (.reference h) key]) h key' i ↔ InsertedAt past h key' i :=
  insertedAt_concat_of_other nofun fun same => by cases same; exact differ rfl

/-- A key that is there keeps its place. -/
theorem KeysOfPast.store_of_mem (follows : KeysOfPast past h keys) (mem : key ∈ keys)
    (v : Value) : KeysOfPast (past ++ [.store (.reference h) key v]) h keys := by
  obtain ⟨i, inserted⟩ := (follows.present key).1 mem
  refine follows.of_iff fun key' j => ?_
  by_cases same : key' = key
  · subst key'
    have later := inserted.concat (a := .store (.reference h) key v) nofun
    constructor
    · intro again
      rwa [again.unique later]
    · intro before
      rwa [before.unique inserted]
  · exact insertedAt_concat_store_of_ne same

/-- A key that is not there comes last. -/
theorem KeysOfPast.store_of_notMem (follows : KeysOfPast past h keys) (absent : key ∉ keys)
    (v : Value) : KeysOfPast (past ++ [.store (.reference h) key v]) h (keys ++ [key]) := by
  have new : InsertedAt (past ++ [.store (.reference h) key v]) h key past.length :=
    insertedAt_concat_store (mt (follows.present key).2 absent) v
  refine ⟨fun key' => ?_, List.pairwise_append.2 ⟨?_, List.pairwise_singleton _ _, ?_⟩⟩
  · rw [List.mem_append, List.mem_singleton, follows.present]
    by_cases same : key' = key
    · subst key'
      exact ⟨fun _ => ⟨_, new⟩, fun _ => .inr rfl⟩
    · simp only [same, or_false, insertedAt_concat_store_of_ne same]
  · refine follows.ordered.imp ?_
    rintro key key' ⟨i, j, one, two, before⟩
    exact ⟨i, j, one.concat nofun, two.concat nofun, before⟩
  · rintro key' mem last hlast
    rw [List.mem_singleton.1 hlast]
    obtain ⟨i, inserted⟩ := (follows.present key').1 mem
    exact ⟨i, past.length, inserted.concat nofun, new, inserted.stored.lt_length⟩

theorem KeysOfPast.store (follows : KeysOfPast past h keys) (key : String) (v : Value) :
    KeysOfPast (past ++ [.store (.reference h) key v]) h
      (if key ∈ keys then keys else keys ++ [key]) := by
  split
  · rename_i mem
    exact follows.store_of_mem mem v
  · rename_i absent
    exact follows.store_of_notMem absent v

theorem KeysOfPast.erase (follows : KeysOfPast past h keys) (key : String) :
    KeysOfPast (past ++ [.erase (.reference h) key]) h (keys.erase key) := by
  have left {key' : String} (mem : key' ∈ keys.erase key) : key' ≠ key :=
    (follows.nodup.mem_erase_iff.1 mem).1
  refine ⟨fun key' => ?_, ?_⟩
  · rw [follows.nodup.mem_erase_iff, follows.present]
    by_cases same : key' = key
    · subst key'
      simp [not_insertedAt_concat_erase]
    · simp [same, insertedAt_concat_erase_of_ne same]
  · refine (follows.ordered.sublist List.erase_sublist).imp_of_mem ?_
    rintro key₁ key₂ mem₁ mem₂ ⟨i, j, one, two, before⟩
    exact ⟨i, j, (insertedAt_concat_erase_of_ne (left mem₁)).2 one,
      (insertedAt_concat_erase_of_ne (left mem₂)).2 two, before⟩

end

end CountedHeap
