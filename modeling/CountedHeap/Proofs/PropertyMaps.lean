import CountedHeap.Proofs.BridgeCounts
import CountedHeap.Proofs.Keys
import CountedHeap.Proofs.Upkeep
import Mathlib.Logic.Function.Basic

/-!
Property tables as maps. An object with a property table is a map from keys to values
whose keys keep the order of their insertion. A store writes one key and an erasure takes
one away; the reference on the value that was there is given back once, when the table
has changed already, and everything else that happens follows from that. It may happen
that this ends the object itself. The order of the keys is the one that the requests made
so far say, whatever else the engine was asked for in between.
-/

namespace CountedHeap

/-- `e'` differs from `e` in what an object has under one key, and lists its keys as
given. -/
structure Engine.Writes (e e' : Engine) (h : Handle) (key : String) (v : Value)
    (keys : List String) : Prop where
  reads : e'.reads h = Function.update (e.reads h) key v
  keysOf : e'.keysOf (.reference h) = keys

/-- A new key comes last. -/
def insertKey (key : String) (keys : List String) : List String :=
  if key ∈ keys then keys else keys ++ [key]

/-- What a store does to an object with a property table. -/
structure Engine.StoresInMap (e : Engine) (h : Handle) (o : Object) (key : String) (v : Value)
    (r : Except Refusal Unit × Engine) : Prop where
  succeeds : r.1 = .ok ()
  written : e.Writes (e.updatePayload (.reference h) (Payload.store key v)) h key v
    (insertKey key (e.keysOf (.reference h)))
  grows : key ∉ e.keysOf (.reference h) → r.2.isLive (.reference h) = true ∧
    r.2 = (e.updatePayload (.reference h) (Payload.store key v)).grow (propertySize key)
  releases : ∀ old, o.payload.find? key = some old →
    r.2 = (e.updatePayload (.reference h) (Payload.store key v)).release old
  remains : r.2.isLive (.reference h) = true →
    e.Writes r.2 h key v (insertKey key (e.keysOf (.reference h)))

/-- What an erasure does to an object with a property table. -/
structure Engine.ErasesFromMap (e : Engine) (h : Handle) (o : Object) (key : String)
    (r : Bool × Engine) : Prop where
  answer : r.1 = true ↔ key ∈ e.keysOf (.reference h)
  absent : key ∉ e.keysOf (.reference h) → r.2 = e
  releases : ∀ old, o.payload.find? key = some old → r.2 =
    ((e.updatePayload (.reference h) (Payload.erase key)).shrink (propertySize key)).release old
  remains : r.2.isLive (.reference h) = true →
    e.Writes r.2 h key Value.undefined ((e.keysOf (.reference h)).erase key)

/-- The object that an operation on properties is about. -/
def Action.propertyTarget? : Action → Option Value
  | .store target _ _ => some target
  | .fetch target _ => some target
  | .erase target _ => some target
  | .append target _ => some target
  | .protoOf target => some target
  | .keysOf target => some target
  | .keyTableOf target => some target
  | .carriesProperties target => some target
  | _ => none

/-- An object with a property table, in an engine that was asked for `past`. -/
structure Engine.IsMap (e : Engine) (past : List Action) (h : Handle) (o : Object) : Prop where
  distinct : (e.keysOf (.reference h)).Nodup
  history : KeysOfPast past h (e.keysOf (.reference h))
  holds : ∀ key, key ∈ e.keysOf (.reference h) ↔ ∃ v, o.payload.find? key = some v
  reads : ∀ key, e.reads h key = (o.payload.find? key).getD Value.undefined
  undefined : ∀ key, e.reads h key = Value.undefined ↔
    key ∉ e.keysOf (.reference h) ∨ o.payload.find? key = some Value.undefined
  store : ∀ key v, e.StoresInMap h o key v (e.store (.reference h) key v)
  erase : ∀ key, e.ErasesFromMap h o key (e.erase (.reference h) key)
  apart : ∀ a, a.propertyTarget? = some (.reference h) → ∀ k other other', k ≠ h →
    e.heap.slot k = .live other → (e.perform a).2.heap.slot k = .live other' →
      other'.payload = other.payload

section

variable {e e' : Engine} {h k : Handle} {o o' : Object} {key other : String} {v : Value}
  {p : Payload} {a : Action} {past : List Action}

/-! ### Payloads with a table -/

@[simp] theorem Payload.hasTable_store : (p.store key v).hasTable = p.hasTable := by
  cases p with
  | array proto items =>
      rw [Payload.store]
      split
      · rfl
      · split <;> rfl
  | _ => rfl

@[simp] theorem Payload.hasTable_erase : (p.erase key).hasTable = p.hasTable := by
  cases p <;> rfl

@[simp] theorem Payload.hasTable_append : (p.append v).hasTable = p.hasTable := by
  cases p <;> rfl

theorem Payload.properties_setProperties (table : p.hasTable = true)
    (properties : List Property) : (p.setProperties properties).properties = properties := by
  cases p <;> first | rfl | cases table

theorem Payload.properties_store (table : p.hasTable = true) :
    (p.store key v).properties = storeKey key v p.properties := by
  cases p <;> first | rfl | cases table

theorem Payload.properties_erase (table : p.hasTable = true) :
    (p.erase key).properties = eraseKey key p.properties :=
  Payload.properties_setProperties table _

theorem Payload.keys_of_table (table : p.hasTable = true) :
    p.keys = p.properties.map (·.key) := by
  cases p <;> first | rfl | cases table

theorem Payload.find?_of_table (table : p.hasTable = true) :
    p.find? key = findKey? p.properties key := by
  cases p <;> first | rfl | cases table

theorem Payload.length?_of_table (table : p.hasTable = true) : p.length? = none := by
  cases p <;> first | rfl | cases table

theorem Payload.Fits.hasTable (fits : p.Fits o.objectClass)
    (carries : o.objectClass.carriesProperties = true) (notArray : o.objectClass ≠ .array) :
    p.hasTable = true := by
  cases p with
  | array proto items => exact absurd fits notArray
  | string text =>
      rw [show o.objectClass = .string from fits] at carries
      cases carries
  | number d =>
      rw [show o.objectClass = .number from fits] at carries
      cases carries
  | released => exact fits.elim
  | _ => rfl

/-! ### Reading a table -/

theorem Engine.keysOf_of_table (slot : e.heap.slot h = .live o)
    (table : o.payload.hasTable = true) :
    e.keysOf (.reference h) = o.payload.properties.map (·.key) := by
  rw [Engine.keysOf_of_live slot, Payload.keys_of_table table]

theorem Engine.reads_of_table (slot : e.heap.slot h = .live o)
    (table : o.payload.hasTable = true) :
    e.reads h key = (findKey? o.payload.properties key).getD Value.undefined := by
  rw [Engine.reads, Engine.fetch, Engine.object?_of_live slot]
  simp only [Payload.length?_of_table table, Payload.find?_of_table table]
  cases findKey? o.payload.properties key <;> rfl

theorem Engine.writes_store (slot : e.heap.slot h = .live o) (table : o.payload.hasTable = true)
    (slot' : e'.heap.slot h = .live o') (payload : o'.payload = o.payload.store key v) :
    e.Writes e' h key v (insertKey key (e.keysOf (.reference h))) := by
  have table' : o'.payload.hasTable = true := by rw [payload, Payload.hasTable_store, table]
  constructor
  · funext other
    rw [Engine.reads_of_table slot' table', payload, Payload.properties_store table,
      findKey?_storeKey, Function.update_apply, Engine.reads_of_table slot table]
    split <;> rfl
  · rw [Engine.keysOf_of_table slot' table', payload, Payload.properties_store table,
      keys_storeKey, Engine.keysOf_of_table slot table]
    rfl

theorem Engine.writes_erase (slot : e.heap.slot h = .live o) (table : o.payload.hasTable = true)
    (distinct : (o.payload.properties.map (·.key)).Nodup)
    (slot' : e'.heap.slot h = .live o') (payload : o'.payload = o.payload.erase key) :
    e.Writes e' h key Value.undefined ((e.keysOf (.reference h)).erase key) := by
  have table' : o'.payload.hasTable = true := by rw [payload, Payload.hasTable_erase, table]
  constructor
  · funext other
    rw [Engine.reads_of_table slot' table', payload, Payload.properties_erase table,
      findKey?_eraseKey distinct, Function.update_apply, Engine.reads_of_table slot table]
    split <;> rfl
  · rw [Engine.keysOf_of_table slot' table', payload, Payload.properties_erase table,
      keys_eraseKey, Engine.keysOf_of_table slot table]

/-! ### Writing a table -/

theorem Engine.store_of_table (slot : e.heap.slot h = .live o)
    (table : o.payload.hasTable = true) (key : String) (v : Value) :
    e.store (.reference h) key v =
      match findKey? o.payload.properties key with
      | some old => (.ok (), (e.updatePayload (.reference h) (Payload.store key v)).release old)
      | none => (.ok (),
          (e.updatePayload (.reference h) (Payload.store key v)).grow (propertySize key)) := by
  rw [Engine.store, Engine.object?_of_live slot, Option.bind_some,
    Payload.placement?_of_table table]
  cases findKey? o.payload.properties key <;> rfl

theorem Engine.erase_of_table (slot : e.heap.slot h = .live o) (key : String) :
    e.erase (.reference h) key =
      match findKey? o.payload.properties key with
      | some old => (true, ((e.updatePayload (.reference h) (Payload.erase key)).shrink
          (propertySize key)).release old)
      | none => (false, e) := by
  rw [Engine.erase, Engine.object?_of_live slot, Option.bind_some]
  cases findKey? o.payload.properties key <;> rfl

theorem Engine.storesInMap (tidy : e.heap.Tidy) (slot : e.heap.slot h = .live o)
    (table : o.payload.hasTable = true) :
    e.StoresInMap h o key v (e.store (.reference h) key v) := by
  have written := Engine.slot_updatePayload slot (Payload.store key v)
  have stored := Engine.store_of_table slot table key v
  refine ⟨?_, Engine.writes_store slot table written rfl, fun absent => ?_, fun old found => ?_,
    fun live => ?_⟩
  · rw [stored]
    split <;> rfl
  · rw [Engine.keysOf_of_table slot table, ← findKey?_eq_none_iff] at absent
    rw [stored, absent]
    exact ⟨Heap.isLive_iff.2 ⟨_, written⟩, rfl⟩
  · rw [Payload.find?_of_table table] at found
    rw [stored, found]
  · obtain ⟨o', slot'⟩ := Heap.isLive_iff.1 live
    have payload := ((Engine.rewritten_store tidy).payload_eq slot slot').2
    rw [Action.written, if_pos rfl] at payload
    exact Engine.writes_store slot table slot' payload

theorem Engine.erasesFromMap (tidy : e.heap.Tidy) (slot : e.heap.slot h = .live o)
    (table : o.payload.hasTable = true)
    (distinct : (o.payload.properties.map (·.key)).Nodup) :
    e.ErasesFromMap h o key (e.erase (.reference h) key) := by
  have erased := Engine.erase_of_table slot key
  refine ⟨?_, fun absent => ?_, fun old found => ?_, fun live => ?_⟩
  · rw [Engine.keysOf_of_table slot table, mem_keys_iff, erased]
    cases findKey? o.payload.properties key <;> simp
  · rw [Engine.keysOf_of_table slot table, ← findKey?_eq_none_iff] at absent
    rw [erased, absent]
  · rw [Payload.find?_of_table table] at found
    rw [erased, found]
  · obtain ⟨o', slot'⟩ := Heap.isLive_iff.1 live
    have payload := ((Engine.rewritten_erase tidy).payload_eq slot slot').2
    rw [Action.written, if_pos rfl] at payload
    exact Engine.writes_erase slot table distinct slot' payload

theorem Action.written_of_other (about : a.propertyTarget? = some (.reference h))
    (differ : k ≠ h) : a.written k p = p := by
  cases a with
  | store target key v =>
      cases about
      exact if_neg differ
  | erase target key =>
      cases about
      exact if_neg differ
  | append target v =>
      cases about
      exact if_neg differ
  | _ => rfl

theorem Action.hasTable_written (a : Action) (h : Handle) (p : Payload) :
    (a.written h p).hasTable = p.hasTable := by
  rw [Action.written.eq_def]
  split <;> first | rfl | (split <;> simp)

theorem Engine.isMap (tidy : e.heap.Tidy) (slot : e.heap.slot h = .live o)
    (table : o.payload.hasTable = true)
    (follows : KeysOfPast past h (o.payload.properties.map (·.key))) : e.IsMap past h o := by
  have keys := Engine.keysOf_of_table slot table
  have reads (key : String) : e.reads h key = (o.payload.find? key).getD Value.undefined := by
    rw [Engine.reads_of_table slot table, Payload.find?_of_table table]
  have holds (key : String) :
      key ∈ e.keysOf (.reference h) ↔ ∃ v, o.payload.find? key = some v := by
    rw [keys, mem_keys_iff, Payload.find?_of_table table]
  refine ⟨keys ▸ follows.nodup, keys ▸ follows, holds, reads, fun key => ?_,
    fun key v => Engine.storesInMap tidy slot table,
    fun key => Engine.erasesFromMap tidy slot table follows.nodup, ?_⟩
  · rw [reads, holds]
    cases o.payload.find? key <;> simp
  · intro a about k other other' differ before after
    rw [((Engine.rewritten_perform tidy a).payload_eq before after).2,
      Action.written_of_other about differ]

/-! ### The history of a table -/

/-- The tables of an engine follow the requests made so far, none of which named an object
that was still to be made. -/
structure Engine.FollowsPast (e : Engine) (past : List Action) : Prop where
  tidy : e.heap.Tidy
  keys : ∀ h o, e.heap.slot h = .live o → o.payload.hasTable = true →
    KeysOfPast past h (o.payload.properties.map (·.key))
  silent : ∀ h, e.heap.slots.size ≤ h → ∀ a ∈ past, .reference h ∉ a.arguments

/-- A table after one more request. -/
theorem KeysOfPast.concat (follows : KeysOfPast past h (p.properties.map (·.key)))
    (table : p.hasTable = true) (a : Action) :
    KeysOfPast (past ++ [a]) h ((a.written h p).properties.map (·.key)) := by
  cases a with
  | store target key v =>
      cases target with
      | immediate w => exact follows.other nofun nofun
      | reference k =>
          rw [Action.written]
          split
          · subst k
            rw [Payload.properties_store table, keys_storeKey]
            exact follows.store key v
          · rename_i differ
            exact follows.other (fun _ _ same => by cases same; exact differ rfl) nofun
  | erase target key =>
      cases target with
      | immediate w => exact follows.other nofun nofun
      | reference k =>
          rw [Action.written]
          split
          · subst k
            rw [Payload.properties_erase table, keys_eraseKey]
            exact follows.erase key
          · rename_i differ
            exact follows.other nofun fun _ same => by cases same; exact differ rfl
  | append target v =>
      have same : Action.written (.append target v) h p = p := by
        cases target with
        | immediate w => rfl
        | reference k =>
            rw [Action.written, Payload.append_of_other (by cases p <;> first | rfl | cases table)]
            exact ite_self p
      rw [same]
      exact follows.other nofun nofun
  | _ => exact follows.other nofun nofun

theorem Engine.FollowsPast.perform (follows : e.FollowsPast past) (a : Action)
    (unstrayed : (e.perform a).2.breaches.strayAccess = false) :
    (e.perform a).2.FollowsPast (past ++ [a]) := by
  have rewritten := Engine.rewritten_perform follows.tidy a
  have silent : ∀ h, e.heap.slots.size ≤ h → ∀ b ∈ past ++ [a], .reference h ∉ b.arguments := by
    intro h outside b mem named
    rcases List.mem_append.1 mem with before | last
    · exact follows.silent h outside b before named
    · rw [List.mem_singleton.1 last] at named
      obtain ⟨o, found⟩ :=
        Engine.isValid_reference_iff.1 (Engine.valid_of_unstrayed unstrayed _ named)
      exact absurd (Heap.lt_size_of_object? found) outside.not_gt
  refine ⟨(Engine.ages_perform follows.tidy a).1, fun h o' live table => ?_,
    fun h outside => silent h (rewritten.size.trans outside)⟩
  by_cases inside : h < e.heap.slots.size
  · obtain ⟨o, before, -, payload⟩ := rewritten.kept live inside
    rw [payload, Action.hasTable_written] at table
    rw [payload]
    exact (follows.keys h o before table).concat table a
  · rw [rewritten.fresh live (Nat.le_of_not_lt inside)]
    refine keysOfPast_nil.2 fun key i inserted => ?_
    obtain ⟨v, stored⟩ := inserted.stored
    exact silent h (Nat.le_of_not_lt inside) _ (List.mem_of_getElem? stored) List.mem_cons_self

theorem Engine.followsPast_run (limits : Limits) (past : List Action)
    (unstrayed : (Engine.after limits past).breaches.strayAccess = false) :
    (Engine.after limits past).FollowsPast past := by
  induction past using List.reverseRecOn with
  | nil =>
      refine ⟨(Engine.recorded_new limits).tidy, fun h o live => ?_, nofun⟩
      cases live
  | append_singleton past a ih =>
      have last : Engine.after limits (past ++ [a]) = ((Engine.after limits past).perform a).2 :=
        Engine.run_append _ past [a]
      rw [last] at unstrayed ⊢
      have before : ((Engine.after limits past).run [a]).2.breaches.strayAccess = false := unstrayed
      exact (ih (Engine.unstrayed_of_run before)).perform a unstrayed

end

/-- Whoever makes which requests, as long as no header that is gone was read, every live
object with a property table is a map that remembers the order of its keys. -/
theorem Engine.isMap_run (limits : Limits) (past : List Action) {h : Handle} {o : Object}
    (unstrayed : (Engine.after limits past).breaches.strayAccess = false)
    (live : (Engine.after limits past).heap.slot h = .live o)
    (carries : o.objectClass.carriesProperties = true) (notArray : o.objectClass ≠ .array) :
    (Engine.after limits past).IsMap past h o := by
  have follows := Engine.followsPast_run limits past unstrayed
  have recorded := (Engine.recorded_new limits).run past
  obtain ⟨m, made, classId, bare⟩ := recorded.kin h o live
  have fits := recorded.fits h m made
  rw [Object.objectClass, ← classId] at fits
  have table := (Payload.fits_of_bare bare fits).hasTable carries notArray
  exact Engine.isMap follows.tidy live table (follows.keys h o live table)

/-- A key is erased and comes back at the end, while one of the values is an object that
ends as it is displaced. -/
def keysReordered : List Action :=
  [.makePlain Value.null, .makeString "text", .store (.reference 0) "a" (.reference 1),
    .store (.reference 0) "b" Value.null, .store (.reference 0) "a" Value.undefined,
    .erase (.reference 0) "a", .store (.reference 0) "a" Value.null,
    .store (.reference 0) "b" Value.undefined]

theorem isMap_keysReordered :
    (Engine.after {} keysReordered).breaches.strayAccess = false ∧
      (Engine.after {} keysReordered).keysOf (.reference 0) = ["b", "a"] ∧
        ∃ o, (Engine.after {} keysReordered).heap.slot 0 = .live o ∧
          o.objectClass.carriesProperties = true ∧ o.objectClass ≠ .array ∧
            (Engine.after {} keysReordered).IsMap keysReordered 0 o := by
  refine ⟨by decide +kernel, by decide +kernel, ?_⟩
  refine ⟨⟨0, 1, false, false, false, false,
    .plain Value.null [⟨"b", Value.undefined⟩, ⟨"a", Value.null⟩]⟩, ?_, ?_, ?_, ?_⟩
  · decide +kernel
  · decide +kernel
  · decide +kernel
  · exact Engine.isMap_run {} keysReordered (by decide +kernel) (by decide +kernel)
      (by decide +kernel) (by decide +kernel)

/-- An object that nobody owns but itself, and that the host once adopted. -/
def ownedByItself : List Action :=
  [.makePlain Value.null, .adopt (.reference 0), .store (.reference 0) "k" (.reference 0),
    .relinquish (.reference 0)]

/-- The release of a displaced value may end the object that was written, and then nothing
is read from it any more. -/
theorem not_reads_what_was_stored :
    (Engine.after {} ownedByItself).isLive (.reference 0) = true ∧
      ((Engine.after {} ownedByItself).store (.reference 0) "k" Value.null).1 = .ok () ∧
        ((Engine.after {} ownedByItself).store (.reference 0) "k" Value.null).2.isParked
            (.reference 0) = true ∧
          ((Engine.after {} ownedByItself).store (.reference 0) "k" Value.null).2.reads 0 "k" ≠
              Value.null ∧
            ((Engine.after {} ownedByItself).store (.reference 0) "k"
              Value.null).2.breaches.strayAccess = false := by
  decide +kernel

end CountedHeap
