import CountedHeap.Proofs.Making

/-!
Properties and key tables. A store takes over the reference on the stored value,
and hands the one on the displaced value to the outside, which gives it back. A
value that is read is handed over with a reference of its own.
-/

namespace CountedHeap

/-! ### References in tables and elements -/

section

variable {key : String} {v old : Value} {p : Payload}

/-- The reference on the value under a key. -/
def findRefs (table : List Property) (key : String) : Multiset Handle :=
  match findKey? table key with
  | some v => v.refs
  | none => 0

theorem findRefs_cons (q : Property) (table : List Property) :
    findRefs (q :: table) key = if q.key = key then q.value.refs else findRefs table key := by
  by_cases here : q.key = key
  · rw [if_pos here, findRefs, findKey?, List.find?_cons_of_pos (by simpa using here)]
    rfl
  · rw [if_neg here, findRefs, findKey?, List.find?_cons_of_neg (by simpa using here)]
    rfl

theorem refsOf_storeKey (key : String) (v : Value) (table : List Property) :
    refsOf ((storeKey key v table).map (·.value)) + findRefs table key =
      refsOf (table.map (·.value)) + v.refs := by
  induction table with
  | nil => simp [storeKey, findRefs, findKey?]
  | cons q table ih =>
      rw [findRefs_cons]
      by_cases here : q.key = key
      · simp only [storeKey, here, beq_self_eq_true, if_true, List.map_cons, refsOf_cons]
        abel
      · simp only [storeKey, beq_iff_eq, here, if_false, List.map_cons, refsOf_cons, add_assoc, ih]

theorem refsOf_eraseKey (key : String) (table : List Property) :
    refsOf ((eraseKey key table).map (·.value)) + findRefs table key =
      refsOf (table.map (·.value)) := by
  induction table with
  | nil => simp [eraseKey, findRefs, findKey?]
  | cons q table ih =>
      rw [findRefs_cons]
      by_cases here : q.key = key
      · simp only [eraseKey, List.eraseP_cons, here, beq_self_eq_true, if_true, List.map_cons,
          refsOf_cons, cond_true]
        abel
      · have keep : eraseKey key (q :: table) = q :: eraseKey key table := by
          simp [eraseKey, here]
        rw [keep, if_neg here, List.map_cons, List.map_cons, refsOf_cons, refsOf_cons, add_assoc,
          ih]

theorem refsOf_set {vs : List Value} {i : Nat} (found : vs[i]? = some old) :
    refsOf (vs.set i v) + old.refs = refsOf vs + v.refs := by
  induction vs generalizing i with
  | nil => simp at found
  | cons w vs ih =>
      cases i with
      | zero =>
          rw [List.getElem?_cons_zero, Option.some.injEq] at found
          subst found
          rw [List.set_cons_zero, refsOf_cons, refsOf_cons]
          abel
      | succ i =>
          rw [List.getElem?_cons_succ] at found
          rw [List.set_cons_succ, refsOf_cons, refsOf_cons, add_assoc, ih found, add_assoc]

/-- Whether and what a store displaces. -/
def Placement.displaced : Placement → Multiset Handle
  | .replaces old => old.refs
  | .extends _ => 0

theorem Payload.owned_setProperties (table : List Property) (hp : p.hasTable = true) :
    ((p.setProperties table).owned : Multiset Handle) + refsOf (p.properties.map (·.value)) =
      ↑p.owned + refsOf (table.map (·.value)) := by
  cases p <;> simp only [Payload.hasTable, Bool.false_eq_true] at hp <;>
    (simp only [coe_owned, Payload.setProperties, Payload.values, Payload.properties, refsOf_cons]
     abel)

theorem Payload.owned_store_table {place : Placement} (hp : p.hasTable = true)
    (found : p.placement? key = some place) :
    ((p.setProperties (storeKey key v p.properties)).owned : Multiset Handle) + place.displaced =
      ↑p.owned + v.refs := by
  have displaced : place.displaced = findRefs p.properties key := by
    rw [Payload.placement?_of_table hp, Option.some.injEq] at found
    rw [← found, findRefs]
    cases findKey? p.properties key <;> rfl
  have stored := refsOf_storeKey key v p.properties
  have kept := p.owned_setProperties (storeKey key v p.properties) hp
  rw [displaced]
  apply add_right_cancel (b := refsOf (p.properties.map (·.value)))
  rw [add_right_comm, kept, add_assoc, stored]
  abel

/-- A store exchanges the displaced reference for the stored one. -/
theorem Payload.owned_store {place : Placement} (found : p.placement? key = some place) :
    ((p.store key v).owned : Multiset Handle) + place.displaced = ↑p.owned + v.refs := by
  cases p with
  | plain proto table => exact Payload.owned_store_table rfl found
  | function proto name table => exact Payload.owned_store_table rfl found
  | host proto table cookie => exact Payload.owned_store_table rfl found
  | array proto items =>
      simp only [Payload.placement?] at found
      simp only [Payload.store]
      split at found
      · cases found
      · rename_i i index
        simp only [coe_owned]
        -- An element is replaced where it stands, or one is added at the end.
        split at found
        · rename_i old item
          obtain ⟨inside, -⟩ := Array.getElem?_eq_some_iff.1 item
          rw [← Option.some.inj found, if_neg inside.ne]
          simp only [Payload.values, refsOf_cons, Array.toList_setIfInBounds, Placement.displaced,
            add_assoc]
          rw [refsOf_set (by simpa using item)]
        · split at found
          · rename_i next
            rw [← Option.some.inj found, if_pos next]
            simp [Payload.values, Placement.displaced, add_assoc]
          · cases found
  | string text => simp [Payload.placement?, Payload.hasTable] at found
  | number d => simp [Payload.placement?, Payload.hasTable] at found
  | released => simp [Payload.placement?, Payload.hasTable] at found

theorem Payload.owned_erase (found : findKey? p.properties key = some old) :
    ((p.setProperties (eraseKey key p.properties)).owned : Multiset Handle) + old.refs =
      ↑p.owned := by
  have table : p.hasTable = true := by
    cases p <;> first | rfl | simp [Payload.properties, findKey?] at found
  have erased := refsOf_eraseKey key p.properties
  have kept := p.owned_setProperties (eraseKey key p.properties) table
  rw [findRefs, found] at erased
  apply add_right_cancel (b := refsOf (p.properties.map (·.value)))
  rw [add_right_comm, kept, add_assoc, erased]

theorem Payload.owned_append (array : p.isArray = true) :
    ((p.append v).owned : Multiset Handle) = ↑p.owned + v.refs := by
  cases p <;> simp only [Payload.isArray, Bool.false_eq_true] at array
  simp [coe_owned, Payload.append, Payload.values, add_assoc]

theorem Payload.mem_values_of_find? (found : p.find? key = some v) : v ∈ p.values := by
  have table (hp : ∀ w, w ∈ p.properties.map (·.value) → w ∈ p.values)
      (found : findKey? p.properties key = some v) : v ∈ p.values := by
    obtain ⟨q, hq, rfl⟩ := Option.map_eq_some_iff.1 found
    exact hp _ (List.mem_map_of_mem (List.mem_of_find?_eq_some hq))
  cases p with
  | array proto items =>
      obtain ⟨i, -, item⟩ := Option.bind_eq_some_iff.1 found
      obtain ⟨inside, rfl⟩ := Array.getElem?_eq_some_iff.1 item
      exact List.mem_cons_of_mem _ (by simp)
  | plain proto properties => exact table (fun w => List.mem_cons_of_mem _) found
  | function proto name properties => exact table (fun w => List.mem_cons_of_mem _) found
  | host proto properties cookie => exact table (fun w => List.mem_cons_of_mem _) found
  | string text => simp [Payload.find?, Payload.properties, findKey?] at found
  | number d => simp [Payload.find?, Payload.properties, findKey?] at found
  | released => simp [Payload.find?, Payload.properties, findKey?] at found

end

/-! ### Changing a payload -/

section

variable {e : Engine} {M : Finset Handle} {X X' : Multiset Handle} {h : Handle} {o : Object}
  {target v : Value} {key : String}

/-- An object with anything in its payload is live. -/
theorem Engine.Settled.live_of_payload (hs : e.Settled M X) (found : e.object? target = some o)
    (hp : o.payload ≠ .released) : ∃ h, target = .reference h ∧ e.heap.slot h = .live o := by
  obtain ⟨h, handle, found⟩ := Option.bind_eq_some_iff.1 found
  refine ⟨h, ?_, ?_⟩
  · cases target with
    | immediate w => cases handle
    | reference k => exact congrArg Value.reference (Option.some.inj handle)
  · rcases Heap.object?_eq_some.1 found with slot | slot
    · exact slot
    · exact absurd (hs.sound.parked slot).2.2.2 hp

theorem Engine.Settled.updatePayload {f : Payload → Payload} (hs : e.Settled M X)
    (slot : e.heap.slot h = .live o)
    (moved : X' + ↑(f o.payload).owned = X + (o.payload.owned : Multiset Handle)) :
    (e.updatePayload (.reference h) f).Settled M X' := by
  have heap := e.heap.references_update_live (fun o => { o with payload := f o.payload }) slot
  have total : X' + (e.updatePayload (.reference h) f).references = X + e.references := by
    apply add_right_cancel (b := (o.payload.owned : Multiset Handle))
    show X' + ((e.heap.update h fun o => { o with payload := f o.payload }).references +
      e.anchors) + _ = X + (e.heap.references + e.anchors) + _
    calc
      _ = X' + ((e.heap.update h fun o => { o with payload := f o.payload }).references +
            (o.payload.owned : Multiset Handle)) + e.anchors := by abel
      _ = (X' + ↑(f o.payload).owned) + e.heap.references + e.anchors := by rw [heap]; abel
      _ = _ := by rw [moved]; abel
  refine ⟨⟨?_, ?_, Multiset.nodup_zero⟩, ?_, hs.blameless.updateObject subset_rfl⟩
  · intro k
    have sound := hs.sound.slots k
    show ((e.heap.update h fun o => { o with payload := f o.payload }).slot k).Sound _ _
    rw [Heap.slot_update]
    split
    · subst k
      obtain ⟨unmarked, fresh, positive⟩ := hs.sound.live slot
      rw [slot]
      exact ⟨unmarked, .inl ⟨fresh, .inl positive⟩⟩
    · exact sound
  · exact fun k hk => absurd hk (Multiset.notMem_zero k)
  · refine hs.owned.transfer ?_ Heap.size_update (congrArg (· + e.abandoned) total) total.le
    intro k
    show ((e.heap.update h fun o => { o with payload := f o.payload }).object? k).map _ = _
    rw [Heap.object?_update]
    split
    · cases e.heap.object? k <;> rfl
    · rfl

theorem Engine.Settled.grow (hs : e.Settled M X) (n : Nat) : (e.grow n).Settled M X :=
  Engine.Balanced.congr hs

theorem Engine.Settled.shrink (hs : e.Settled M X) (n : Nat) : (e.shrink n).Settled M X :=
  Engine.Balanced.congr hs

theorem Engine.Settled.store (hs : e.Settled M (v.refs + X)) :
    (e.store target key v).2.Settled M X := by
  rw [Engine.store]
  cases taken : (e.object? target).bind (·.payload.placement? key) with
  | none => exact hs.release
  | some place =>
      obtain ⟨o, object, found⟩ := Option.bind_eq_some_iff.1 taken
      have full : o.payload ≠ .released := by
        intro empty
        simp [empty, Payload.placement?, Payload.hasTable] at found
      obtain ⟨h, rfl, slot⟩ := hs.live_of_payload object full
      have exchanged := Payload.owned_store (v := v) found
      have stored : (e.updatePayload (.reference h) (Payload.store key v)).Settled M
          (place.displaced + X) := by
        apply hs.updatePayload slot
        rw [add_right_comm, add_comm place.displaced, exchanged]
        abel
      cases place with
      | replaces old => exact stored.release
      | «extends» n =>
          rw [Placement.displaced, zero_add] at stored
          exact stored.grow n

theorem Engine.Settled.erase (hs : e.Settled M X) : (e.erase target key).2.Settled M X := by
  rw [Engine.erase]
  cases held : (e.object? target).bind (findKey? ·.payload.properties key) with
  | none => exact hs
  | some old =>
      obtain ⟨o, object, found⟩ := Option.bind_eq_some_iff.1 held
      have full : o.payload ≠ .released := by
        intro empty
        simp [empty, Payload.properties, findKey?] at found
      obtain ⟨h, rfl, slot⟩ := hs.live_of_payload object full
      have erased := Payload.owned_erase found
      have removed : (e.updatePayload (.reference h)
          fun p => p.setProperties (eraseKey key p.properties)).Settled M (old.refs + X) := by
        apply hs.updatePayload slot
        rw [← erased]
        abel
      exact (removed.shrink _).release

theorem Engine.Settled.append (hs : e.Settled M (v.refs + X)) :
    (e.append target v).2.Settled M X := by
  rw [Engine.append]
  split
  · rename_i isArray
    obtain ⟨o, object, array⟩ := (Option.any_eq_true _ _).1 isArray
    have full : o.payload ≠ .released := by
      intro empty
      simp [empty, Payload.isArray] at array
    obtain ⟨h, rfl, slot⟩ := hs.live_of_payload object full
    refine Engine.Settled.grow (hs.updatePayload slot ?_) _
    rw [Payload.owned_append array]
    abel
  · exact hs.release

/-! ### Reading -/

theorem Engine.Settled.names_of_mem_values (hs : e.Settled M X) (found : e.object? target = some o)
    (mem : v ∈ o.payload.values) : e.Names v := by
  have full : o.payload ≠ .released := by
    intro empty
    rw [empty] at mem
    exact List.not_mem_nil mem
  obtain ⟨h, -, slot⟩ := hs.live_of_payload found full
  refine hs.names_of_mem fun k hk => Multiset.mem_add.2 (.inl (Heap.mem_references.2 ⟨h, ?_⟩))
  rw [Value.mem_refs] at hk
  subst hk
  rw [Heap.ownedBy_of_live slot, ← Multiset.mem_coe, coe_owned, mem_refsOf]
  exact mem

theorem Engine.Settled.fetch (hs : e.Settled M X) (range : (e.fetch target key).2.InRange) :
    (e.fetch target key).2.Settled M ((e.fetch target key).1.refs + X) := by
  rw [Engine.fetch] at range ⊢
  cases found : e.object? target with
  | none =>
      rw [Value.refs_undefined, zero_add]
      exact hs
  | some o =>
      simp only [found] at range ⊢
      split
      · rename_i n length key
        -- The length of an array is a number that takes no place in the heap.
        have immediate : n.refs = 0 := by
          cases payload : o.payload <;> rw [payload] at length <;>
            simp only [Payload.length?, Option.some.injEq, reduceCtorEq] at length
          rw [← length, Value.refs_immediate]
        rw [immediate, zero_add]
        exact hs
      · rename_i other
        split
        · rename_i w item
          have retained : (e.retain w).InRange := by
            split at range
            · rename_i n length key
              exact absurd key (other n length)
            · simpa only [item] using range
          exact hs.retain (hs.names_of_mem_values found (Payload.mem_values_of_find? item)) retained
        · rw [Value.refs_undefined, zero_add]
          exact hs

/-! ### Key tables -/

/-- The references that the entries of a key table own. -/
def tableRefs (table : List KeyEntry) : Multiset Handle :=
  refsOf (table.map (·.atom))

theorem Engine.Settled.dropKeyTable {table : List KeyEntry}
    (hs : e.Settled M (tableRefs table + X)) : (e.dropKeyTable table).Settled M X :=
  hs.releaseAll

theorem Engine.Settled.makeKeyTable {made : Array KeyEntry} {keys : List String}
    (hs : e.Settled M (tableRefs made.toList + X)) :
    (e.makeKeyTable made keys).2.Settled M
      (((e.makeKeyTable made keys).1.elim 0 tableRefs) + X) := by
  induction keys generalizing e made with
  | nil => exact hs
  | cons key rest ih =>
      have atom := hs.makeString key
      rw [Engine.makeKeyTable]
      split
      · rename_i v e' step
        rw [step, handedOver] at atom
        apply ih
        rw [← add_assoc, add_comm v.refs] at atom
        simpa [tableRefs] using atom
      · rename_i refusal e' step
        rw [step, handedOver, zero_add] at atom
        rw [Option.elim_none, zero_add]
        exact atom.dropKeyTable

theorem Engine.Settled.keyTableOf (hs : e.Settled M X) :
    (e.keyTableOf target).2.Settled M (((e.keyTableOf target).1.elim 0 tableRefs) + X) := by
  apply Engine.Settled.makeKeyTable
  rw [tableRefs, List.map_nil, refsOf_nil, zero_add]
  exact hs

end

end CountedHeap
