import CountedHeap.Proofs.Alike

/-!
Operations on two engines that look alike. An operation that is asked about what
can be seen gives the same answer on both sides, and the engines look alike after
it. Reading depends on payloads and classes only, and these are the same; every
other operation is put together from the moves of which that is known. Nothing is
said about counts, which need not be the same.
-/

namespace CountedHeap

section

variable {e e₁ e₂ : Engine} {X : Multiset Handle} {h k : Handle} {o : Object} {v target : Value}
  {key : String}

theorem Engine.Alike.ofZero (alike : Engine.Alike X e₁ e₂) : Engine.Alike (0 + X) e₁ e₂ := by
  rwa [zero_add]

theorem Engine.inSight_immediate (w : Word) : e.InSight X (.immediate w) :=
  fun h mem => absurd mem (Multiset.notMem_zero h)

theorem Engine.inSight_refs : e.InSight (v.refs + X) v :=
  fun _ named => .root (Multiset.mem_add.2 (.inl (Multiset.mem_add.2 (.inl named))))

theorem Engine.inSight_of_mem {vs : List Value} (mem : v ∈ vs) : e.InSight (refsOf vs + X) v := by
  intro h named
  refine .root (Multiset.mem_add.2 (.inl (Multiset.mem_add.2 (.inl ?_))))
  rw [mem_refsOf, ← Value.mem_refs.1 named]
  exact mem

/-- An operation is refused on both sides, or it is done on both. -/
theorem Engine.Twin.split {α : Type} {gained : Except Refusal α → Multiset Handle}
    {r₁ r₂ : Except Refusal α × Engine} (twin : Engine.Twin gained X r₁ r₂) :
    (∃ refusal e₁ e₂, r₁ = (.error refusal, e₁) ∧ r₂ = (.error refusal, e₂) ∧
      Engine.Alike (gained (.error refusal) + X) e₁ e₂) ∨
    ∃ x e₁ e₂, r₁ = (.ok x, e₁) ∧ r₂ = (.ok x, e₂) ∧ Engine.Alike (gained (.ok x) + X) e₁ e₂ := by
  obtain ⟨r₁, e₁⟩ := r₁
  obtain ⟨r₂, e₂⟩ := r₂
  obtain ⟨answer, alike⟩ := twin
  obtain rfl : r₂ = r₁ := answer
  cases r₂ with
  | error refusal => exact .inl ⟨refusal, e₁, e₂, rfl, rfl, alike⟩
  | ok x => exact .inr ⟨x, e₁, e₂, rfl, rfl, alike⟩

theorem Engine.Sees.inSight (sees : e.Sees X h) (slot : e.heap.slot h = .live o)
    (mem : v ∈ o.payload.values) : e.InSight X v := by
  intro k named
  rw [Value.mem_refs] at named
  subst named
  refine .within sees ?_
  rw [Heap.ownedBy_of_live slot, ← Multiset.mem_coe, coe_owned, mem_refsOf]
  exact mem

/-! ### Reading -/

/-- What is in sight is an immediate, or the same live object on both sides. -/
theorem Engine.Alike.view (alike : Engine.Alike X e₁ e₂) (sight : e₁.InSight X v) :
    (∃ w, v = .immediate w) ∨ ∃ h o₁ o₂, v = .reference h ∧ e₁.Sees X h ∧
      e₁.heap.slot h = .live o₁ ∧ e₂.heap.slot h = .live o₂ ∧ o₁.classId = o₂.classId ∧
        o₁.payload = o₂.payload := by
  cases v with
  | immediate w => exact .inl ⟨w, rfl⟩
  | reference h =>
      have sees := sight h (Multiset.mem_singleton_self h)
      obtain ⟨o₁, o₂, slot₁, slot₂, classId, payload⟩ := alike.seen h sees
      exact .inr ⟨h, o₁, o₂, rfl, sees, slot₁, slot₂, classId, payload⟩

theorem Engine.Alike.number?_eq (alike : Engine.Alike X e₁ e₂) (sight : e₁.InSight X v) :
    e₂.number? v = e₁.number? v := by
  rcases alike.view sight with ⟨w, rfl⟩ | ⟨h, o₁, o₂, rfl, -, slot₁, slot₂, -, payload⟩
  · rfl
  · simp only [Engine.number?, Heap.object?_of_live slot₁, Heap.object?_of_live slot₂,
      Option.bind_some, payload]

theorem Engine.Alike.string?_eq (alike : Engine.Alike X e₁ e₂) (sight : e₁.InSight X v) :
    e₂.string? v = e₁.string? v := by
  rcases alike.view sight with ⟨w, rfl⟩ | ⟨h, o₁, o₂, rfl, -, slot₁, slot₂, -, payload⟩
  · rfl
  · simp only [Engine.string?, Engine.object?_of_live slot₁, Engine.object?_of_live slot₂,
      Option.bind_some, payload]

theorem Engine.Alike.carriesProperties_eq (alike : Engine.Alike X e₁ e₂)
    (sight : e₁.InSight X v) : e₂.carriesProperties v = e₁.carriesProperties v := by
  rcases alike.view sight with ⟨w, rfl⟩ | ⟨h, o₁, o₂, rfl, -, slot₁, slot₂, classId, -⟩
  · rfl
  · simp only [Engine.carriesProperties, Engine.object?_of_live slot₁,
      Engine.object?_of_live slot₂, Option.any_some, Object.objectClass, classId]

theorem Engine.Alike.protoOf_eq (alike : Engine.Alike X e₁ e₂) (sight : e₁.InSight X v) :
    e₂.protoOf v = e₁.protoOf v := by
  rcases alike.view sight with ⟨w, rfl⟩ | ⟨h, o₁, o₂, rfl, -, slot₁, slot₂, -, payload⟩
  · rfl
  · simp only [Engine.protoOf, Engine.object?_of_live slot₁, Engine.object?_of_live slot₂, payload]

theorem Engine.Alike.keysOf_eq (alike : Engine.Alike X e₁ e₂) (sight : e₁.InSight X v) :
    e₂.keysOf v = e₁.keysOf v := by
  rcases alike.view sight with ⟨w, rfl⟩ | ⟨h, o₁, o₂, rfl, -, slot₁, slot₂, -, payload⟩
  · rfl
  · simp only [Engine.keysOf, Engine.object?_of_live slot₁, Engine.object?_of_live slot₂, payload]

/-! ### Properties -/

theorem Engine.Alike.store (alike : Engine.Alike (v.refs + X) e₁ e₂)
    (sight : e₁.InSight (v.refs + X) target) :
    Engine.Twin (fun _ => 0) X (e₁.store target key v) (e₂.store target key v) := by
  rcases alike.view sight with ⟨w, rfl⟩ | ⟨h, o₁, o₂, rfl, sees, slot₁, slot₂, -, payload⟩
  · exact ⟨rfl, alike.release.ofZero⟩
  · simp only [Engine.store, Engine.object?_of_live slot₁, Engine.object?_of_live slot₂,
      Option.bind_some, ← payload]
    cases found : o₁.payload.placement? key with
    | none => exact ⟨rfl, alike.release.ofZero⟩
    | some place =>
        have exchanged := Payload.owned_store (v := v) found
        have stored : Engine.Alike (place.displaced + X)
            (e₁.updatePayload (.reference h) (Payload.store key v))
            (e₂.updatePayload (.reference h) (Payload.store key v)) := by
          apply alike.updatePayload sees slot₁
          rw [add_right_comm, add_comm place.displaced, exchanged]
          abel
        cases place with
        | replaces old => exact ⟨rfl, stored.release.ofZero⟩
        | «extends» n => exact ⟨rfl, stored.grow n⟩

theorem Engine.Alike.erase (alike : Engine.Alike X e₁ e₂) (sight : e₁.InSight X target) :
    Engine.Twin (fun _ => 0) X (e₁.erase target key) (e₂.erase target key) := by
  rcases alike.view sight with ⟨w, rfl⟩ | ⟨h, o₁, o₂, rfl, sees, slot₁, slot₂, -, payload⟩
  · exact ⟨rfl, alike.ofZero⟩
  · simp only [Engine.erase, Engine.object?_of_live slot₁, Engine.object?_of_live slot₂,
      Option.bind_some, ← payload]
    cases found : findKey? o₁.payload.properties key with
    | none => exact ⟨rfl, alike.ofZero⟩
    | some old =>
        have erased := Payload.owned_erase found
        have removed : Engine.Alike (old.refs + X)
            (e₁.updatePayload (.reference h) fun p => p.setProperties (eraseKey key p.properties))
            (e₂.updatePayload (.reference h) fun p =>
              p.setProperties (eraseKey key p.properties)) := by
          apply alike.updatePayload sees slot₁
          rw [← erased]
          abel
        exact ⟨rfl, (removed.shrink _).release.ofZero⟩

theorem Engine.Alike.append (alike : Engine.Alike (v.refs + X) e₁ e₂)
    (sight : e₁.InSight (v.refs + X) target) :
    Engine.Twin (fun _ => 0) X (e₁.append target v) (e₂.append target v) := by
  rcases alike.view sight with ⟨w, rfl⟩ | ⟨h, o₁, o₂, rfl, sees, slot₁, slot₂, -, payload⟩
  · exact ⟨rfl, alike.release.ofZero⟩
  · simp only [Engine.append, Engine.object?_of_live slot₁, Engine.object?_of_live slot₂,
      Option.any_some, ← payload]
    by_cases array : o₁.payload.isArray = true
    · have appended : Engine.Alike X (e₁.updatePayload (.reference h) (Payload.append v))
          (e₂.updatePayload (.reference h) (Payload.append v)) := by
        apply alike.updatePayload sees slot₁
        rw [Payload.owned_append array]
        abel
      rw [if_pos array, if_pos array]
      exact ⟨rfl, (appended.grow elementSize).ofZero⟩
    · rw [if_neg array, if_neg array]
      exact ⟨rfl, alike.release.ofZero⟩

/-- The length of an array is a number that takes no place in the heap. -/
theorem Payload.refs_of_length? {p : Payload} {n : Value} (length : p.length? = some n) :
    n.refs = 0 := by
  cases p <;> simp only [Payload.length?, Option.some.injEq, reduceCtorEq] at length
  rw [← length, Value.refs_immediate]

theorem Engine.Alike.fetch (alike : Engine.Alike X e₁ e₂) (sight : e₁.InSight X target)
    (range : (e₁.fetch target key).2.InRange ∧ (e₂.fetch target key).2.InRange) :
    Engine.Twin Value.refs X (e₁.fetch target key) (e₂.fetch target key) := by
  rcases alike.view sight with ⟨w, rfl⟩ | ⟨h, o₁, o₂, rfl, sees, slot₁, slot₂, -, payload⟩
  · exact ⟨rfl, alike.ofZero⟩
  · simp only [Engine.fetch, Engine.object?_of_live slot₁, Engine.object?_of_live slot₂,
      ← payload] at range ⊢
    revert range
    split
    · rename_i n length _
      intro range
      refine ⟨rfl, ?_⟩
      rw [Payload.refs_of_length? length]
      exact alike.ofZero
    · split
      · rename_i w found
        intro range
        have inside := sees.inSight slot₁ (Payload.mem_values_of_find? found)
        exact ⟨rfl, alike.retain inside range⟩
      · exact fun _ => ⟨rfl, alike.ofZero⟩

end

/-! ### Constructors -/

section

variable {e e₁ e₂ : Engine} {X taken : Multiset Handle} {proto : Value} {classId : ClassId}
  {payload : Payload} {c : ContextId} {ctx : Context} {v : Value}

theorem Engine.Alike.allocateWithProto (alike : Engine.Alike (taken + X) e₁ e₂)
    (sight : e₁.InSight (taken + X) proto)
    (range : (e₁.allocateWithProto proto classId payload).2.InRange ∧
      (e₂.allocateWithProto proto classId payload).2.InRange)
    (owned : (payload.owned : Multiset Handle) = proto.refs + taken) :
    Engine.Twin handedOver X (e₁.allocateWithProto proto classId payload)
      (e₂.allocateWithProto proto classId payload) := by
  have retained := alike.retain sight
    (range.imp Engine.inRange_allocateWithProto.1 Engine.inRange_allocateWithProto.1)
  rw [← add_assoc, ← owned] at retained
  exact retained.allocate

theorem Engine.Alike.makeWithProto (alike : Engine.Alike X e₁ e₂) (sight : e₁.InSight X proto)
    (range : (e₁.makeWithProto proto classId).2.InRange ∧
      (e₂.makeWithProto proto classId).2.InRange) :
    Engine.Twin handedOver X (e₁.makeWithProto proto classId) (e₂.makeWithProto proto classId) := by
  simp only [Engine.makeWithProto] at range ⊢
  cases made : Payload.empty? (ObjectClass.ofId classId) proto with
  | none => exact ⟨rfl, alike.ofZero⟩
  | some payload =>
      simp only [made] at range
      rw [← zero_add X] at alike sight
      exact alike.allocateWithProto sight range (Payload.owned_empty? made)

theorem Engine.Alike.makeArray {items : Array Value}
    (alike : Engine.Alike (refsOf items.toList + X) e₁ e₂)
    (sight : e₁.InSight (refsOf items.toList + X) proto)
    (range : (e₁.makeArray proto items).2.InRange ∧ (e₂.makeArray proto items).2.InRange) :
    Engine.Twin handedOver X (e₁.makeArray proto items) (e₂.makeArray proto items) := by
  apply alike.allocateWithProto sight range
  rw [coe_owned, Payload.values, refsOf_cons]

theorem Engine.Alike.makeFunction {name : String} (alike : Engine.Alike X e₁ e₂)
    (sight : e₁.InSight X proto)
    (range : (e₁.makeFunction name proto).2.InRange ∧ (e₂.makeFunction name proto).2.InRange) :
    Engine.Twin handedOver X (e₁.makeFunction name proto) (e₂.makeFunction name proto) := by
  rw [← zero_add X] at alike sight
  apply alike.allocateWithProto sight range
  rw [coe_owned, Payload.values, refsOf_cons]
  rfl

theorem Engine.Alike.makeHost {cookie : UInt64} (alike : Engine.Alike X e₁ e₂)
    (sight : e₁.InSight X proto)
    (range : (e₁.makeHost proto classId cookie).2.InRange ∧
      (e₂.makeHost proto classId cookie).2.InRange) :
    Engine.Twin handedOver X (e₁.makeHost proto classId cookie)
      (e₂.makeHost proto classId cookie) := by
  simp only [Engine.makeHost] at range ⊢
  split
  · rename_i host
    simp only [host, if_true] at range
    rw [← zero_add X] at alike sight
    apply alike.allocateWithProto sight range
    rw [coe_owned, Payload.values, refsOf_cons]
    rfl
  · exact ⟨rfl, alike.ofZero⟩

theorem Engine.Alike.makeString (alike : Engine.Alike X e₁ e₂) (text : String) :
    Engine.Twin handedOver X (e₁.makeString text) (e₂.makeString text) :=
  Engine.Alike.allocate alike.ofZero

theorem Engine.Alike.boxNumber (alike : Engine.Alike X e₁ e₂) (d : Binary64) :
    Engine.Twin handedOver X (e₁.boxNumber d) (e₂.boxNumber d) :=
  Engine.Alike.allocate alike.ofZero

theorem Engine.Alike.makeNumber (alike : Engine.Alike X e₁ e₂) (d : Binary64) :
    Engine.Twin handedOver X (e₁.makeNumber d) (e₂.makeNumber d) := by
  rw [Engine.makeNumber, Engine.makeNumber]
  split
  · exact ⟨rfl, alike.ofZero⟩
  · exact alike.boxNumber d

theorem Engine.Alike.makeKeyTable {made : Array KeyEntry} {keys : List String}
    (alike : Engine.Alike (tableRefs made.toList + X) e₁ e₂) :
    Engine.Twin (·.elim 0 tableRefs) X (e₁.makeKeyTable made keys) (e₂.makeKeyTable made keys) := by
  induction keys generalizing e₁ e₂ made with
  | nil => exact ⟨rfl, alike⟩
  | cons key rest ih =>
      rw [Engine.makeKeyTable, Engine.makeKeyTable]
      rcases (alike.makeString key).split with
        ⟨refusal, e₁', e₂', step₁, step₂, next⟩ | ⟨atom, e₁', e₂', step₁, step₂, next⟩ <;>
        rw [step₁, step₂]
      · rw [handedOver, zero_add] at next
        exact ⟨rfl, next.releaseAll.ofZero⟩
      · apply ih
        rw [handedOver, ← add_assoc, add_comm atom.refs] at next
        simpa [tableRefs] using next

theorem Engine.Alike.keyTableOf {target : Value} (alike : Engine.Alike X e₁ e₂)
    (sight : e₁.InSight X target) :
    Engine.Twin (·.elim 0 tableRefs) X (e₁.keyTableOf target) (e₂.keyTableOf target) := by
  rw [Engine.keyTableOf, Engine.keyTableOf, alike.keysOf_eq sight]
  apply Engine.Alike.makeKeyTable
  exact alike.ofZero

/-! ### Objects of a context -/

theorem Engine.Alike.activeContext_eq (alike : Engine.Alike X e₁ e₂) (c : ContextId) :
    e₂.activeContext c = e₁.activeContext c := by
  rw [Engine.activeContext, alike.contexts, Engine.activeContext]

theorem Engine.Alike.protoFor_eq (alike : Engine.Alike X e₁ e₂) (c : ContextId)
    (classId : ClassId) : e₂.protoFor c classId = e₁.protoFor c classId := by
  rw [Engine.protoFor, alike.activeContext_eq, Engine.protoFor]

theorem Engine.Settled.inSight_of_context (hs : e.Settled M X)
    (found : e.contexts[c.toNat]? = some ctx) (hopen : ctx.isOpen = true)
    (mem : v ∈ ctx.global :: (ctx.prototypes.toList ++ ctx.registered.toList)) :
    e.InSight X v := by
  intro k named
  have still := hs.isClosed_eq_false found hopen
  refine .root (Multiset.mem_add.2 (.inr ((Engine.mem_anchors still).2 ⟨ctx, ?_, ?_⟩)))
  · exact Array.mem_of_getElem? found
  · rw [Context.references_of_isOpen hopen, mem_refsOf, ← Value.mem_refs.1 named]
    exact mem

theorem Engine.Settled.inSight_protoFor (hs : e.Settled M X)
    (found : e.protoFor c classId = .ok proto) : e.InSight X proto := by
  rcases Engine.protoFor_eq_ok found with rfl | ⟨ctx, context, hopen, mem⟩
  · exact Engine.inSight_immediate _
  · exact hs.inSight_of_context context hopen mem

theorem Engine.Alike.globalOf (alike : Engine.Alike X e₁ e₂)
    (range : (e₁.globalOf c).2.InRange ∧ (e₂.globalOf c).2.InRange) :
    Engine.Twin handedOver X (e₁.globalOf c) (e₂.globalOf c) := by
  simp only [Engine.globalOf, alike.activeContext_eq c] at range ⊢
  cases active : e₁.activeContext c with
  | error refusal => exact ⟨rfl, alike.ofZero⟩
  | ok ctx =>
      simp only [active] at range
      obtain ⟨context, phase⟩ := Engine.activeContext_eq_ok active
      have sight : e₁.InSight X ctx.global :=
        alike.first.settled.inSight_of_context context (Context.isOpen_of_active phase)
          List.mem_cons_self
      exact ⟨rfl, alike.retain sight range⟩

theorem Engine.Alike.takeProto (alike : Engine.Alike X e₁ e₂)
    (range : (e₁.takeProto c classId).2.InRange ∧ (e₂.takeProto c classId).2.InRange) :
    Engine.Twin handedOver X (e₁.takeProto c classId) (e₂.takeProto c classId) := by
  simp only [Engine.takeProto, alike.protoFor_eq c classId] at range ⊢
  cases found : e₁.protoFor c classId with
  | error refusal => exact ⟨rfl, alike.ofZero⟩
  | ok proto =>
      simp only [found] at range
      exact ⟨rfl, alike.retain (alike.first.settled.inSight_protoFor found) range⟩

theorem Engine.Alike.makeOfClass (alike : Engine.Alike X e₁ e₂)
    (range : (e₁.makeOfClass c classId).2.InRange ∧ (e₂.makeOfClass c classId).2.InRange) :
    Engine.Twin handedOver X (e₁.makeOfClass c classId) (e₂.makeOfClass c classId) := by
  simp only [Engine.makeOfClass, alike.protoFor_eq c classId] at range ⊢
  cases found : e₁.protoFor c classId with
  | error refusal => exact ⟨rfl, alike.ofZero⟩
  | ok proto =>
      simp only [found] at range
      exact alike.makeWithProto (alike.first.settled.inSight_protoFor found) range

/-- What is done with a reference that is given back in the end. -/
theorem Engine.Twin.release {r₁ r₂ : Except Refusal Value × Engine}
    (twin : Engine.Twin handedOver (v.refs + X) r₁ r₂) :
    Engine.Twin handedOver X (r₁.1, r₁.2.release v) (r₂.1, r₂.2.release v) := by
  obtain ⟨answer, alike⟩ := twin
  rw [add_left_comm] at alike
  exact ⟨answer, alike.release⟩

theorem Engine.Alike.makeFunctionIn {name : String} (alike : Engine.Alike X e₁ e₂)
    (range : (e₁.makeFunctionIn c name).2.InRange ∧ (e₂.makeFunctionIn c name).2.InRange) :
    Engine.Twin handedOver X (e₁.makeFunctionIn c name) (e₂.makeFunctionIn c name) := by
  simp only [Engine.makeFunctionIn, Engine.takeProto, alike.protoFor_eq c ClassId.function]
    at range ⊢
  cases found : e₁.protoFor c ClassId.function with
  | error refusal => exact ⟨rfl, alike.ofZero⟩
  | ok proto =>
      simp only [found, inRange_of_frame (Engine.frame_release _ _)] at range
      have taken := alike.retain (alike.first.settled.inSight_protoFor found)
        (range.imp Engine.inRange_of_allocateWithProto Engine.inRange_of_allocateWithProto)
      exact (taken.makeFunction Engine.inSight_refs range).release

theorem Engine.inRange_fetch_of_construct {constructor : Value}
    (active : e.activeContext c = .ok ctx) (given : ¬ constructor.isUndefined = true)
    (range : (e.construct c constructor classId).2.InRange) :
    (e.fetch constructor "prototype").2.InRange := by
  rw [Engine.construct] at range
  rcases step : e.fetch constructor "prototype" with ⟨proto, e'⟩
  simp only [active, if_neg given, step] at range ⊢
  split at range
  · dsimp only at range
    rw [inRange_of_frame (Engine.frame_release _ _)] at range
    exact Engine.inRange_of_makeWithProto range
  · have before := Engine.inRange_of_makeOfClass range
    rwa [inRange_of_frame (Engine.frame_release _ _)] at before

theorem Engine.Alike.construct {constructor : Value} (alike : Engine.Alike X e₁ e₂)
    (sight : e₁.InSight X constructor)
    (range : (e₁.construct c constructor classId).2.InRange ∧
      (e₂.construct c constructor classId).2.InRange) :
    Engine.Twin handedOver X (e₁.construct c constructor classId)
      (e₂.construct c constructor classId) := by
  cases active : e₁.activeContext c with
  | error refusal =>
      simp only [Engine.construct, alike.activeContext_eq c, active]
      exact ⟨rfl, alike.ofZero⟩
  | ok ctx =>
      have active₂ : e₂.activeContext c = .ok ctx := (alike.activeContext_eq c).trans active
      by_cases absent : constructor.isUndefined = true
      · simp only [Engine.construct, active, active₂, if_pos absent] at range ⊢
        exact alike.makeOfClass range
      · obtain ⟨answer, fetched⟩ := alike.fetch sight
          (range.imp (Engine.inRange_fetch_of_construct active absent)
            (Engine.inRange_fetch_of_construct active₂ absent))
        rw [Engine.construct, Engine.construct] at range ⊢
        rcases step₁ : e₁.fetch constructor "prototype" with ⟨proto, e₁'⟩
        rcases step₂ : e₂.fetch constructor "prototype" with ⟨proto₂, e₂'⟩
        simp only [step₁, step₂] at answer fetched
        subst answer
        simp only [active, active₂, if_neg absent, step₁, step₂,
          fetched.carriesProperties_eq Engine.inSight_refs] at range ⊢
        by_cases usable : e₁'.carriesProperties proto₂ = true
        · simp only [if_pos usable, inRange_of_frame (Engine.frame_release _ _)] at range ⊢
          exact (fetched.makeWithProto Engine.inSight_refs range).release
        · simp only [if_neg usable] at range ⊢
          exact fetched.release.makeOfClass range

/-! ### Opening contexts -/

/-- A context that is opened makes the prototypes first. -/
theorem Engine.inRange_makePlain_of_makePrototypes {base : Value} {made : Array Value} {n : Nat}
    (range : (e.makePrototypes base made (n + 1)).2.InRange) : (e.makePlain base).2.InRange := by
  rw [Engine.makePrototypes] at range
  rcases step : e.makePlain base with ⟨refusal | proto, e'⟩ <;> simp only [step] at range
  · rwa [inRange_of_frame (Engine.frame_releaseAll _ _)] at range
  · exact Engine.inRange_of_makePrototypes range

theorem Engine.Alike.makePrototypes {base : Value} {made : Array Value} {n : Nat}
    (alike : Engine.Alike (refsOf made.toList + X) e₁ e₂) (mem : base ∈ made)
    (range : (e₁.makePrototypes base made n).2.InRange ∧
      (e₂.makePrototypes base made n).2.InRange) :
    Engine.Twin handedOverAll X (e₁.makePrototypes base made n)
      (e₂.makePrototypes base made n) := by
  induction n generalizing e₁ e₂ made with
  | zero => exact ⟨rfl, alike⟩
  | succ n ih =>
      have first : Engine.Twin handedOver (refsOf made.toList + X) (e₁.makePlain base)
          (e₂.makePlain base) :=
        alike.makeWithProto (Engine.inSight_of_mem mem.val)
          (range.imp Engine.inRange_makePlain_of_makePrototypes
            Engine.inRange_makePlain_of_makePrototypes)
      rw [Engine.makePrototypes, Engine.makePrototypes] at range ⊢
      rcases first.split with
        ⟨refusal, e₁', e₂', step₁, step₂, next⟩ | ⟨proto, e₁', e₂', step₁, step₂, next⟩ <;>
        rw [step₁, step₂] at range ⊢
      · rw [handedOver, zero_add] at next
        exact ⟨rfl, next.releaseAll.ofZero⟩
      · refine ih ?_ (Array.mem_push_of_mem proto mem) range
        rw [Array.toList_push, refsOf_append, refsOf_cons, refsOf_nil, add_zero]
        rw [handedOver, ← add_assoc, add_comm proto.refs] at next
        exact next

theorem Engine.Alike.makeContext {base : Value} {protos : Array Value}
    (alike : Engine.Alike (refsOf protos.toList + X) e₁ e₂) (mem : base ∈ protos)
    (range : (e₁.makeContext base protos).2.InRange ∧ (e₂.makeContext base protos).2.InRange) :
    Engine.Twin (fun _ => 0) X (e₁.makeContext base protos) (e₂.makeContext base protos) := by
  have sight : e₁.InSight (0 + (refsOf protos.toList + X)) base := by
    rw [zero_add]
    exact Engine.inSight_of_mem mem.val
  have owned : ((Payload.plain base []).owned : Multiset Handle) = base.refs + 0 := by
    rw [coe_owned, Payload.values, refsOf_cons]
    rfl
  have made : Engine.Twin handedOver (refsOf protos.toList + X)
      (e₁.allocateWithProto base ClassId.global (.plain base []))
      (e₂.allocateWithProto base ClassId.global (.plain base [])) :=
    alike.ofZero.allocateWithProto sight
      (range.imp Engine.inRange_allocate_of_makeContext Engine.inRange_allocate_of_makeContext)
      owned
  rw [Engine.makeContext, Engine.makeContext]
  rcases made.split with
    ⟨refusal, e₁', e₂', step₁, step₂, next⟩ | ⟨global, e₁', e₂', step₁, step₂, next⟩ <;>
    rw [step₁, step₂]
  · rw [handedOver, zero_add] at next
    exact ⟨rfl, next.releaseAll.ofZero⟩
  · have same : UInt32.ofNat e₂'.contexts.size = UInt32.ofNat e₁'.contexts.size := by
      rw [next.contexts]
    dsimp only
    rw [same]
    refine ⟨rfl, Engine.Alike.ofZero (Engine.Alike.pushContext ?_ rfl)⟩
    · rw [Context.references_of_isOpen rfl]
      rw [handedOver, ← add_assoc] at next
      simpa using next

/-- The second half of the opening of a context, when the object prototype is made. -/
def Engine.openOn (e : Engine) (base : Value) (n : Nat) : Except Refusal ContextId × Engine :=
  match e.makePrototypes base #[base] n with
  | (.error refusal, e) => (.error refusal, e)
  | (.ok prototypes, e) => e.makeContext base prototypes

theorem Engine.openContext_eq (hopen : e.isClosed = false) (slots : Nat) :
    e.openContext slots = match e.makePlain Value.null with
      | (.error refusal, e) => (.error refusal, e)
      | (.ok base, e) => e.openOn base (prototypeSlots slots - 1) := by
  rw [Engine.openContext, if_neg (Bool.eq_false_iff.1 hopen)]
  rfl

theorem Engine.inRange_makePrototypes_of_openOn {base : Value} {n : Nat}
    (range : (e.openOn base n).2.InRange) : (e.makePrototypes base #[base] n).2.InRange := by
  rw [Engine.openOn] at range
  rcases step : e.makePrototypes base #[base] n with ⟨refusal | protos, e'⟩ <;>
    simp only [step] at range
  · exact range
  · exact Engine.inRange_of_makeContext range

theorem Engine.inRange_makePlain_of_openContext (hopen : e.isClosed = false) {slots : Nat}
    (range : (e.openContext slots).2.InRange) : (e.makePlain Value.null).2.InRange := by
  rw [Engine.openContext_eq hopen] at range
  rcases step : e.makePlain Value.null with ⟨refusal | base, e'⟩ <;> simp only [step] at range
  · exact range
  · exact Engine.inRange_of_makePrototypes (Engine.inRange_makePrototypes_of_openOn range)

theorem Engine.Alike.openOn {base : Value} {n : Nat} (alike : Engine.Alike (base.refs + X) e₁ e₂)
    (range : (e₁.openOn base n).2.InRange ∧ (e₂.openOn base n).2.InRange) :
    Engine.Twin (fun _ => 0) X (e₁.openOn base n) (e₂.openOn base n) := by
  have within : (e₁.makePrototypes base #[base] n).2.InRange ∧
      (e₂.makePrototypes base #[base] n).2.InRange :=
    range.imp Engine.inRange_makePrototypes_of_openOn Engine.inRange_makePrototypes_of_openOn
  rw [← refsOf_singleton] at alike
  have mem : base ∈ #[base] := Array.mem_singleton.2 rfl
  obtain ⟨-, held⟩ := Engine.Settled.makePrototypes alike.first.settled mem within.1
  rw [Engine.openOn, Engine.openOn] at range ⊢
  rcases (Engine.Alike.makePrototypes alike mem within).split with
    ⟨refusal, e₁', e₂', step₁, step₂, next⟩ | ⟨protos, e₁', e₂', step₁, step₂, next⟩ <;>
    rw [step₁, step₂] at range ⊢
  · exact ⟨rfl, next⟩
  · exact next.makeContext (held protos (congrArg Prod.fst step₁)) range

theorem Engine.Alike.openContext {slots : Nat} (alike : Engine.Alike X e₁ e₂)
    (range : (e₁.openContext slots).2.InRange ∧ (e₂.openContext slots).2.InRange) :
    Engine.Twin (fun _ => 0) X (e₁.openContext slots) (e₂.openContext slots) := by
  have hopen₁ := alike.first.hopen
  have hopen₂ := alike.later.hopen
  have made : Engine.Twin handedOver X (e₁.makePlain Value.null) (e₂.makePlain Value.null) :=
    alike.makeWithProto (Engine.inSight_immediate _)
      (range.imp (Engine.inRange_makePlain_of_openContext hopen₁)
        (Engine.inRange_makePlain_of_openContext hopen₂))
  rw [Engine.openContext_eq hopen₁, Engine.openContext_eq hopen₂] at range ⊢
  rcases made.split with
    ⟨refusal, e₁', e₂', step₁, step₂, next⟩ | ⟨base, e₁', e₂', step₁, step₂, next⟩ <;>
    rw [step₁, step₂] at range ⊢
  · exact ⟨rfl, next⟩
  · exact next.openOn range

end

/-! ### Closing contexts -/

section

variable {e e₁ e₂ : Engine} {M : Finset Handle} {X : Multiset Handle} {h : Handle} {o : Object}
  {c : ContextId} {ctx : Context} {v : Value}

theorem Engine.releaseRegistered_aside (e : Engine) (v : Value) :
    (e.releaseRegistered v).isClosed = e.isClosed ∧ (e.releaseRegistered v).limits = e.limits := by
  rw [Engine.releaseRegistered]
  split
  · have frame := e.frame_release v
    exact ⟨isClosed_of_frame frame, congrArg Frame.limits frame⟩
  · rw [Engine.leaveBehind]
    split
    · exact ⟨rfl, rfl⟩
    · exact ⟨rfl, rfl⟩

/-- A registration may be given back on one side and left behind on the other. -/
theorem Engine.Alike.releaseRegistered (alike : Engine.Alike (v.refs + X) e₁ e₂) :
    Engine.Alike X (e₁.releaseRegistered v) (e₂.releaseRegistered v) := by
  obtain ⟨isClosed₁, limits₁⟩ := e₁.releaseRegistered_aside v
  obtain ⟨isClosed₂, limits₂⟩ := e₂.releaseRegistered_aside v
  have settled₁ := alike.first.settled
  have settled₂ := alike.later.settled
  refine alike.fade (alike.first.next settled₁.releaseRegistered isClosed₁ limits₁)
    (alike.later.next settled₂.releaseRegistered isClosed₂ limits₂)
    settled₁.fades_releaseRegistered settled₂.fades_releaseRegistered ?_ ?_
  · rw [Engine.contexts_releaseRegistered, Engine.contexts_releaseRegistered, alike.contexts]
  · intro h mem
    rw [Engine.anchors_congr (e₁.contexts_releaseRegistered v) isClosed₁] at mem
    exact .ofLess mem fun h outside => Multiset.mem_add.2 (.inr outside)

theorem Engine.Alike.foldl_releaseRegistered {vs : List Value}
    (alike : Engine.Alike (refsOf vs + X) e₁ e₂) :
    Engine.Alike X (vs.foldl Engine.releaseRegistered e₁)
      (vs.foldl Engine.releaseRegistered e₂) := by
  induction vs generalizing e₁ e₂ with
  | nil =>
      rw [refsOf_nil, zero_add] at alike
      exact alike
  | cons v rest ih =>
      rw [refsOf_cons, add_assoc] at alike
      exact ih alike.releaseRegistered

theorem Engine.Alike.tearDown (alike : Engine.Alike X e₁ e₂) :
    Engine.Alike X (e₁.tearDown c) (e₂.tearDown c) := by
  cases found : e₁.contexts[c.toNat]? with
  | none =>
      have found₂ : e₂.contexts[c.toNat]? = none := by rw [alike.contexts, found]
      rw [Engine.tearDown, found, Engine.tearDown, found₂]
      exact alike
  | some ctx =>
      have found₂ : e₂.contexts[c.toNat]? = some ctx := by rw [alike.contexts, found]
      by_cases hopen : ctx.isOpen = true
      · have handed := Context.references_handed (X := X) hopen
        have emptied := alike.updateContext found hopen rfl handed
        have vacated : Engine.Alike X (e₁.vacated c ctx) (e₂.vacated c ctx) :=
          emptied.foldl_releaseRegistered.release.releaseAll
        have empty : (e₁.vacated c ctx).contexts[c.toNat]? = some ctx.emptied := by
          rw [Engine.contexts_vacated, Engine.contexts_updateContext, if_pos rfl, found]
          rfl
        rw [Engine.tearDown_eq found hopen, Engine.tearDown_eq found₂ hopen]
        apply vacated.updateContext empty rfl rfl
        rw [Context.references_emptied]
        exact congrArg (X + ·) ctx.references_closed
      · rw [Engine.tearDown, found, Engine.tearDown, found₂]
        simp only [hopen]
        exact alike

theorem Engine.Alike.record {d : Diagnostic} (alike : Engine.Alike X e₁ e₂)
    (excused : d.Excused ∅) : Engine.Alike X (e₁.record d) (e₂.record d) :=
  alike.aside (alike.first.next (Engine.Balanced.record alike.first.settled excused) rfl rfl)
    (alike.later.next (Engine.Balanced.record alike.later.settled excused) rfl rfl) rfl rfl

theorem Engine.Alike.checkCount (alike : Engine.Alike X e₁ e₂) (n : Int) :
    Engine.Alike X (e₁.checkCount n) (e₂.checkCount n) := by
  have first := alike.first.settled.checkCount n
  have later := alike.later.settled.checkCount n
  by_cases fits : CountInRange n
  · rw [Engine.checkCount_of_inRange fits, Engine.checkCount_of_inRange fits]
    exact alike
  · simp only [Engine.checkCount, if_neg fits] at first later ⊢
    exact alike.aside (alike.first.next first rfl rfl) (alike.later.next later rfl rfl) rfl rfl

theorem Engine.Alike.shareContext (alike : Engine.Alike X e₁ e₂) :
    Engine.Alike X (e₁.shareContext c) (e₂.shareContext c) := by
  rw [Engine.shareContext, Engine.shareContext, alike.activeContext_eq]
  cases active : e₁.activeContext c with
  | error refusal => exact alike.record (Diagnostic.excused_contextGone c)
  | ok ctx =>
      obtain ⟨found, phase⟩ := Engine.activeContext_eq_ok active
      rw [← Engine.contexts_checkCount (ctx.count + 1)] at found
      exact (alike.checkCount _).updateContext found (Context.isOpen_of_active phase) rfl rfl

theorem Engine.Alike.settle {d : Decision} (alike : Engine.Alike X e₁ e₂)
    (excused : ∀ d', d = .tolerate d' → d'.Excused ∅) :
    Engine.Alike X (e₁.settle c d) (e₂.settle c d) := by
  cases d with
  | proceed => exact alike.tearDown
  | defer => exact alike
  | tolerate d => exact (alike.record (excused d rfl)).tearDown

theorem Engine.Alike.leaveContext (alike : Engine.Alike X e₁ e₂) :
    Engine.Twin (fun _ => 0) X (e₁.leaveContext c) (e₂.leaveContext c) := by
  rw [Engine.leaveContext, Engine.leaveContext, alike.activeContext_eq]
  cases active : e₁.activeContext c with
  | error refusal => exact ⟨rfl, (alike.record (Diagnostic.excused_contextGone c)).ofZero⟩
  | ok ctx =>
      obtain ⟨found, phase⟩ := Engine.activeContext_eq_ok active
      rw [← Engine.contexts_checkCount (ctx.count - 1)] at found
      have left : Engine.Alike X
          ((e₁.checkCount (ctx.count - 1)).updateContext c fun ctx' =>
            { ctx' with count := wrapCount (ctx.count - 1) })
          ((e₂.checkCount (ctx.count - 1)).updateContext c fun ctx' =>
            { ctx' with count := wrapCount (ctx.count - 1) }) :=
        (alike.checkCount _).updateContext found (Context.isOpen_of_active phase) rfl rfl
      exact ⟨rfl, (left.settle Decision.excused_make).ofZero⟩

/-! ### Registered values -/

theorem Context.references_push (hopen : ctx.isOpen = true) :
    X + ({ ctx with registered := ctx.registered.push v } : Context).references =
      v.refs + X + ctx.references := by
  show X + (if ctx.isOpen then _ else _) = v.refs + X + (if ctx.isOpen then _ else _)
  simp only [hopen, if_true, Array.toList_push, refsOf_cons, refsOf_append, refsOf_nil, add_zero]
  abel

theorem Context.references_removeSwap {i : Nat} (hopen : ctx.isOpen = true)
    (place : lastPlace? ctx.registered v = some i) :
    v.refs + X + ({ ctx with registered := removeSwap ctx.registered i } : Context).references =
      X + ctx.references := by
  have removed := refsOf_removeSwap (lastPlace?_eq_some place)
  show v.refs + X + (if ctx.isOpen then _ else _) = X + (if ctx.isOpen then _ else _)
  simp only [hopen, if_true, refsOf_cons, refsOf_append, ← removed]
  abel

theorem Engine.Alike.register (alike : Engine.Alike X e₁ e₂) (sight : e₁.InSight X v)
    (range : (e₁.register c v).2.InRange ∧ (e₂.register c v).2.InRange) :
    Engine.Twin (fun _ => 0) X (e₁.register c v) (e₂.register c v) := by
  have same : e₂.contextPhase? c = e₁.contextPhase? c := by
    rw [Engine.contextPhase?, alike.contexts, Engine.contextPhase?]
  simp only [Engine.register, same] at range ⊢
  revert range
  split
  · rename_i phase
    obtain ⟨ctx, found, active⟩ := Option.map_eq_some_iff.1 phase
    split
    · intro range
      rw [← Engine.contexts_retain (v := v)] at found
      have hopen := Context.isOpen_of_active active
      have moved := Context.references_push (X := X) (v := v) hopen
      exact ⟨rfl, ((alike.retain sight range).updateContext found hopen rfl moved).ofZero⟩
    · exact fun _ => ⟨rfl, alike.ofZero⟩
  · exact fun _ => ⟨rfl, alike.ofZero⟩
  · exact fun _ => ⟨rfl, alike.ofZero⟩

theorem Engine.Alike.unregister (alike : Engine.Alike X e₁ e₂) :
    Engine.Twin (fun _ => 0) X (e₁.unregister c v) (e₂.unregister c v) := by
  rw [Engine.unregister, Engine.unregister, alike.activeContext_eq]
  cases active : e₁.activeContext c with
  | error refusal => exact ⟨rfl, alike.ofZero⟩
  | ok ctx =>
      obtain ⟨found, phase⟩ := Engine.activeContext_eq_ok active
      dsimp only
      split
      · exact ⟨rfl, alike.ofZero⟩
      · rename_i i place
        have hopen := Context.isOpen_of_active phase
        have moved := Context.references_removeSwap (X := X) hopen place
        exact ⟨rfl, (Engine.Alike.updateContext alike found hopen rfl moved).release.ofZero⟩

/-! ### The bridge -/

theorem Heap.Conserves.trans {H H' H'' : Heap} (first : H.Conserves H')
    (later : H'.Conserves H'') : H.Conserves H'' := by
  refine ⟨later.size.trans first.size, fun k o slot => ?_⟩
  obtain ⟨o', slot', classId, payload⟩ := first.live k o slot
  obtain ⟨o'', slot'', classId', payload'⟩ := later.live k o' slot'
  exact ⟨o'', slot'', classId'.trans classId, payload'.trans payload⟩

theorem Engine.conserves_adopt : e.heap.Conserves (e.adopt v).heap := by
  cases v with
  | immediate w => exact .refl _
  | reference h =>
      have marked : e.heap.Conserves (e.updateObject h Object.adopt).heap :=
        .update Object.recounts_adopt fun _ => rfl
      exact marked.trans (Engine.conserves_retain (v := .reference h))

theorem Engine.frame_adopt (range : (e.adopt v).InRange) : (e.adopt v).frame = e.frame := by
  cases v with
  | immediate w => rfl
  | reference h =>
      exact Engine.frame_retain (e := e.updateObject h Object.adopt) (v := .reference h) range

theorem Engine.Alike.adopt (alike : Engine.Alike X e₁ e₂) (sight : e₁.InSight X v)
    (range : (e₁.adopt v).InRange ∧ (e₂.adopt v).InRange) :
    Engine.Alike (v.refs + X) (e₁.adopt v) (e₂.adopt v) := by
  obtain ⟨named₁, named₂⟩ := sight.names alike
  exact alike.take sight (alike.first.settled.adopt named₁ range.1)
    (alike.later.settled.adopt named₂ range.2) (Engine.frame_adopt range.1)
    (Engine.frame_adopt range.2) Engine.conserves_adopt Engine.conserves_adopt

/-- To give back a counted reference on the bridge is to mark the object and
release the reference. -/
theorem Engine.relinquish_eq_release (found : e.heap.object? h = some o) (counted : 0 < o.count)
    (range : (e.relinquish (.reference h)).2.InRange) :
    (e.relinquish (.reference h)).2 = (e.updateObject h Object.adopt).release (.reference h) := by
  obtain ⟨-, result⟩ := Engine.relinquish_eq found range
  have marked : (e.updateObject h Object.adopt).heap.object? h = some o.adopt := by
    rw [Engine.heap_updateObject, Heap.object?_update, if_pos rfl, found]
    rfl
  -- Both ways the header is marked and its count goes down by one.
  have heap : (e.heap.update h Object.adopt).update h
        (fun o' => { o' with count := o'.count - 1 }) =
      e.heap.update h fun o' => { o'.adopt with count := o.count - 1 } := by
    refine Heap.ext_slot ?_ (fun k => ?_) rfl rfl rfl rfl
    · simp only [Heap.size_update]
    · simp only [Heap.slot_update]
      by_cases same : k = h
      · subst k
        rcases Heap.object?_eq_some.1 found with slot | slot <;> rw [slot] <;>
          simp [Slot.map, Object.adopt]
      · simp only [if_neg same]
  have lowered : ((e.updateObject h Object.adopt).updateObject h fun o' =>
      { o' with count := o'.count - 1 }) =
        e.updateObject h fun o' => { o'.adopt with count := o.count - 1 } :=
    congrArg (fun H => { e with heap := H }) heap
  have positive : 0 < o.adopt.count := counted
  rw [result, Engine.release]
  simp only [Value.handle?, Engine.releaseReference, Engine.dropReference, marked, if_pos positive,
    lowered, Engine.afterRelinquish]
  by_cases last : o.count = 1
  · have ends : (o.adopt.count == 1) = true := beq_iff_eq.2 last
    rw [if_pos (by omega), ends]
  · have stays : (o.adopt.count == 1) = false := beq_eq_false_iff_ne.2 last
    rw [if_neg (by omega), if_neg (by omega), stays]

theorem Engine.Alike.relinquish (alike : Engine.Alike (v.refs + X) e₁ e₂)
    (range : (e₁.relinquish v).2.InRange ∧ (e₂.relinquish v).2.InRange) :
    Engine.Alike X (e₁.relinquish v).2 (e₂.relinquish v).2 := by
  rcases alike.view Engine.inSight_refs with
    ⟨w, rfl⟩ | ⟨h, o₁, o₂, rfl, -, slot₁, slot₂, -, -⟩
  · rw [Value.refs_immediate, zero_add] at alike
    exact alike
  · have found₁ := Heap.object?_of_live slot₁
    have found₂ := Heap.object?_of_live slot₂
    have settled₁ := alike.first.settled
    have settled₂ := alike.later.settled
    have marked : Engine.Alike ((Value.reference h).refs + X) (e₁.updateObject h Object.adopt)
        (e₂.updateObject h Object.adopt) :=
      alike.conserve (alike.first.next (settled₁.markAdopted found₁) rfl rfl)
        (alike.later.next (settled₂.markAdopted found₂) rfl rfl)
        (.update Object.recounts_adopt fun _ => rfl) (.update Object.recounts_adopt fun _ => rfl)
        alike.contexts fun k mem => .root mem
    rw [Engine.relinquish_eq_release found₁ (settled₁.sound.live slot₁).2.2 range.1,
      Engine.relinquish_eq_release found₂ (settled₂.sound.live slot₂).2.2 range.2]
    exact marked.release

end

end CountedHeap
