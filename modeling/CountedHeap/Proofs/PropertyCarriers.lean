import CountedHeap.Proofs.Lifecycle
import CountedHeap.Proofs.Origins

/-!
Who carries properties. Whether a value carries properties is told from the class of its
header, and whether a property is taken depends on the payload. As long as an object is
live the two agree, whoever misuses the bridge. When it has come to its end the header is
empty and takes nothing, and yet it is still told to be a carrier, as it was before. So a
constructor function can give a new object a prototype that takes no properties, but only
one that did so when it was made.
-/

namespace CountedHeap

/-- There is a key under which the object that `v` refers to takes every value. -/
def Engine.TakesProperties (e : Engine) (v : Value) : Prop :=
  ∃ key, ∀ x, (e.store v key x).1 = .ok ()

/-- What is told of a value, and what becomes of properties that are stored in it. -/
structure Engine.TellsCarrier (e : Engine) (v : Value) : Prop where
  began : e.carriesProperties v = true ↔ e.BeganAsCarrier v
  live : e.isLive v = true → (e.carriesProperties v = true ↔ e.TakesProperties v)
  other : e.isLive v = false → ∀ key x, (e.store v key x).1 = .error .notAnObject

section

variable {e : Engine} {M : Finset Handle} {X : Multiset Handle} {h : Handle} {o : Object}
  {v x : Value} {p : Payload} {c : ObjectClass} {key : String}

/-! ### Payloads -/

/-- A payload takes properties under some key if objects of its class carry them. An array
takes the key `0` if it takes any. -/
theorem Payload.Fits.takes_iff (fits : p.Fits c) :
    (∃ key, (p.placement? key).isSome = true) ↔ c.carriesProperties = true := by
  have table (has : p.hasTable = true) : ∃ key, (p.placement? key).isSome = true :=
    ⟨"", by rw [Payload.placement?_of_table has]; rfl⟩
  cases p with
  | plain proto properties =>
      refine iff_of_true (table rfl) ?_
      rcases fits with rfl | rfl <;> rfl
  | function proto name properties =>
      obtain rfl : c = .function := fits
      exact iff_of_true (table rfl) rfl
  | host proto properties cookie =>
      obtain rfl : c = .host := fits
      exact iff_of_true (table rfl) rfl
  | array proto items =>
      obtain rfl : c = .array := fits
      refine iff_of_true ⟨"0", ?_⟩ rfl
      have first : elementIndex? "0" = some 0 := by decide
      cases item : items[0]? with
      | some old => simp only [Payload.placement?, first, item, Option.isSome_some]
      | none =>
          have empty : 0 = items.size :=
            (Nat.le_zero.1 (Array.getElem?_eq_none_iff.1 item)).symm
          simp only [Payload.placement?, first, item, if_pos empty, Option.isSome_some]
  | string text =>
      obtain rfl : c = .string := fits
      refine iff_of_false ?_ Bool.false_ne_true
      rintro ⟨key, taken⟩
      cases taken
  | number d =>
      obtain rfl : c = .number := fits
      refine iff_of_false ?_ Bool.false_ne_true
      rintro ⟨key, taken⟩
      cases taken
  | released => exact fits.elim

theorem Payload.proto_of_bare {q : Payload} (same : q.bare = p.bare) : q.proto = p.proto := by
  cases p <;> cases q <;> simp only [Payload.bare, reduceCtorEq] at same <;> cases same <;> rfl

theorem Payload.proto_mem_values (given : p.proto ≠ Value.null) : p.proto ∈ p.values := by
  cases p <;> first | exact List.mem_cons_self | exact absurd rfl given

/-! ### Storing -/

/-- Whether a store succeeds does not depend on what is stored. -/
theorem Engine.fst_store (e : Engine) (v : Value) (key : String) (x : Value) :
    (e.store v key x).1 =
      if ((e.object? v).bind (·.payload.placement? key)).isSome then .ok ()
      else .error .notAnObject := by
  rw [Engine.store]
  rcases (e.object? v).bind (·.payload.placement? key) with _ | _ | _ <;> rfl

theorem Engine.takesProperties_iff (found : e.object? v = some o) :
    e.TakesProperties v ↔ ∃ key, (o.payload.placement? key).isSome = true := by
  refine exists_congr fun key => ?_
  simp only [Engine.fst_store, found, Option.bind_some]
  split
  · rename_i taken
    exact iff_of_true (fun _ => rfl) taken
  · rename_i refused
    refine iff_of_false (fun all => ?_) refused
    cases all Value.null

theorem Engine.Settled.tellsCarrier (hs : e.Settled M X) (documented : e.Documented)
    (valid : e.isValid v = true) : e.TellsCarrier v := by
  refine ⟨documented.carriesProperties_iff valid, fun live => ?_, fun gone key x => ?_⟩
  · cases v with
    | immediate w => cases live
    | reference h =>
        obtain ⟨o, slot⟩ := Heap.isLive_iff.1 live
        have found := Engine.object?_of_live slot
        obtain ⟨m, made, sort, bare⟩ := documented.recorded.kin h o slot
        have fits := documented.recorded.fits h m made
        rw [Object.objectClass, ← sort] at fits
        rw [Engine.takesProperties_iff found, (Payload.fits_of_bare bare fits).takes_iff,
          Engine.carriesProperties, found, Option.any_some]
        rfl
  · rw [Engine.fst_store]
    cases v with
    | immediate w => rfl
    | reference h =>
        obtain ⟨o, found⟩ := Engine.names_reference.1 (Engine.isValid_iff.1 valid)
        have header : e.object? (.reference h) = some o := found
        rcases Heap.object?_eq_some.1 found with slot | slot
        · exact absurd (Heap.isLive_iff.2 ⟨o, slot⟩) (Bool.eq_false_iff.1 gone)
        · rw [header, Option.bind_some, (hs.sound.parked slot).2.2.2]
          rfl

end

/-! ### Prototypes of new objects -/

section

variable {d : Discipline} {limits : Limits} {s : Session} {a : Action} {e : Engine} {h : Handle}
  {m o : Object} {v : Value}

/-- The prototype of a live object is the one on record, and it has a header. -/
theorem Engine.Settled.protoOf_eq {M : Finset Handle} {X : Multiset Handle}
    (hs : e.Settled M X) (documented : e.Documented) (made : e.made[h]? = some m) :
    e.protoOf (.reference h) = Value.null ∨
      e.protoOf (.reference h) = m.payload.proto ∧ e.isValid m.payload.proto = true := by
  cases found : e.object? (.reference h) with
  | none =>
      rw [Engine.protoOf, found]
      exact .inl rfl
  | some o =>
      have told : e.protoOf (.reference h) = o.payload.proto := by rw [Engine.protoOf, found]
      rw [told]
      rcases Heap.object?_eq_some.1 (show e.heap.object? h = some o from found) with slot | slot
      · obtain ⟨m', made', -, bare⟩ := documented.recorded.kin h o slot
        cases made.symm.trans made'
        have same : o.payload.proto = m.payload.proto := Payload.proto_of_bare bare
        by_cases given : o.payload.proto = Value.null
        · exact .inl given
        · refine .inr ⟨same, Engine.isValid_iff.2 fun k mem => ?_⟩
          have edge : k ∈ e.heap.ownedBy h := by
            rw [Heap.ownedBy, slot]
            refine List.mem_filterMap.2 ⟨o.payload.proto, Payload.proto_mem_values given, ?_⟩
            rw [same]
            cases value : m.payload.proto <;> rw [value] at mem
            · exact absurd mem (Multiset.notMem_zero k)
            · cases Multiset.mem_singleton.1 mem
              rfl
          exact hs.owned.named k (Multiset.mem_add.2 (.inr
            (Multiset.mem_add.2 (.inl (Heap.mem_references.2 ⟨h, edge⟩)))))
      · rw [(hs.sound.parked slot).2.2.2]
        exact .inl rfl

/-- A value is null, or it refers to an object that began as a carrier and that takes
properties just if it is live. -/
def Engine.IsPrototype (e : Engine) (v : Value) : Prop :=
  v = Value.null ∨ e.isValid v = true ∧ e.carriesProperties v = true ∧
    (e.TakesProperties v ↔ e.isLive v = true)

theorem Engine.TellsCarrier.isPrototype (tells : e.TellsCarrier v) (valid : e.isValid v = true)
    (began : e.BeganAsCarrier v) : e.IsPrototype v := by
  have carries := tells.began.2 began
  refine .inr ⟨valid, carries, fun takes => ?_, fun live => (tells.live live).1 carries⟩
  by_contra gone
  obtain ⟨key, taken⟩ := takes
  cases (tells.other (Bool.eq_false_iff.2 gone) key Value.null).symm.trans (taken Value.null)

/-- Whichever host made them, objects that are live carry properties just if they take some,
and objects that are gone take none. An object that a constructor function makes has no
prototype but one that began as a carrier. -/
theorem Reached.tells_carriers (reached : Reached d limits s) :
    (∀ v, s.engine.isValid v = true → s.engine.TellsCarrier v) ∧
    ∀ c constructor classId booked v, s.Allows d (.construct c constructor classId) booked →
      (s.act (.construct c constructor classId) booked).engine.InRange →
      (s.engine.perform (.construct c constructor classId)).1 = .value v →
        (s.act (.construct c constructor classId) booked).engine.IsPrototype
          ((s.act (.construct c constructor classId) booked).engine.protoOf v) := by
  refine ⟨fun v valid => reached.settled.tellsCarrier reached.documented valid, ?_⟩
  intro c constructor classId booked v allowed range answer
  have later := reached.step _ booked allowed range
  have performed : s.engine.perform (.construct c constructor classId) =
      answered .value (s.engine.construct c constructor classId) := allowed.perform_eq
  rcases step : s.engine.construct c constructor classId with ⟨_ | _, e'⟩
  · rw [performed, step] at answer
    cases answer
  · rw [performed, step] at answer
    cases answer
    obtain ⟨m, enters, -, origin⟩ := reached.documented.enters_construct step
    have after : (s.act (.construct c constructor classId) booked).engine = e' := by
      rw [Session.act, performed, step]
      rfl
    have entry : (s.act (.construct c constructor classId) booked).engine.made[
        s.engine.made.size]? = some m := by
      rw [after, enters.made, Array.getElem?_push_size]
    rw [enters.value]
    rcases later.settled.protoOf_eq later.documented entry with none | ⟨told, valid⟩
    · exact .inl none
    · rw [told]
      -- The prototype comes from the constructor function or from the context.
      have traced : m.payload.proto = Value.null ∨ s.engine.BeganAsCarrier m.payload.proto := by
        rcases origin with began | found
        · exact .inr began
        · exact reached.hasCarriers.protoFor found
      rcases traced with none | began
      · exact .inl none
      · exact (later.settled.tellsCarrier later.documented valid).isPrototype valid
          (began.perform reached.documented _)

/-- The host gives back on the bridge both references that it has on an object, and only
then makes it the prototype of what a constructor function is to make. -/
def parkedPrototype : List (Action × Bool) :=
  [(.makePlain Value.null, true), (.adopt (.reference 0), true),
    (.relinquish (.reference 0), true), (.relinquish (.reference 0), true),
    (.retain (.reference 0), true), (.makePlain Value.null, true),
    (.store (.reference 1) "prototype" (.reference 0), true), (.openContext 0, true)]

theorem tells_carriers_parkedPrototype : ∃ s v, Reached .plain {} s ∧
    s.engine.isParked (.reference 0) = true ∧ s.engine.TellsCarrier (.reference 0) ∧
      (s.engine.perform (.construct 0 (.reference 1) ClassId.object)).1 = .value v ∧
        (s.act (.construct 0 (.reference 1) ClassId.object) true).engine.protoOf v =
            .reference 0 ∧
          (s.act (.construct 0 (.reference 1) ClassId.object) true).engine.IsPrototype
            (.reference 0) := by
  have run : ((Session.start {}).follow .plain parkedPrototype).any (fun s =>
      decide (s.engine.isParked (.reference 0) = true ∧
        s.engine.isValid (.reference 0) = true ∧
        s.Allows .plain (.construct 0 (.reference 1) ClassId.object) true ∧
        (s.act (.construct 0 (.reference 1) ClassId.object) true).engine.InRange ∧
        (s.engine.construct 0 (.reference 1) ClassId.object).1.toOption =
          some (.reference 9) ∧
        (s.act (.construct 0 (.reference 1) ClassId.object) true).engine.protoOf
          (.reference 9) = .reference 0)) = true := by
    decide +kernel
  obtain ⟨s, followed, facts⟩ := (Option.any_eq_true _ _).1 run
  obtain ⟨parked, valid, allowed, range, made, proto⟩ := of_decide_eq_true facts
  have answer : (s.engine.perform (.construct 0 (.reference 1) ClassId.object)).1 =
      .value (.reference 9) := by
    rw [allowed.perform_eq, Engine.carryOut]
    rcases step : s.engine.construct 0 (.reference 1) ClassId.object with ⟨_ | _, _⟩ <;>
      rw [step] at made <;> cases made
    rfl
  have reached : Reached .plain {} s := Reached.start.follow followed
  obtain ⟨tells, given⟩ := reached.tells_carriers
  exact ⟨s, _, reached, parked, tells _ valid, answer, proto,
    proto ▸ given _ _ _ _ _ allowed range answer⟩

/-- An object that has come to its end is told to be a carrier and takes no properties, and
it becomes the prototype of a new object. -/
theorem not_takes_parkedPrototype : ∃ s, Reached .plain {} s ∧
    s.engine.isValid (.reference 0) = true ∧
      s.engine.carriesProperties (.reference 0) = true ∧
        ¬ s.engine.TakesProperties (.reference 0) ∧
          (s.act (.construct 0 (.reference 1) ClassId.object) true).engine.protoOf
            (.reference 9) = .reference 0 ∧
            ¬ (s.act (.construct 0 (.reference 1) ClassId.object) true).engine.TakesProperties
              (.reference 0) := by
  have run : ((Session.start {}).follow .plain parkedPrototype).any (fun s =>
      decide (s.engine.isValid (.reference 0) = true ∧
        s.engine.carriesProperties (.reference 0) = true ∧
        (s.engine.object? (.reference 0)).map (·.payload) = some .released ∧
        (s.act (.construct 0 (.reference 1) ClassId.object) true).engine.protoOf
          (.reference 9) = .reference 0 ∧
        ((s.act (.construct 0 (.reference 1) ClassId.object) true).engine.object?
          (.reference 0)).map (·.payload) = some .released)) = true := by
    decide +kernel
  obtain ⟨s, followed, facts⟩ := (Option.any_eq_true _ _).1 run
  obtain ⟨valid, carries, empty, proto, later⟩ := of_decide_eq_true facts
  have released {e : Engine} (empty : (e.object? (.reference 0)).map (·.payload) =
      some .released) : ¬ e.TakesProperties (.reference 0) := by
    obtain ⟨o, found, none⟩ := Option.map_eq_some_iff.1 empty
    rw [Engine.takesProperties_iff found, none]
    rintro ⟨key, taken⟩
    cases taken
  exact ⟨s, Reached.start.follow followed, valid, carries, released empty, proto,
    released later⟩

end

end CountedHeap
