import CountedHeap.Proofs.Interchange

/-!
The memory limit. A request for one new object says what the object will be before
anything is done, and so how many bytes it asks for. The limit is enforced exactly
whichever constructor it is, and however it comes by the prototype: from its caller, from
a context, or from the property of another object, which it holds on to in the meantime.
-/

namespace CountedHeap

/-- An empty object of a class, before there is room for it. -/
def emptyObject? (proto : Value) (classId : ClassId) : Option Object :=
  (Payload.empty? (ObjectClass.ofId classId) proto).map (Object.new classId)

/-- An empty object of a class with the prototype that a context has for it. -/
def Engine.emptyIn? (e : Engine) (c : ContextId) (classId : ClassId) : Option Object :=
  match e.protoFor c classId with
  | .ok proto => emptyObject? proto classId
  | .error _ => none

/-- The object that a constructor is to make, if its context and its class are valid and
it needs a place on the heap. -/
def Engine.blueprint? (e : Engine) : Action → Option Object
  | .makePlain proto => emptyObject? proto ClassId.object
  | .makeWithProto proto classId => emptyObject? proto classId
  | .makeArray proto items => some (.new ClassId.array (.array proto items))
  | .makeFunction name proto => some (.new ClassId.function (.function proto name []))
  | .makeHost proto classId cookie =>
    if classId.isHost then some (.new classId (.host proto [] cookie)) else none
  | .makeString text => some (.new ClassId.string (.string text))
  | .boxNumber d => some (.new ClassId.number (.number d))
  | .makeNumber d =>
    match Word.ofNumber? d with
    | some _ => none
    | none => some (.new ClassId.number (.number d))
  | .makeObjectIn c => e.emptyIn? c ClassId.object
  | .makeArrayIn c => e.emptyIn? c ClassId.array
  | .makeOfClass c classId => e.emptyIn? c classId
  | .makeFunctionIn c name =>
    match e.protoFor c ClassId.function with
    | .ok proto => some (.new ClassId.function (.function proto name []))
    | .error _ => none
  | .construct c constructor classId =>
    match e.activeContext c with
    | .ok _ =>
      if e.carriesProperties (e.fetch constructor "prototype").1 then
        emptyObject? (e.fetch constructor "prototype").1 classId
      else e.emptyIn? c classId
    | .error _ => none
  | _ => none

/-- The values that a constructor takes over from its caller. -/
def Action.consumed : Action → List Value
  | .makeArray _ items => items.toList
  | _ => []

section

variable {e : Engine} {X : Multiset Handle} {v proto : Value} {o : Object} {classId : ClassId}
  {payload : Payload} {items : List Value} {c : ContextId} {name : String}

/-! ### Constructors -/

section

variable (ready : e.Ready X)

include ready

theorem Engine.Ready.metered_allocateWithProto (sight : e.InSight X proto)
    (range : (e.allocateWithProto proto classId payload).2.InRange)
    (values : payload.values = proto :: items) :
    e.Metered (Object.new classId payload) items (e.allocateWithProto proto classId payload) := by
  have secure := sight.secure ready.settled
  have retains : (e.retain proto).InRange := Engine.inRange_allocateWithProto.1 range
  have metered : (e.retain proto).Metered (Object.new classId payload) payload.values
      (e.allocateWithProto proto classId payload) :=
    (ready.retain secure.named retains).metered_allocate
  rw [values] at metered
  exact metered.of_retain ready secure retains

theorem Engine.Ready.metered_makeWithProto (sight : e.InSight X proto)
    (range : (e.makeWithProto proto classId).2.InRange)
    (asks : emptyObject? proto classId = some o) :
    e.Metered o [] (e.makeWithProto proto classId) := by
  obtain ⟨payload, empty, rfl⟩ := Option.map_eq_some_iff.1 asks
  simp only [Engine.makeWithProto, empty] at range ⊢
  exact ready.metered_allocateWithProto sight range (Payload.values_empty? empty)

theorem Engine.Ready.metered_makeOfClass (range : (e.makeOfClass c classId).2.InRange)
    (asks : e.emptyIn? c classId = some o) : e.Metered o [] (e.makeOfClass c classId) := by
  rw [Engine.emptyIn?] at asks
  rw [Engine.makeOfClass] at range ⊢
  cases found : e.protoFor c classId with
  | error refusal => simp [found] at asks
  | ok proto =>
      simp only [found] at asks range ⊢
      exact ready.metered_makeWithProto (ready.settled.inSight_protoFor found) range asks

theorem Engine.Ready.metered_makeFunctionIn (found : e.protoFor c ClassId.function = .ok proto)
    (range : (e.makeFunctionIn c name).2.InRange) :
    e.Metered (.new ClassId.function (.function proto name [])) [] (e.makeFunctionIn c name) := by
  have same := ready.settled.makeFunctionIn_eq ready.booked found range
  rw [same] at range ⊢
  exact ready.metered_allocateWithProto (ready.settled.inSight_protoFor found) range rfl

theorem Engine.Ready.metered_construct {constructor : Value}
    (sight : e.InSight X constructor) (range : (e.construct c constructor classId).2.InRange)
    (asks : e.blueprint? (.construct c constructor classId) = some o) :
    e.Metered o [] (e.construct c constructor classId) := by
  rw [Engine.blueprint?] at asks
  cases active : e.activeContext c with
  | error refusal => simp [active] at asks
  | ok ctx =>
      simp only [active] at asks
      have same := ready.settled.construct_eq ready.booked sight active range
      rw [same] at range ⊢
      split
      · rename_i usable
        rw [if_pos usable] at asks range
        exact ready.metered_makeWithProto (sight.fetch ready.settled) range asks
      · rename_i unusable
        rw [if_neg unusable] at asks range
        exact ready.metered_makeOfClass range asks

/-- Whatever the request for one new object, it ends in one of the two ways. -/
theorem Engine.Ready.metered_carryOut {a : Action} (asks : e.blueprint? a = some o)
    (sight : ∀ v ∈ a.arguments, e.InSight X v) (range : (e.carryOut a).2.InRange) :
    ∃ r, e.carryOut a = answered .value r ∧ e.Metered o a.consumed r := by
  have makeOfClass {c : ContextId} {classId : ClassId} (asks : e.emptyIn? c classId = some o)
      (range : (answered Answer.value (e.makeOfClass c classId)).2.InRange) :
      e.Metered o [] (e.makeOfClass c classId) :=
    ready.metered_makeOfClass (inRange_of_answered range) asks
  cases a with
  | makePlain proto =>
      exact ⟨_, rfl, ready.metered_makeWithProto (sight proto List.mem_cons_self)
        (inRange_of_answered range) asks⟩
  | makeWithProto proto classId =>
      exact ⟨_, rfl, ready.metered_makeWithProto (sight proto List.mem_cons_self)
        (inRange_of_answered range) asks⟩
  | makeArray proto items =>
      obtain rfl := Option.some.inj asks
      exact ⟨_, rfl, ready.metered_allocateWithProto (sight proto List.mem_cons_self)
        (inRange_of_answered range) rfl⟩
  | makeFunction name proto =>
      obtain rfl := Option.some.inj asks
      exact ⟨_, rfl, ready.metered_allocateWithProto (sight proto List.mem_cons_self)
        (inRange_of_answered range) rfl⟩
  | makeHost proto classId cookie =>
      have within := inRange_of_answered range
      by_cases host : classId.isHost = true
      · rw [Engine.blueprint?, if_pos host, Option.some.injEq] at asks
        subst asks
        rw [Engine.makeHost, if_pos host] at within
        refine ⟨_, rfl, ?_⟩
        rw [Engine.makeHost, if_pos host]
        exact ready.metered_allocateWithProto (sight proto List.mem_cons_self) within rfl
      · rw [Engine.blueprint?, if_neg host] at asks
        cases asks
  | makeString text =>
      obtain rfl := Option.some.inj asks
      exact ⟨_, rfl, ready.metered_allocate⟩
  | boxNumber d =>
      obtain rfl := Option.some.inj asks
      exact ⟨_, rfl, ready.metered_allocate⟩
  | makeNumber d =>
      refine ⟨_, rfl, ?_⟩
      rw [Engine.blueprint?] at asks
      rw [Engine.makeNumber]
      cases immediate : Word.ofNumber? d with
      | some w => simp [immediate] at asks
      | none =>
          simp only [immediate, Option.some.injEq] at asks
          subst asks
          exact ready.metered_allocate
  | makeObjectIn c => exact ⟨_, rfl, makeOfClass asks range⟩
  | makeArrayIn c => exact ⟨_, rfl, makeOfClass asks range⟩
  | makeOfClass c classId => exact ⟨_, rfl, makeOfClass asks range⟩
  | makeFunctionIn c name =>
      refine ⟨_, rfl, ?_⟩
      rw [Engine.blueprint?] at asks
      cases found : e.protoFor c ClassId.function with
      | error refusal => simp [found] at asks
      | ok proto =>
          simp only [found, Option.some.injEq] at asks
          subst asks
          exact ready.metered_makeFunctionIn found (inRange_of_answered range)
  | construct c constructor classId =>
      exact ⟨_, rfl, ready.metered_construct (sight constructor List.mem_cons_self)
        (inRange_of_answered range) asks⟩
  | _ => cases asks

end

/-! ### The limit -/

/-- What it means for a limit to be enforced on a request for the object `o`, which takes
over `items`. It is refused if and only if there would be no room for `o` after a
collection, what is charged afterwards does not exceed the limit, and a refusal is a
collection that is followed by giving back `items`. -/
structure Engine.Enforces (e : Engine) (limit : Nat) (o : Object) (items : List Value)
    (r : Answer × Engine) : Prop where
  refused_iff : r.1 = .refused (.outOfMemory limit o.size) ↔
    limit < e.collect.2.heap.bytes + o.size
  made : e.collect.2.heap.bytes + o.size ≤ limit → ∃ h o', r.1 = .value (.reference h) ∧
    r.2.heap.slot h = .live o' ∧ o'.classId = o.classId ∧ o'.payload = o.payload ∧
      r.2.heap.bytes ≤ limit
  heap : limit < e.collect.2.heap.bytes + o.size →
    r.2.heap = (e.collect.2.releaseAll items).heap
  contexts : limit < e.collect.2.heap.bytes + o.size →
    r.2.contexts = (e.collect.2.releaseAll items).contexts

theorem Engine.exceeded?_of_limit {limit n : Nat} (limited : e.limits.memory = some limit) :
    e.exceeded? n = if limit < e.heap.bytes + n then some limit else none := by
  rw [Engine.exceeded?, limited, Option.filter_some]
  simp only [decide_eq_true_eq]

theorem Engine.Metered.enforces {limit : Nat} {r : Except Refusal Value × Engine}
    (metered : e.Metered o items r) (limited : e.limits.memory = some limit) :
    e.Enforces limit o items (answered .value r) := by
  have kept : e.collect.2.limits = e.limits := congrArg Frame.limits (Engine.frame_collect e)
  have shortage := Engine.exceeded?_of_limit (n := o.size) (kept ▸ limited)
  cases metered with
  | @refused limit' e' short heap frame =>
      rw [shortage] at short
      split at short
      · rename_i exceeds
        obtain rfl := Option.some.inj short
        refine ⟨iff_of_true rfl exceeds, fun fits => absurd exceeds (Nat.not_lt.2 fits),
          fun _ => heap, fun _ => ?_⟩
        exact contexts_of_frame (frame.trans ((Engine.frame_releaseAll _ _).trans
          (Engine.frame_collect e)).symm)
      · cases short
  | @made h e' o' room fits slot classId payload frame =>
      rw [shortage] at room
      split at room
      · cases room
      · rename_i enough
        have limited' : e'.limits.memory = some limit :=
          (congrArg (fun f => f.limits.memory) frame).trans limited
        rw [Engine.exceeded?_of_limit limited'] at fits
        refine ⟨iff_of_false (fun same => by cases same) enough,
          fun _ => ⟨h, o', rfl, slot, classId, payload, ?_⟩,
          fun exceeds => absurd exceeds enough, fun exceeds => absurd exceeds enough⟩
        split at fits
        · cases fits
        · rename_i within
          exact Nat.not_lt.1 within

end

section

variable {limits : Limits} {s : Session} {a : Action} {o : Object} {limit : Nat}

theorem Reached.ready (reached : Reached .strict limits s) (hopen : s.engine.isClosed = false) :
    s.engine.Ready s.ledger :=
  ⟨reached.settled_strict, hopen, reached.booked.2⟩

/-- The memory limit is enforced exactly on each request for one new object. -/
theorem Reached.limit_enforced (reached : Reached .strict limits s)
    (hopen : s.engine.isClosed = false) (asks : s.engine.blueprint? a = some o)
    (allowed : s.Allows .strict a true) (owned : ∀ v ∈ a.arguments, ∀ h ∈ v.refs, h ∈ s.ledger)
    (range : (s.act a true).engine.InRange) (limited : s.engine.limits.memory = some limit) :
    s.engine.Enforces limit o a.consumed (s.engine.perform a) := by
  simp only [Session.act, allowed.perform_eq] at range ⊢
  have sight : ∀ v ∈ a.arguments, s.engine.InSight s.ledger v := fun v mem h refers =>
    .root (Multiset.mem_add.2 (.inl (owned v mem h refers)))
  obtain ⟨r, result, metered⟩ := (reached.ready hopen).metered_carryOut asks sight range
  rw [result]
  exact metered.enforces limited

/-- An array whose first element is an object. -/
def wideArray (n : Nat) : Array Value :=
  #[.reference 0] ++ Array.replicate n Value.null

/-- A cycle that a host has dropped makes room for an array of 21 elements, but not for
one of 41. The object in the refused array was the last that was live. -/
theorem limit_enforced_abandonedCycle : ∃ s, Reached .strict { memory := some 500 } s ∧
    s.engine.heap.bytes = 348 ∧ s.engine.collect.2.heap.bytes = 176 ∧
      (∃ h, (s.engine.perform (.makeArray Value.null (wideArray 20))).1 = .value (.reference h)) ∧
        (s.engine.perform (.makeArray Value.null (wideArray 40))).1 =
          .refused (.outOfMemory 500 416) ∧
          (s.engine.perform (.makeArray Value.null (wideArray 40))).2.heap.liveCount = 0 ∧
            ∀ n ∈ [20, 40], s.engine.Enforces 500
              (.new ClassId.array (.array Value.null (wideArray n))) (wideArray n).toList
                (s.engine.perform (.makeArray Value.null (wideArray n))) := by
  have run : ((Session.start { memory := some 500 }).follow .strict abandonedCycle).any (fun s =>
      decide (s.engine.heap.bytes = 348 ∧ s.engine.collect.2.heap.bytes = 176 ∧
        s.engine.isClosed = false ∧ s.engine.limits.memory = some 500 ∧
        (s.engine.perform (.makeArray Value.null (wideArray 40))).2.heap.liveCount = 0 ∧
        ∀ n ∈ [20, 40], s.Allows .strict (.makeArray Value.null (wideArray n)) true ∧
          (s.act (.makeArray Value.null (wideArray n)) true).engine.InRange ∧
          ∀ v ∈ Value.null :: (wideArray n).toList, ∀ h ∈ v.refs, h ∈ s.ledger)) = true := by
    decide +kernel
  obtain ⟨s, followed, facts⟩ := (Option.any_eq_true _ _).1 run
  obtain ⟨before, after, hopen, limited, none, requests⟩ := of_decide_eq_true facts
  have reached : Reached .strict { memory := some 500 } s := Reached.start.follow followed
  have enforced : ∀ n ∈ [20, 40], s.engine.Enforces 500
      (.new ClassId.array (.array Value.null (wideArray n))) (wideArray n).toList
        (s.engine.perform (.makeArray Value.null (wideArray n))) := by
    intro n mem
    obtain ⟨allowed, range, owned⟩ := requests n mem
    exact reached.limit_enforced hopen rfl allowed owned range limited
  obtain ⟨h, -, made, -⟩ := (enforced 20 (by decide)).made (by rw [after]; decide)
  have refused := (enforced 40 (by decide)).refused_iff.2 (by rw [after]; decide)
  exact ⟨s, reached, before, after, ⟨h, made⟩, refused, none, enforced⟩

end

end CountedHeap
