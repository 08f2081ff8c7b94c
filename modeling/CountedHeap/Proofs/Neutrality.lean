import CountedHeap.Proofs.Interchange

/-!
Constructors leave the counts alone. Whichever prototype a constructor gives to the new
object, its caller's, the one under `prototype` in another object, or a context's, and
whatever references it takes on the way, in the end there is one object more and one
reference more on the prototype, which the new object owns. Where the class or the context
is refused there is nothing at all.
-/

namespace CountedHeap

/-! ### What is to be made -/

/-- The value that an object has under `prototype`. -/
def Engine.ownPrototype? (e : Engine) (constructor : Value) : Option Value :=
  (e.object? constructor).bind (·.payload.find? "prototype")

/-- Whether a value that is read from a constructor can be a prototype: it refers to an
object, of which there may be no more than the header, and not to a string or a boxed
number. -/
def Engine.Serves (e : Engine) (v : Value) : Prop :=
  ∃ o, e.object? v = some o ∧ o.objectClass ≠ .string ∧ o.objectClass ≠ .number

/-- The prototype that a context has for a class. For a host class without a slot there is
none. -/
def Engine.Offers (e : Engine) (c : ContextId) (classId : ClassId) (proto : Value) : Prop :=
  ∃ ctx, e.contexts[c.toNat]? = some ctx ∧ ctx.phase = .active ∧
    (ctx.prototypes[classId.toNat]? = some proto ∨
      ctx.prototypes.size ≤ classId.toNat ∧ classId.isHost = true ∧ proto = Value.null)

/-- The class of the object that a constructor is to make, and the prototype. -/
inductive Engine.Assigns (e : Engine) : Action → ClassId → Value → Prop
  | given {proto : Value} {classId : ClassId} :
      Assigns e (.makeWithProto proto classId) classId proto
  | hosted {proto : Value} {classId : ClassId} {cookie : UInt64} :
      Assigns e (.makeHost proto classId cookie) classId proto
  | ofClass {c : ContextId} {classId : ClassId} {proto : Value}
      (offers : e.Offers c classId proto) : Assigns e (.makeOfClass c classId) classId proto
  | function {c : ContextId} {name : String} {proto : Value}
      (offers : e.Offers c ClassId.function proto) :
      Assigns e (.makeFunctionIn c name) ClassId.function proto
  | own {c : ContextId} {constructor proto : Value} {classId : ClassId}
      (read : e.ownPrototype? constructor = some proto) (serves : e.Serves proto) :
      Assigns e (.construct c constructor classId) classId proto
  | fallback {c : ContextId} {constructor proto : Value} {classId : ClassId}
      (none : ∀ v, e.ownPrototype? constructor = some v → ¬ e.Serves v)
      (offers : e.Offers c classId proto) :
      Assigns e (.construct c constructor classId) classId proto

/-- Whether a request is for one object with a prototype, or for the prototype alone. -/
def Action.constructs : Action → Bool
  | .takeProto .. | .makeOfClass .. | .makeWithProto .. | .construct .. | .makeFunctionIn ..
  | .makeHost .. => true
  | _ => false

/-! ### What is left -/

/-- `e'` is `e` with one object more, which is `o`, and with one reference more on the
prototype of that. -/
structure Engine.Gains (e : Engine) (o : Object) (e' : Engine) : Prop where
  size : e'.heap.slots.size = e.heap.slots.size + 1
  slot : e'.heap.slot e.heap.slots.size = .live o
  others : ∀ k ≠ e.heap.slots.size, e'.heap.slot k = (e.heap.slot k).map fun other =>
    { other with count := other.count + (o.payload.proto.refs.count k : ℕ) }
  liveCount : e'.heap.liveCount = e.heap.liveCount + 1
  parkedCount : e'.heap.parkedCount = e.heap.parkedCount
  bytes : e'.heap.bytes = e.heap.bytes + o.size
  rest : e' = { e with heap := e'.heap, made := e.made.push o }

/-- How a request for an object with a prototype ends. The object is made, beside what is
there or what a collection has left, or there is no room after a collection; a prototype is
handed over; or nothing happens. -/
inductive Engine.Neutral (e : Engine) (a : Action) : Answer × Engine → Prop
  | made {classId : ClassId} {proto : Value} {o : Object} {e' : Engine}
      (assigns : e.Assigns a classId proto) (ofClass : o.classId = classId) (count : o.count = 1)
      (hasProto : o.payload.proto = proto) (owns : o.payload.values = [proto])
      (gains : Engine.Gains { e.roomFor o.size with threshold := e.nextThreshold } o e') :
      Neutral e a (.value (.reference e.heap.slots.size), e')
  | took {c : ContextId} {classId : ClassId} {proto : Value}
      (asked : a = .takeProto c classId) (offers : e.Offers c classId proto) :
      Neutral e a (.value proto, e.retain proto)
  | refused {refusal : Refusal} (room : ∀ limit n, refusal ≠ .outOfMemory limit n) :
      Neutral e a (.refused refusal, e)
  | short {limit n : Nat} :
      Neutral e a (.refused (.outOfMemory limit n),
        { e.collect.2 with threshold := e.nextThreshold })

section

variable {e : Engine} {X : Multiset Handle} {v proto : Value} {n : Nat} {a : Action}
  {classId : ClassId} {payload : Payload} {c : ContextId} {name : String}

/-! ### Prototypes -/

theorem Engine.offers_of_protoFor (found : e.protoFor c classId = .ok proto) :
    e.Offers c classId proto := by
  rw [Engine.protoFor] at found
  split at found
  · cases found
  · rename_i ctx active
    obtain ⟨context, phase⟩ := Engine.activeContext_eq_ok active
    refine ⟨ctx, context, phase, ?_⟩
    split at found
    · rename_i slot
      exact .inl (Except.ok.inj found ▸ slot)
    · rename_i absent
      split at found
      · rename_i host
        exact .inr ⟨Array.getElem?_eq_none_iff.1 absent, host, (Except.ok.inj found).symm⟩
      · cases found

theorem Engine.eq_contextFreed_of_activeContext {refusal : Refusal}
    (found : e.activeContext c = .error refusal) : refusal = .contextFreed c := by
  rw [Engine.activeContext] at found
  split at found
  · split at found <;> cases found
    rfl
  · cases found
    rfl

theorem Engine.neutral_of_protoFor {refusal : Refusal}
    (found : e.protoFor c classId = .error refusal) : e.Neutral a (.refused refusal, e) := by
  rw [Engine.protoFor] at found
  split at found
  · rename_i active
    cases found
    rw [Engine.eq_contextFreed_of_activeContext active]
    exact .refused fun limit n same => by cases same
  · split at found
    · cases found
    · split at found <;> cases found
      exact .refused fun limit n same => by cases same

theorem Engine.fst_fetch_prototype (e : Engine) (constructor : Value) :
    (e.fetch constructor "prototype").1 =
      (e.ownPrototype? constructor).getD Value.undefined := by
  have key : ("prototype" == "length") = false := by decide
  rw [Engine.fetch, Engine.ownPrototype?]
  cases e.object? constructor with
  | none => rfl
  | some o =>
      simp only [key, Option.bind_some]
      cases o.payload.length? <;> cases o.payload.find? "prototype" <;> rfl

theorem ObjectClass.carriesProperties_iff (c : ObjectClass) :
    c.carriesProperties = true ↔ c ≠ .string ∧ c ≠ .number := by
  cases c <;> decide

theorem Engine.carriesProperties_iff_serves : e.carriesProperties v = true ↔ e.Serves v := by
  rw [Engine.carriesProperties, Option.any_eq_true]
  simp only [ObjectClass.carriesProperties_iff, Engine.Serves]

theorem Engine.ownPrototype?_of_serves {constructor : Value}
    (serves : e.Serves (e.fetch constructor "prototype").1) :
    e.ownPrototype? constructor = some (e.fetch constructor "prototype").1 := by
  rw [Engine.fst_fetch_prototype] at serves ⊢
  cases own : e.ownPrototype? constructor with
  | some v => rfl
  | none =>
      rw [own] at serves
      obtain ⟨o, found, -⟩ := serves
      cases found

/-! ### One object -/

theorem Payload.proto_of_values (values : payload.values = [v]) : payload.proto = v := by
  cases payload <;> simp only [Payload.values, List.cons.injEq, reduceCtorEq] at values
  all_goals exact values.1

theorem Engine.gains_place (named : e.Names v) (classId : ClassId)
    (values : payload.values = [v]) :
    e.Gains (.new classId payload) ((e.place classId payload).2.credit v) := by
  have proto : (Object.new classId payload).payload.proto = v := Payload.proto_of_values values
  have old : e.heap.slots.size ∉ v.refs := named.size_notMem
  have slot (k : Handle) : ((e.place classId payload).2.credit v).heap.slot k =
      ((e.place classId payload).2.heap.slot k).map fun o =>
        { o with count := o.count + (v.refs.count k : ℕ) } :=
    Heap.slot_credit k
  refine ⟨?_, ?_, fun k other => ?_, ?_, ?_, ?_, rfl⟩
  · exact Heap.size_credit.trans Engine.size_place
  · rw [slot, Engine.slot_place, if_pos rfl, Multiset.count_eq_zero.2 old]
    simp [Slot.map]
  · rw [slot, Engine.slot_place, if_neg other, proto]
  · exact Heap.liveCount_credit
  · exact Heap.parkedCount_credit
  · exact Heap.bytes_credit

theorem Engine.Settled.neutral_allocateWithProto (hs : e.Settled ∅ X) (booked : e.heap.Booked 0)
    (secure : e.Secure v) (range : (e.retain v).InRange) (values : payload.values = [v])
    (assigns : e.Assigns a classId v) :
    e.Neutral a (answered .value (e.allocateWithProto v classId payload)) := by
  by_cases closed : e.isClosed = true
  · rw [hs.allocateWithProto_of_closed secure.named range values closed]
    exact .refused fun limit n same => by cases same
  · have ready : e.Ready X := ⟨hs, Bool.eq_false_iff.2 closed, booked⟩
    have named := ready.names_makeRoom secure range (headerSize + payload.size)
    have room := hs.makeRoom_eq (headerSize + payload.size)
    rw [ready.allocateWithProto_eq secure range classId values]
    cases short : (e.makeRoom (headerSize + payload.size)).exceeded?
        (headerSize + payload.size) with
    | some limit =>
        dsimp only
        rw [hs.makeRoom_of_short (Option.isSome_iff_exists.2 ⟨limit, short⟩)]
        exact .short
    | none =>
        have size : (e.makeRoom (headerSize + payload.size)).heap.slots.size =
            e.heap.slots.size := by
          rw [room]
          exact hs.size_roomFor
        have handle : ((e.makeRoom (headerSize + payload.size)).place classId payload).1 =
            .reference e.heap.slots.size := congrArg Value.reference size
        have gains := Engine.gains_place named classId values
        dsimp only
        rw [handle]
        rw [room] at gains ⊢
        exact .made (o := .new classId payload) assigns rfl rfl (Payload.proto_of_values values)
          values gains

/-! ### Constructors -/

section

variable (hs : e.Settled ∅ X) (booked : e.heap.Booked 0)

include hs booked

theorem Engine.Settled.neutral_makeWithProto (secure : e.Secure v)
    (range : (e.makeWithProto v classId).2.InRange) (assigns : e.Assigns a classId v) :
    e.Neutral a (answered .value (e.makeWithProto v classId)) := by
  rw [Engine.makeWithProto] at range ⊢
  split
  · rename_i payload empty
    simp only [empty] at range
    have retains := Engine.inRange_allocateWithProto.1 range
    exact hs.neutral_allocateWithProto booked secure retains (Payload.values_empty? empty) assigns
  · exact .refused fun limit n same => by cases same

theorem Engine.Settled.neutral_makeOfClass (range : (e.makeOfClass c classId).2.InRange)
    (assigns : ∀ proto, e.Offers c classId proto → e.Assigns a classId proto) :
    e.Neutral a (answered .value (e.makeOfClass c classId)) := by
  rw [Engine.makeOfClass] at range ⊢
  cases found : e.protoFor c classId with
  | error refusal => exact Engine.neutral_of_protoFor found
  | ok proto =>
      simp only [found] at range ⊢
      exact hs.neutral_makeWithProto booked ((hs.inSight_protoFor found).secure hs) range
        (assigns proto (Engine.offers_of_protoFor found))

theorem Engine.Settled.neutral_makeFunctionIn (range : (e.makeFunctionIn c name).2.InRange) :
    e.Neutral (.makeFunctionIn c name) (answered .value (e.makeFunctionIn c name)) := by
  cases found : e.protoFor c ClassId.function with
  | error refusal =>
      simp only [Engine.makeFunctionIn, Engine.takeProto, found]
      exact Engine.neutral_of_protoFor found
  | ok proto =>
      have same := hs.makeFunctionIn_eq booked found range
      rw [same] at range ⊢
      exact hs.neutral_allocateWithProto booked ((hs.inSight_protoFor found).secure hs)
        (Engine.inRange_allocateWithProto.1 range) rfl
        (.function (Engine.offers_of_protoFor found))

theorem Engine.Settled.neutral_construct {constructor : Value} (sight : e.InSight X constructor)
    (range : (e.construct c constructor classId).2.InRange) :
    e.Neutral (.construct c constructor classId)
      (answered .value (e.construct c constructor classId)) := by
  cases active : e.activeContext c with
  | error refusal =>
      rw [Engine.construct, active, Engine.eq_contextFreed_of_activeContext active]
      exact .refused fun limit n same => by cases same
  | ok ctx =>
      have same := hs.construct_eq booked sight active range
      rw [same] at range ⊢
      split
      · rename_i serves
        rw [if_pos serves] at range
        rw [Engine.carriesProperties_iff_serves] at serves
        have read : e.InSight X (e.fetch constructor "prototype").1 := sight.fetch hs
        exact hs.neutral_makeWithProto booked (read.secure hs) range
          (.own (Engine.ownPrototype?_of_serves serves) serves)
      · rename_i useless
        rw [if_neg useless] at range
        refine hs.neutral_makeOfClass booked range fun proto offers => .fallback ?_ offers
        intro v own
        rw [Engine.carriesProperties_iff_serves, Engine.fst_fetch_prototype, own] at useless
        exact useless

/-- Whichever of the constructors it is, it ends in one of these ways. -/
theorem Engine.Settled.neutral_carryOut (constructs : a.constructs = true)
    (sight : ∀ v ∈ a.arguments, e.InSight X v) (range : (e.carryOut a).2.InRange) :
    e.Neutral a (e.carryOut a) := by
  cases a with
  | takeProto c classId =>
      rw [Engine.carryOut, Engine.takeProto]
      cases found : e.protoFor c classId with
      | error refusal => exact Engine.neutral_of_protoFor found
      | ok proto => exact .took rfl (Engine.offers_of_protoFor found)
  | makeOfClass c classId =>
      exact hs.neutral_makeOfClass booked (inRange_of_answered range) fun proto => .ofClass
  | makeWithProto proto classId =>
      exact hs.neutral_makeWithProto booked ((sight proto List.mem_cons_self).secure hs)
        (inRange_of_answered range) .given
  | construct c constructor classId =>
      exact hs.neutral_construct booked (sight constructor List.mem_cons_self)
        (inRange_of_answered range)
  | makeFunctionIn c name => exact hs.neutral_makeFunctionIn booked (inRange_of_answered range)
  | makeHost proto classId cookie =>
      have within := inRange_of_answered range
      rw [Engine.makeHost] at within
      rw [Engine.carryOut, Engine.makeHost]
      split
      · rename_i host
        rw [if_pos host] at within
        exact hs.neutral_allocateWithProto booked ((sight proto List.mem_cons_self).secure hs)
          (Engine.inRange_allocateWithProto.1 within) rfl .hosted
      · exact .refused fun limit n same => by cases same
  | _ => cases constructs

end

end

section

variable {limits : Limits} {s : Session} {a : Action}

/-- A constructor that a strict host calls, with immediates and with objects that it owns,
adds one object and the reference which that owns, and moves no other count. -/
theorem Reached.constructs_neutral (reached : Reached .strict limits s)
    (constructs : a.constructs = true) (allowed : s.Allows .strict a true)
    (owned : ∀ v ∈ a.arguments, ∀ h ∈ v.refs, h ∈ s.ledger)
    (range : (s.act a true).engine.InRange) :
    s.engine.Neutral a (s.engine.perform a) := by
  simp only [Session.act, allowed.perform_eq] at range ⊢
  have sight : ∀ v ∈ a.arguments, s.engine.InSight s.ledger v := fun v mem h refers =>
    .root (Multiset.mem_add.2 (.inl (owned v mem h refers)))
  exact reached.settled_strict.neutral_carryOut reached.booked.2 constructs sight range

/-- Object 8 has object 7 under `prototype`, and object 9 refers to itself. One object more
is one too many, so that the next allocation collects. -/
def constructorAndGarbage : List (Action × Bool) :=
  [(.openContext 0, true), (.makePlain Value.null, true), (.makeOfClass 0 ClassId.function, true),
    (.retain (.reference 7), true), (.store (.reference 8) "prototype" (.reference 7), true),
    (.makePlain Value.null, true), (.store (.reference 9) "self" (.reference 9), true),
    (.setThreshold 10, true)]

theorem constructs_neutral_constructorAndGarbage : ∃ s, Reached .strict {} s ∧
    s.engine.collect.1 = 1 ∧ s.engine.countOf (.reference 7) = 2 ∧
      (s.engine.construct 0 (.reference 8) ClassId.array).1.toOption = some (.reference 10) ∧
        (s.act (.construct 0 (.reference 8) ClassId.array) true).engine.countOf
            (.reference 7) = 3 ∧
          (s.act (.construct 0 (.reference 8) ClassId.array) true).engine.protoOf
              (.reference 10) = .reference 7 ∧
            s.engine.Neutral (.construct 0 (.reference 8) ClassId.array)
              (s.engine.perform (.construct 0 (.reference 8) ClassId.array)) := by
  have run : ((Session.start {}).follow .strict constructorAndGarbage).any (fun s =>
      decide (s.engine.collect.1 = 1 ∧ s.engine.countOf (.reference 7) = 2 ∧
        (s.engine.construct 0 (.reference 8) ClassId.array).1.toOption =
          some (.reference 10) ∧
        (s.act (.construct 0 (.reference 8) ClassId.array) true).engine.countOf
          (.reference 7) = 3 ∧
        (s.act (.construct 0 (.reference 8) ClassId.array) true).engine.protoOf
          (.reference 10) = .reference 7 ∧
        s.Allows .strict (.construct 0 (.reference 8) ClassId.array) true ∧
        (∀ v ∈ (Action.construct 0 (.reference 8) ClassId.array).arguments, ∀ h ∈ v.refs,
          h ∈ s.ledger) ∧
        (s.act (.construct 0 (.reference 8) ClassId.array) true).engine.InRange)) = true := by
    decide +kernel
  obtain ⟨s, followed, facts⟩ := (Option.any_eq_true _ _).1 run
  obtain ⟨garbage, before, made, after, proto, allowed, owned, range⟩ := of_decide_eq_true facts
  have reached : Reached .strict {} s := Reached.start.follow followed
  exact ⟨s, reached, garbage, before, made, after, proto,
    reached.constructs_neutral rfl allowed owned range⟩

end

end CountedHeap
