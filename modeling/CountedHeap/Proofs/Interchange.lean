import CountedHeap.Proofs.Room

/-!
References that are held meanwhile. A constructor that looks its prototype up holds on to
it until the new object has been made or refused, and any constructor takes the reference
that the new object is to own before it asks for room. None of that shows. The reference
might as well be taken last, and a constructor that reads its prototype from a context or
from an object does what one does that is given the same prototype by its caller.
-/

namespace CountedHeap

section

variable {e : Engine} {X : Multiset Handle} {v proto : Value} {n : Nat} {classId : ClassId}
  {payload : Payload} {c : ContextId} {name : String}

/-! ### Reading -/

/-- What is read from an object in sight is in sight. -/
theorem Engine.InSight.fetch {target : Value} {key : String} (sight : e.InSight X target)
    (hs : e.Settled ∅ X) : e.InSight X (e.fetch target key).1 := by
  rw [Engine.fetch]
  cases found : e.object? target with
  | none => exact Engine.inSight_immediate _
  | some o =>
      dsimp only
      split
      · rename_i n length _
        intro h mem
        rw [Payload.refs_of_length? length] at mem
        exact absurd mem (Multiset.notMem_zero h)
      · split
        · rename_i w item
          have held := Payload.mem_values_of_find? item
          have full : o.payload ≠ .released := by
            intro empty
            rw [empty] at held
            exact absurd held List.not_mem_nil
          obtain ⟨h, rfl, slot⟩ := hs.live_of_payload found full
          exact (sight h (Multiset.mem_singleton_self h)).inSight slot held
        · exact Engine.inSight_immediate _

theorem Engine.snd_fetch {target : Value} {key : String} :
    (e.fetch target key).2 = e.retain (e.fetch target key).1 := by
  rw [Engine.fetch]
  split
  · rfl
  · split
    · rename_i length _
      have immediate := Payload.refs_of_length? length
      cases ‹Value› with
      | immediate w => rfl
      | reference h => cases Multiset.singleton_ne_zero h immediate
    · split <;> rfl

theorem Engine.carriesProperties_retain {w : Value} (named : e.Names v)
    (range : (e.retain v).InRange) :
    (e.retain v).carriesProperties w = e.carriesProperties w := by
  cases w with
  | immediate w => rfl
  | reference h =>
      simp only [Engine.carriesProperties, Engine.object?, Value.handle?, Option.bind_some,
        Heap.object?, Engine.slot_retain named range]
      cases e.heap.slot h <;> rfl

/-! ### The new object -/

theorem Engine.Names.size_notMem (named : e.Names v) : e.heap.slots.size ∉ v.refs := by
  intro mem
  obtain ⟨o, found⟩ := named _ mem
  rw [Heap.object?, e.heap.slot_of_size_le (le_refl _)] at found
  cases found

/-- A reference on an old object can as well be taken after a new one has its place. -/
theorem Engine.place_credit (named : e.Names v) :
    (e.credit v).place classId payload =
      ((e.place classId payload).1, (e.place classId payload).2.credit v) := by
  have old : e.heap.slots.size ∉ v.refs := named.size_notMem
  have slot (H : Heap) (k : Handle) : (H.allocate (Object.new classId payload)).2.slot k =
      if k = H.slots.size then .live (Object.new classId payload) else H.slot k :=
    H.slot_allocate _ k
  have size (H : Heap) : (H.allocate (Object.new classId payload)).2.slots.size =
      H.slots.size + 1 := Array.size_push _
  have heap : ((e.heap.credit v).allocate (Object.new classId payload)).2 =
      (e.heap.allocate (Object.new classId payload)).2.credit v := by
    refine Heap.ext_slot ?_ (fun k => ?_) ?_ ?_ ?_ ?_
    · rw [Heap.size_credit, size, size, Heap.size_credit]
    · rw [slot, Heap.slot_credit, Heap.slot_credit, slot, Heap.size_credit]
      by_cases new : k = e.heap.slots.size
      · rw [if_pos new, if_pos new, new, Multiset.count_eq_zero.2 old]
        simp [Slot.map]
      · rw [if_neg new, if_neg new]
    all_goals cases v <;> rfl
  have handle : (e.heap.credit v).slots.size = e.heap.slots.size := Heap.size_credit
  have placed (e : Engine) : e.place classId payload = (.reference e.heap.slots.size,
      { e with
        heap := (e.heap.allocate (Object.new classId payload)).2
        made := e.made.push (Object.new classId payload) }) := rfl
  rw [placed, placed]
  simp only [Engine.credit, heap, handle]

theorem Engine.names_place (named : e.Names v) : (e.place classId payload).2.Names v := by
  intro h mem
  rw [Engine.object?_place]
  split
  · exact ⟨_, rfl⟩
  · exact named h mem

/-! ### A prototype that is held -/

theorem Engine.abandon_singleton (values : payload.values = [v]) :
    e.abandon payload = e.release v := by
  rw [Engine.abandon_eq, values]
  rfl

section

variable (ready : e.Ready X) (secure : e.Secure v) (range : (e.retain v).InRange)

include ready secure range

theorem Engine.Ready.names_makeRoom (n : Nat) : (e.makeRoom n).Names v := by
  have made : ((e.retain v).makeRoom n).Ready (v.refs + X) :=
    (ready.retain secure.named range).makeRoom
  rw [ready.makeRoom_retain secure range] at made
  exact Engine.names_credit.1 made.settled.names

/-- The one reference that a new object owns might be taken last, when the object has its
place already, and a refusal leaves no trace of it. -/
theorem Engine.Ready.allocateWithProto_eq (classId : ClassId) (values : payload.values = [v]) :
    e.allocateWithProto v classId payload =
      match (e.makeRoom (headerSize + payload.size)).exceeded? (headerSize + payload.size) with
      | some limit => (.error (.outOfMemory limit (headerSize + payload.size)),
          e.makeRoom (headerSize + payload.size))
      | none => (.ok ((e.makeRoom (headerSize + payload.size)).place classId payload).1,
          ((e.makeRoom (headerSize + payload.size)).place classId payload).2.credit v) := by
  have named := ready.names_makeRoom secure range (headerSize + payload.size)
  rw [Engine.allocateWithProto, Engine.allocate_eq (ready.retain secure.named range).hopen,
    ready.makeRoom_retain secure range, Engine.exceeded?_credit, Engine.place_credit named]
  cases (e.makeRoom (headerSize + payload.size)).exceeded? (headerSize + payload.size) with
  | some limit =>
      dsimp only
      rw [Engine.abandon_singleton values, ready.makeRoom.settled.release_credit named]
  | none => rfl

end

theorem Engine.Settled.settled_allocateWithProto (hs : e.Settled ∅ X) (named : e.Names v)
    (range : (e.retain v).InRange) (classId : ClassId) (values : payload.values = [v]) :
    (e.allocateWithProto v classId payload).2.Settled ∅
      (handedOver (e.allocateWithProto v classId payload).1 + X) := by
  rw [← zero_add X] at hs
  refine hs.allocateWithProto named (Engine.inRange_allocateWithProto.2 range) ?_
  rw [coe_owned, values, refsOf_singleton, add_zero]

theorem Engine.Settled.allocateWithProto_of_closed (hs : e.Settled ∅ X) (named : e.Names v)
    (range : (e.retain v).InRange) (values : payload.values = [v]) (closed : e.isClosed = true) :
    e.allocateWithProto v classId payload = (.error .shutDown, e) := by
  have retained : (e.retain v).isClosed = true :=
    (isClosed_of_frame (Engine.frame_retain range)).trans closed
  rw [Engine.allocateWithProto, Engine.allocate, if_pos retained,
    Engine.abandon_singleton values, hs.release_retain named range]

/-- Whoever asks for an object may hold on to its prototype until he is answered. -/
theorem Engine.Settled.allocateWithProto_held (hs : e.Settled ∅ X) (booked : e.heap.Booked 0)
    (secure : e.Secure v) (range : ((e.retain v).retain v).InRange)
    (values : payload.values = [v]) :
    (((e.retain v).allocateWithProto v classId payload).1,
      ((e.retain v).allocateWithProto v classId payload).2.release v) =
        e.allocateWithProto v classId payload := by
  have once : (e.retain v).InRange := Engine.inRange_of_retain range
  have held : (e.retain v).Settled ∅ (v.refs + X) := hs.retain secure.named once
  by_cases closed : e.isClosed = true
  · have closed' : (e.retain v).isClosed = true :=
      (isClosed_of_frame (Engine.frame_retain once)).trans closed
    rw [hs.allocateWithProto_of_closed secure.named once values closed,
      held.allocateWithProto_of_closed held.names range values closed',
      hs.release_retain secure.named once]
  · have ready : e.Ready X := ⟨hs, Bool.eq_false_iff.2 closed, booked⟩
    have ready' := ready.retain secure.named once
    have secure' : (e.retain v).Secure v := Engine.inSight_refs.secure held
    have made := ready.names_makeRoom secure once (headerSize + payload.size)
    have placed : ((e.makeRoom (headerSize + payload.size)).place classId payload).2.Names v :=
      Engine.names_place made
    have settled := hs.settled_allocateWithProto secure.named once classId values
    have result := ready.allocateWithProto_eq secure once classId values
    rw [ready'.allocateWithProto_eq secure' range classId values, ready.makeRoom_retain secure once,
      Engine.exceeded?_credit, Engine.place_credit made]
    rw [result] at settled ⊢
    cases short : (e.makeRoom (headerSize + payload.size)).exceeded?
        (headerSize + payload.size) with
    | some limit =>
        dsimp only
        rw [ready.makeRoom.settled.release_credit made]
    | none =>
        simp only [short] at settled ⊢
        rw [settled.release_credit (Engine.names_credit.2 placed)]

/-! ### A prototype that is looked up -/

section

variable (hs : e.Settled ∅ X) (booked : e.heap.Booked 0)

include hs booked

theorem Engine.Settled.makeWithProto_held (secure : e.Secure v)
    (range : ((e.retain v).makeWithProto v classId).2.InRange) :
    (((e.retain v).makeWithProto v classId).1, ((e.retain v).makeWithProto v classId).2.release v) =
      e.makeWithProto v classId := by
  simp only [Engine.makeWithProto] at range ⊢
  cases empty : Payload.empty? (ObjectClass.ofId classId) v with
  | some payload =>
      simp only [empty] at range
      exact hs.allocateWithProto_held booked secure
        (Engine.inRange_allocateWithProto.1 range) (Payload.values_empty? empty)
  | none =>
      simp only [empty] at range
      dsimp only
      rw [hs.release_retain secure.named range]

theorem Engine.Settled.makeFunctionIn_eq (found : e.protoFor c ClassId.function = .ok proto)
    (range : (e.makeFunctionIn c name).2.InRange) :
    e.makeFunctionIn c name = e.makeFunction name proto := by
  have secure := (hs.inSight_protoFor found).secure hs
  simp only [Engine.makeFunctionIn, Engine.takeProto, found] at range ⊢
  rw [inRange_of_frame (Engine.frame_release _ _)] at range
  exact hs.allocateWithProto_held booked secure
    (Engine.inRange_allocateWithProto.1 range) rfl

/-- A constructor that reads its prototype from an object does what one does that is given
the same prototype by its caller. -/
theorem Engine.Settled.construct_eq {constructor : Value} {ctx : Context}
    (sight : e.InSight X constructor) (active : e.activeContext c = .ok ctx)
    (range : (e.construct c constructor classId).2.InRange) :
    e.construct c constructor classId =
      if e.carriesProperties (e.fetch constructor "prototype").1 then
        e.makeWithProto (e.fetch constructor "prototype").1 classId
      else e.makeOfClass c classId := by
  by_cases absent : constructor.isUndefined = true
  · cases constructor with
    | immediate w =>
        simp only [Engine.construct, active, if_pos absent]
        rfl
    | reference h => cases absent
  · have reads := Engine.inRange_fetch_of_construct active absent range
    have read : e.InSight X (e.fetch constructor "prototype").1 := sight.fetch hs
    have secure := read.secure hs
    have fetched : e.fetch constructor "prototype" =
        ((e.fetch constructor "prototype").1, e.retain (e.fetch constructor "prototype").1) :=
      Prod.ext rfl Engine.snd_fetch
    rw [Engine.snd_fetch] at reads
    rw [Engine.construct, fetched] at range ⊢
    generalize (e.fetch constructor "prototype").1 = proto at *
    simp only [active, if_neg absent, Engine.carriesProperties_retain secure.named reads]
      at range ⊢
    split
    · rename_i serves
      rw [if_pos serves] at range
      dsimp only at range
      rw [inRange_of_frame (Engine.frame_release _ _)] at range
      exact hs.makeWithProto_held booked secure range
    · rw [hs.release_retain secure.named reads]

end

end

end CountedHeap
