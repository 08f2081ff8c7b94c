import CountedHeap.Proofs.ContextLife
import CountedHeap.Proofs.MemoryLimits

/-!
What objects began as. The engine's record of what was made says of every object with
which class and which prototype it began. A header keeps that class for as long as there is
one, parked or not, and the prototypes of a context all began as plain objects. A
constructor that succeeds adds one entry to the record, and the entry says which prototype
it took.
-/

namespace CountedHeap

/-- Every object that was ever made is on record, and every header has the class that is
on record for it. -/
structure Engine.Documented (e : Engine) : Prop where
  recorded : e.Recorded
  branded : ∀ h o, e.heap.object? h = some o → ∃ m, e.made[h]? = some m ∧ m.classId = o.classId

/-- `v` is the next object, and it began as `m`. -/
structure Engine.Enters (e : Engine) (v : Value) (m : Object) (e' : Engine) : Prop where
  value : v = .reference e.made.size
  made : e'.made = e.made.push m

/-- A value that refers to an object which began with a class that carries properties. -/
def Engine.BeganAsCarrier (e : Engine) (v : Value) : Prop :=
  ∃ h m, v = .reference h ∧ e.made[h]? = some m ∧ m.objectClass.carriesProperties = true

/-- Every prototype of a context began as a carrier. -/
def Engine.HasCarriers (e : Engine) : Prop :=
  ∀ (k : Nat) (ctx : Context), e.contexts[k]? = some ctx →
    ∀ p ∈ ctx.prototypes, e.BeganAsCarrier p

section

variable {e e' : Engine} {C : Set Handle} {K : Prop} {h k : Handle} {m o o' : Object}

/-! ### Headers keep their class -/

theorem Heap.header_update {H : Heap} {f : Object → Object}
    (found : (H.update k f).object? h = some o') (classId : ∀ o, (f o).classId = o.classId) :
    ∃ o, H.object? h = some o ∧ o.classId = o'.classId := by
  rw [Heap.object?_update] at found
  split at found
  · obtain ⟨o, before, rfl⟩ := Option.map_eq_some_iff.1 found
    exact ⟨o, before, (classId o).symm⟩
  · exact ⟨o', found, rfl⟩

theorem Engine.header_dispose (tidy : e.heap.Tidy)
    (found : (e.dispose k).2.heap.object? h = some o') :
    ∃ o, e.heap.object? h = some o ∧ o.classId = o'.classId := by
  by_cases live : e.heap.isLive k = true
  · obtain ⟨o, slot⟩ := Heap.isLive_iff.1 live
    obtain ⟨dropped, diagnostics, breaches, result⟩ := Engine.dispose_eq_of_live tidy slot
    rw [result, Heap.object?, Heap.slot_disposed slot dropped o.size o.adopted] at found
    split at found
    · subst h
      refine ⟨o, Heap.object?_of_live slot, ?_⟩
      split at found <;> cases found
      rfl
    · cases before : e.heap.slot h <;> rw [before] at found <;> cases found
      · exact ⟨_, Heap.object?_eq_some.2 (.inl before), rfl⟩
      · exact ⟨_, Heap.object?_eq_some.2 (.inr before), rfl⟩
  · obtain ⟨breaches, result⟩ := Engine.dispose_eq_of_not_live tidy (Bool.eq_false_iff.2 live)
    rw [result] at found
    exact ⟨o', found, rfl⟩

theorem Engine.header_swept {S : Finset Handle} (tidy : e.heap.Tidy)
    (found : (e.swept S).heap.object? h = some o') :
    ∃ o, e.heap.object? h = some o ∧ o.classId = o'.classId := by
  rw [Heap.object?, Engine.slot_swept tidy] at found
  split at found
  · exact ⟨o', found, rfl⟩
  · cases before : e.heap.slot h with
    | live o =>
        rw [before, Slot.discard] at found
        refine ⟨o, Heap.object?_of_live before, ?_⟩
        split at found <;> cases found
        rfl
    | parked o =>
        rw [before] at found
        cases found
        exact ⟨_, Heap.object?_eq_some.2 (.inr before), rfl⟩
    | reclaimed =>
        rw [before] at found
        cases found

/-- A header was there before a change and had the same class, or it is the new one. -/
theorem Engine.Change.header (change : Engine.Change C K e e') (tidy : e.heap.Tidy)
    (found : e'.heap.object? h = some o') :
    (∃ o, e.heap.object? h = some o ∧ o.classId = o'.classId) ∨
      h = e.heap.slots.size ∧ e'.made = e.made.push o' := by
  cases change with
  | aside heap => exact .inl ⟨o', heap ▸ found, rfl⟩
  | recount k g => exact .inl (Heap.header_update found fun _ => rfl)
  | claim mem g => exact .inl (Heap.header_update found fun _ => rfl)
  | lengthen => exact .inl (Heap.header_update found fun _ => rfl)
  | shorten => exact .inl (Heap.header_update found fun _ => rfl)
  | dispose k => exact .inl (Engine.header_dispose tidy found)
  | sweep =>
      obtain ⟨S, result⟩ := Engine.sweep_eq tidy
      exact .inl (Engine.header_swept tidy (result ▸ found))
  | @place classId payload hopen fits =>
      rw [Engine.object?_place] at found
      split at found
      · rename_i new
        cases found
        exact .inr ⟨new, rfl⟩
      · exact .inl ⟨o', found, rfl⟩
  | close closing =>
      rw [Engine.heap_close, Heap.object?, Heap.slot_clear] at found
      cases found

theorem Engine.Change.documented (change : Engine.Change C K e e') (documented : e.Documented) :
    e'.Documented := by
  have recorded := documented.recorded
  refine ⟨change.recorded recorded, fun h o' found => ?_⟩
  rcases change.header recorded.tidy found with ⟨o, before, same⟩ | ⟨new, made⟩
  · obtain ⟨m, made, classId⟩ := documented.branded h o before
    exact ⟨m, change.made_of_made recorded.tidy made, classId.trans same⟩
  · refine ⟨o', ?_, rfl⟩
    rw [made, new, ← recorded.size, Array.getElem?_push_size]

theorem Engine.Turns.documented (turns : Engine.Turns C K e e') (documented : e.Documented) :
    e'.Documented :=
  turns.moves.changes.keep Engine.Change.documented documented

theorem Engine.documented_new (limits : Limits) : (Engine.new limits).Documented where
  recorded := Engine.recorded_new limits
  branded h o found := by cases found

theorem Engine.Documented.perform (documented : e.Documented) (a : Action) :
    (e.perform a).2.Documented := by
  obtain ⟨e', finalizers, changes, result⟩ := e.changes_perform a
  have kept : e'.Documented := changes.keep Engine.Change.documented documented
  have recorded := documented.recorded.perform a
  rw [result] at recorded ⊢
  exact ⟨recorded, kept.branded⟩

/-- What is on record stays there. -/
theorem Engine.Documented.made_perform (documented : e.Documented) (a : Action)
    (made : e.made[h]? = some m) : (e.perform a).2.made[h]? = some m := by
  obtain ⟨e', finalizers, changes, result⟩ := e.changes_perform a
  have kept : e'.Recorded ∧ e'.made[h]? = some m :=
    changes.keep (P := fun e => e.Recorded ∧ e.made[h]? = some m)
      (fun change both => ⟨change.recorded both.1, change.made_of_made both.1.tidy both.2⟩)
      ⟨documented.recorded, made⟩
  rw [result]
  exact kept.2

theorem Reached.documented {d : Discipline} {limits : Limits} {s : Session}
    (reached : Reached d limits s) : s.engine.Documented := by
  induction reached with
  | start => exact Engine.documented_new limits
  | step a booked before allowed range ih => exact ih.perform a

/-! ### Values that began as carriers -/

variable {v proto : Value} {c : ContextId} {classId : ClassId} {payload : Payload} {n : Nat}

theorem Engine.BeganAsCarrier.perform (began : e.BeganAsCarrier v) (documented : e.Documented)
    (a : Action) : (e.perform a).2.BeganAsCarrier v := by
  obtain ⟨h, m, rfl, made, carries⟩ := began
  exact ⟨h, m, rfl, documented.made_perform a made, carries⟩

theorem Engine.BeganAsCarrier.congr (began : e.BeganAsCarrier v) (same : e'.made = e.made) :
    e'.BeganAsCarrier v := by
  obtain ⟨h, m, value, made, carries⟩ := began
  exact ⟨h, m, value, same ▸ made, carries⟩

theorem Engine.Documented.beganAsCarrier (documented : e.Documented)
    (carries : e.carriesProperties v = true) : e.BeganAsCarrier v := by
  rw [Engine.carriesProperties] at carries
  cases found : e.object? v with
  | none =>
      rw [found] at carries
      cases carries
  | some o =>
      rw [found, Option.any_some, Object.objectClass] at carries
      obtain ⟨h, refers, header⟩ := Option.bind_eq_some_iff.1 found
      obtain ⟨m, made, classId⟩ := documented.branded h o header
      refine ⟨h, m, ?_, made, ?_⟩
      · cases v <;> cases refers
        rfl
      · rw [Object.objectClass, classId]
        exact carries

/-- Whether a value refers to a carrier is read off the record, for as long as there is a
header. -/
theorem Engine.Documented.carriesProperties_iff (documented : e.Documented)
    (valid : e.isValid v = true) : e.carriesProperties v = true ↔ e.BeganAsCarrier v := by
  refine ⟨documented.beganAsCarrier, ?_⟩
  rintro ⟨h, m, rfl, made, carries⟩
  obtain ⟨o, found⟩ := Engine.names_reference.1 (Engine.isValid_iff.1 valid)
  obtain ⟨m', made', classId⟩ := documented.branded h o found
  cases made.symm.trans made'
  show (e.heap.object? h).any _ = true
  rw [found, Option.any_some, Object.objectClass, ← classId]
  exact carries

/-! ### New entries -/

theorem Engine.heapWork_made : Engine.HeapWork fun e e' => e'.made = e.made where
  refl _ := rfl
  trans first later := later.trans first
  heap _ _ := rfl
  finalized _ _ := rfl
  surplus _ _ _ := rfl
  stray _ := rfl
  doing _ _ := rfl

theorem Engine.made_retain : (e.retain v).made = e.made := by
  rw [Engine.retain]
  split
  · rw [Engine.addReference]
    split
    · show (e.checkCount _).made = _
      rw [Engine.checkCount]
      split <;> rfl
    · rfl
  · rfl

theorem Engine.made_makeRoom : (e.makeRoom n).made = e.made := by
  have collected := Engine.heapWork_made.slotWork.collect
  have threshold : e.collectAtThreshold.made = e.made := by
    rw [Engine.collectAtThreshold]
    split
    · exact collected e
    · rfl
  rw [Engine.makeRoom]
  split
  · exact (collected _).trans threshold
  · exact threshold

theorem Engine.Enters.congr {e₁ e₁' : Engine} (enters : e.Enters v m e')
    (before : e₁.made = e.made) (after : e₁'.made = e'.made) : e₁.Enters v m e₁' where
  value := before ▸ enters.value
  made := by rw [after, enters.made, before]

/-- An allocation that succeeds makes the next object. -/
theorem Engine.Documented.enters_allocate (documented : e.Documented)
    (made : e.allocate classId payload = (.ok v, e')) :
    e.Enters v (Object.new classId payload) e' := by
  by_cases closed : e.isClosed = true
  · rw [Engine.allocate, if_pos closed] at made
    cases made
  · rw [Engine.allocate_eq (Bool.eq_false_iff.2 closed)] at made
    split at made <;> cases made
    -- Room is made without an entry, so the next handle is the next entry.
    have size := (Engine.turns_makeRoom (C := ∅) (K := False)
      (headerSize + payload.size)).documented documented |>.recorded.size
    rw [Engine.made_makeRoom] at size
    exact ⟨congrArg Value.reference size.symm, congrArg (Array.push · _) Engine.made_makeRoom⟩

theorem Payload.proto_empty? {c : ObjectClass} (made : Payload.empty? c proto = some payload) :
    payload.proto = proto := by
  cases c <;> simp only [Payload.empty?, Option.some.injEq, reduceCtorEq] at made <;>
    (subst made; rfl)

theorem Engine.Documented.enters_allocateWithProto (documented : e.Documented)
    (made : e.allocateWithProto proto classId payload = (.ok v, e')) :
    e.Enters v (Object.new classId payload) e' := by
  have retained : (e.retain proto).Documented :=
    (Engine.turns_retain (C := ∅) (K := False)).documented documented
  exact (retained.enters_allocate made).congr Engine.made_retain.symm rfl

theorem Engine.Documented.enters_makeWithProto (documented : e.Documented)
    (made : e.makeWithProto proto classId = (.ok v, e')) :
    ∃ m, e.Enters v m e' ∧ m.classId = classId ∧ m.payload.proto = proto := by
  rw [Engine.makeWithProto] at made
  split at made
  · rename_i payload empty
    exact ⟨_, documented.enters_allocateWithProto made, rfl, Payload.proto_empty? empty⟩
  · cases made

theorem Engine.Documented.enters_makeOfClass (documented : e.Documented)
    (made : e.makeOfClass c classId = (.ok v, e')) :
    ∃ m, e.Enters v m e' ∧ m.classId = classId ∧ e.protoFor c classId = .ok m.payload.proto := by
  rw [Engine.makeOfClass] at made
  split at made
  · rename_i proto found
    obtain ⟨m, enters, sort, rfl⟩ := documented.enters_makeWithProto made
    exact ⟨m, enters, sort, found⟩
  · cases made

theorem Engine.protoFor_congr (contexts : e'.contexts = e.contexts) :
    e'.protoFor c classId = e.protoFor c classId := by
  rw [Engine.protoFor, Engine.activeContext, contexts]
  rfl

/-- What a constructor function makes has the prototype that the function says, if that is
an object which carries properties, and the one of the context otherwise. -/
theorem Engine.Documented.enters_construct {constructor : Value} (documented : e.Documented)
    (made : e.construct c constructor classId = (.ok v, e')) :
    ∃ m, e.Enters v m e' ∧ m.classId = classId ∧
      (e.BeganAsCarrier m.payload.proto ∨ e.protoFor c classId = .ok m.payload.proto) := by
  rw [Engine.construct] at made
  split at made
  · cases made
  · split at made
    · obtain ⟨m, enters, sort, found⟩ := documented.enters_makeOfClass made
      exact ⟨m, enters, sort, .inr found⟩
    · have turns : Engine.Turns ∅ False e (e.fetch constructor "prototype").2 :=
        Engine.turns_fetch
      have fetched := turns.documented documented
      have before : (e.fetch constructor "prototype").2.made = e.made := by
        rw [Engine.snd_fetch, Engine.made_retain]
      have contexts : (e.fetch constructor "prototype").2.contexts = e.contexts := by
        rw [Engine.snd_fetch, Engine.contexts_retain]
      generalize e.fetch constructor "prototype" = read at *
      obtain ⟨proto, e₁⟩ := read
      dsimp only at *
      split at made
      · rename_i usable
        rcases step : e₁.makeWithProto proto classId with ⟨_, e₂⟩
        rw [step] at made
        cases made
        obtain ⟨m, enters, sort, rfl⟩ := fetched.enters_makeWithProto step
        exact ⟨m, enters.congr before.symm (Engine.heapWork_made.slotWork.release e₂ _), sort,
          .inl ((fetched.beganAsCarrier usable).congr before.symm)⟩
      · have released := (Engine.turns_release (C := ∅) (K := False) (v := proto)).documented
          fetched
        have made' : (e₁.release proto).made = e.made :=
          (Engine.heapWork_made.slotWork.release e₁ proto).trans before
        obtain ⟨m, enters, sort, found⟩ := released.enters_makeOfClass made
        rw [Engine.protoFor_congr ((contexts_of_frame (e₁.frame_release proto)).trans contexts)]
          at found
        exact ⟨m, enters.congr made'.symm rfl, sort, .inr found⟩

/-! ### The prototypes of contexts -/

theorem Engine.Enters.keeps (enters : e.Enters v m e') (began : e.BeganAsCarrier proto) :
    e'.BeganAsCarrier proto := by
  obtain ⟨h, m', rfl, made, carries⟩ := began
  obtain ⟨inside, -⟩ := Array.getElem?_eq_some_iff.1 made
  refine ⟨h, m', rfl, ?_, carries⟩
  rw [enters.made, Array.getElem?_push_lt inside, ← made, Array.getElem?_eq_getElem inside]

theorem Engine.Enters.began (enters : e.Enters v m e')
    (carries : m.objectClass.carriesProperties = true) : e'.BeganAsCarrier v :=
  ⟨_, m, enters.value, by rw [enters.made, Array.getElem?_push_size], carries⟩

theorem Engine.Documented.makePlain (documented : e.Documented)
    (made : e.makePlain proto = (.ok v, e')) :
    e'.Documented ∧ e'.BeganAsCarrier v ∧
      ∀ p, e.BeganAsCarrier p → e'.BeganAsCarrier p := by
  have after : (e.makePlain proto).2.Documented :=
    (Engine.turns_makeWithProto (C := ∅) (K := False)).documented documented
  rw [made] at after
  obtain ⟨m, enters, sort, -⟩ := documented.enters_makeWithProto made
  refine ⟨after, enters.began ?_, fun p => enters.keeps⟩
  rw [Object.objectClass, sort]
  rfl

theorem Engine.Documented.makePrototypes {base : Value} {made protos : Array Value}
    (documented : e.Documented) (before : ∀ p ∈ made, e.BeganAsCarrier p)
    (result : e.makePrototypes base made n = (.ok protos, e')) :
    e'.Documented ∧ ∀ p ∈ protos, e'.BeganAsCarrier p := by
  induction n generalizing e made with
  | zero =>
      cases result
      exact ⟨documented, before⟩
  | succ n ih =>
      rw [Engine.makePrototypes] at result
      split at result
      · rename_i proto e₁ step
        obtain ⟨after, began, keeps⟩ := documented.makePlain step
        refine ih after (fun p mem => ?_) result
        rcases Array.mem_push.1 mem with old | rfl
        · exact keeps p (before p old)
        · exact began
      · cases result

/-- The prototypes of a context that is opened began as plain objects. -/
theorem Engine.Documented.openContext {slots : Nat} (documented : e.Documented)
    (opened : e.openContext slots = (.ok c, e')) :
    ∃ ctx, e'.contexts = e.contexts.push ctx ∧ ∀ p ∈ ctx.prototypes, e'.BeganAsCarrier p := by
  have plain : e.Apart (e.makePlain Value.null).2 := Engine.apart_makeWithProto
  rw [Engine.openContext] at opened
  split at opened
  · cases opened
  · split at opened <;> rename_i first
    · cases opened
    · rename_i base e₁
      rw [first] at plain
      obtain ⟨documented₁, began, -⟩ := documented.makePlain first
      have more : e₁.Apart (e₁.makePrototypes base #[base] (prototypeSlots slots - 1)).2 :=
        Engine.apart_makePrototypes _ _ _
      split at opened <;> rename_i second
      · cases opened
      · rename_i protos e₂
        rw [second] at more
        have start : ∀ p ∈ #[base], e₁.BeganAsCarrier p := by
          intro p mem
          rwa [Array.mem_singleton.1 mem]
        obtain ⟨documented₂, all⟩ := documented₁.makePrototypes start second
        have last : e₂.Apart (e₂.allocateWithProto base ClassId.global (.plain base [])).2 :=
          Engine.apart_allocateWithProto
        rw [Engine.makeContext] at opened
        split at opened <;> rename_i third
        · cases opened
        · rename_i global e₃
          rw [third] at last
          have enters := documented₂.enters_allocateWithProto third
          cases opened
          exact ⟨_, congrArg (Array.push · _) ((plain.trans more).trans last).contexts,
            fun p mem => (enters.keeps (all p mem)).congr rfl⟩

/-- No request gives a context a prototype that it did not have. -/
theorem Action.prototypes_onContext {a : Action} {closes : Bool} {k : Nat} {ctx : Context} :
    (a.onContext closes k ctx).prototypes = ctx.prototypes ∨
      (a.onContext closes k ctx).prototypes = #[] := by
  cases a with
  | shareContext c =>
      left
      simp only [Action.onContext, Context.share]
      split <;> (try split) <;> rfl
  | leaveContext c =>
      simp only [Action.onContext, Context.leave]
      split
      · split
        · split
          · exact .inl rfl
          · exact .inr rfl
        · exact .inl rfl
      · exact .inl rfl
  | register c v =>
      left
      simp only [Action.onContext, Context.register]
      split <;> (try split) <;> rfl
  | unregister c v =>
      left
      simp only [Action.onContext, Context.unregister]
      split <;> (try split) <;> (try split) <;> rfl
  | shutdown =>
      simp only [Action.onContext, Context.shut]
      split
      · split
        · exact .inr rfl
        · exact .inl rfl
      · exact .inl rfl
  | _ => exact .inl rfl

/-- Unless one is opened, every context was there before. -/
theorem Engine.context_of_perform {a : Action} {k : Nat} {ctx : Context}
    (other : ∀ slots, a ≠ .openContext slots) (found : (e.perform a).2.contexts[k]? = some ctx) :
    ∃ before, e.contexts[k]? = some before ∧ ctx = a.onContext (e.closes k) k before := by
  have moved := e.moved_perform a
  obtain ⟨-, size⟩ | ⟨opened, -⟩ := moved.opened
  · obtain ⟨inside, -⟩ := Array.getElem?_eq_some_iff.1 found
    rw [size] at inside
    have before := Array.getElem?_eq_getElem inside
    rw [moved.contexts k _ before] at found
    exact ⟨_, before, (Option.some.inj found).symm⟩
  · obtain ⟨e₁, -, -, result⟩ := e.perform_eq_carryOut a
    rw [result, Engine.opened?_carryOut other] at opened
    cases opened

theorem Engine.HasCarriers.perform (has : e.HasCarriers) (documented : e.Documented)
    (a : Action) : (e.perform a).2.HasCarriers := by
  intro k ctx found p mem
  -- What the context had before it still has the same origin.
  have old {before : Context} (here : e.contexts[k]? = some before)
      (mem : p ∈ before.prototypes) : (e.perform a).2.BeganAsCarrier p :=
    (has k before here p mem).perform documented a
  by_cases opens : ∃ slots, a = .openContext slots
  · obtain ⟨slots, rfl⟩ := opens
    have performed : e.perform (.openContext slots) =
        answered .contextId (e.openContext slots) :=
      Engine.perform_of_valid fun v passed => absurd passed List.not_mem_nil
    have refused := e.openContext_cases slots
    rw [performed] at found old ⊢
    rcases step : e.openContext slots with ⟨refusal | c, e'⟩ <;> rw [step] at found old refused
    · obtain ⟨-, -, apart⟩ | ⟨opened, -⟩ := refused
      · exact old (apart.contexts ▸ found) mem
      · cases opened
    · obtain ⟨new, contexts, began⟩ := documented.openContext step
      rw [answered, contexts, Array.getElem?_push] at found
      split at found
      · cases found
        exact began p mem
      · exact old found mem
  · obtain ⟨before, here, rfl⟩ := Engine.context_of_perform (fun slots same => opens ⟨slots, same⟩)
      found
    rcases Action.prototypes_onContext with same | none
    · exact old here (same ▸ mem)
    · rw [none] at mem
      exact absurd mem (Array.not_mem_empty p)

/-- A context without a prototype for a class lends none. -/
theorem Engine.HasCarriers.protoFor (has : e.HasCarriers)
    (found : e.protoFor c classId = .ok proto) :
    proto = Value.null ∨ e.BeganAsCarrier proto := by
  rw [Engine.protoFor] at found
  split at found
  · cases found
  · rename_i ctx active
    obtain ⟨context, -⟩ := Engine.activeContext_eq_ok active
    split at found
    · rename_i held
      cases found
      exact .inr (has _ ctx context _ (Array.mem_of_getElem? held))
    · split at found <;> cases found
      exact .inl rfl

end

theorem Reached.hasCarriers {d : Discipline} {limits : Limits} {s : Session}
    (reached : Reached d limits s) : s.engine.HasCarriers := by
  induction reached with
  | start =>
      intro c ctx found
      simp [Session.start, Engine.new] at found
  | step a booked before allowed range ih => exact ih.perform before.documented a

end CountedHeap
