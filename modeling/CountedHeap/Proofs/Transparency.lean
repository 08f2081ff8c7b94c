import CountedHeap.Proofs.Ownership
import CountedHeap.Proofs.Twins

/-!
Collections are transparent. A host that passes only what it owns, or the
prototype of what it owns, cannot tell by the answers it gets when the engine
collects. Let it make the same requests twice, with another threshold and with
other collections in between: whatever it asks about tables, elements, numbers
and strings is answered the same, new objects have the same numbers, and what can
be reached from what it owns is the same. What may differ is left out: counts,
what garbage is there, and the settings of the collector.
-/

namespace CountedHeap

/-! ### Requests -/

/-- A request that concerns the collector and nothing else. -/
def Action.isHousekeeping : Action → Bool
  | .collect => true
  | .setThreshold _ => true
  | _ => false

/-- A request that does not bound the memory or end the engine. -/
def Action.isOrdinary : Action → Bool
  | .limitMemory (some _) => false
  | .shutdown => false
  | _ => true

/-- A request with an answer that does not tell of counts, of garbage, or of the
state of the engine itself. -/
def Action.isObserved : Action → Bool
  | .countOf _ => false
  | .relinquish _ => false
  | .letGo _ => false
  | .isLive _ => false
  | .isParked _ => false
  | .collect => false
  | .setThreshold _ => false
  | .limits => false
  | .flushDiagnostics => false
  | .shutdown => false
  | _ => true

/-- Two results of a request, on engines that look alike afterwards too. -/
structure Action.Mirrored (a : Action) (X : Multiset Handle) (r₁ r₂ : Answer × Engine) : Prop where
  answer : a.isObserved = true → r₂.1 = r₁.1
  gained : a.gained r₂.1 = a.gained r₁.1
  alike : Engine.Alike (a.gained r₁.1 + X) r₁.2 r₂.2

section

variable {a : Action} {e₁ e₂ : Engine} {X : Multiset Handle} {α : Type} {answer : α → Answer}

/-- A constructor hands over what it made. -/
theorem Engine.Twin.value {r₁ r₂ : Except Refusal Value × Engine}
    (twin : Engine.Twin handedOver X r₁ r₂)
    (plain : ∀ r, a.gained r = r.refs := by intro; rfl) :
    a.Mirrored X (answered .value r₁) (answered .value r₂) := by
  obtain ⟨r₁, e₁⟩ := r₁
  obtain ⟨r₂, e₂⟩ := r₂
  obtain ⟨same, alike⟩ := twin
  obtain rfl : r₂ = r₁ := same
  refine ⟨fun _ => ?_, ?_, ?_⟩
  · cases r₂ <;> rfl
  · cases r₂ <;> rfl
  · rw [plain]
    cases r₂ <;> exact alike

/-- Any other operation that may be refused hands over nothing. -/
theorem Engine.Twin.nothing {r₁ r₂ : Except Refusal α × Engine}
    (twin : Engine.Twin (fun _ => 0) X r₁ r₂)
    (plain : ∀ r, a.gained r = r.refs := by intro; rfl)
    (none : ∀ x, (answer x).refs = 0 := by intro; rfl) :
    a.Mirrored X (answered answer r₁) (answered answer r₂) := by
  obtain ⟨r₁, e₁⟩ := r₁
  obtain ⟨r₂, e₂⟩ := r₂
  obtain ⟨same, alike⟩ := twin
  obtain rfl : r₂ = r₁ := same
  refine ⟨fun _ => ?_, ?_, ?_⟩
  · cases r₂ <;> rfl
  · cases r₂ <;> rfl
  · rw [plain]
    cases r₂ with
    | error refusal => exact alike
    | ok x =>
        rw [answered, none x]
        exact alike

/-- A request with a fixed answer that hands over nothing. -/
theorem Engine.Alike.mirrored {r : Answer} (alike : Engine.Alike X e₁ e₂)
    (none : a.gained r = 0) : a.Mirrored X (r, e₁) (r, e₂) := by
  refine ⟨fun _ => rfl, rfl, ?_⟩
  rw [none]
  exact alike.ofZero

/-- A request with an answer that may differ, which hands over nothing. -/
theorem Engine.Alike.unobserved {r₁ r₂ : Answer × Engine} (alike : Engine.Alike X r₁.2 r₂.2)
    (hidden : a.isObserved = false) (none₁ : a.gained r₁.1 = 0) (none₂ : a.gained r₂.1 = 0) :
    a.Mirrored X r₁ r₂ := by
  refine ⟨fun observed => ?_, ?_, ?_⟩
  · rw [hidden] at observed
    exact absurd observed Bool.false_ne_true
  · rw [none₁, none₂]
  · rw [none₁]
    exact alike.ofZero

theorem Engine.Alike.setFinalizer {classId : ClassId} {f : Option Finalizer}
    (alike : Engine.Alike X e₁ e₂) :
    Engine.Twin (fun _ => 0) X (e₁.setFinalizer classId f) (e₂.setFinalizer classId f) := by
  rw [Engine.setFinalizer, Engine.setFinalizer]
  split
  · have attached (fs₁ fs₂ : List (ClassId × Finalizer)) :
        Engine.Alike X { e₁ with finalizers := fs₁ } { e₂ with finalizers := fs₂ } :=
      alike.aside (alike.first.next (Engine.Balanced.congr alike.first.settled) rfl rfl)
        (alike.later.next (Engine.Balanced.congr alike.later.settled) rfl rfl) rfl rfl
    exact ⟨rfl, (attached _ _).ofZero⟩
  · exact ⟨rfl, alike.ofZero⟩

/-- A request has the same result on engines that look alike. -/
theorem Engine.Alike.carryOut (alike : Engine.Alike (a.given + a.bridged + X) e₁ e₂)
    (sight : ∀ v ∈ a.arguments, e₁.InSight (a.given + a.bridged + X) v)
    (ordinary : a.isOrdinary = true) (busy : a.isHousekeeping = false)
    (range : (e₁.carryOut a).2.InRange ∧ (e₂.carryOut a).2.InRange) :
    a.Mirrored X (e₁.carryOut a) (e₂.carryOut a) := by
  -- A request gives back in one of the two ways, or not at all.
  have given {Y : Multiset Handle} (alike : Engine.Alike (Y + 0 + X) e₁ e₂) :
      Engine.Alike (Y + X) e₁ e₂ := by
    rwa [add_zero] at alike
  have bridged {Y : Multiset Handle} (alike : Engine.Alike (0 + Y + X) e₁ e₂) :
      Engine.Alike (Y + X) e₁ e₂ := by
    rwa [zero_add] at alike
  have nothing (alike : Engine.Alike (0 + 0 + X) e₁ e₂) : Engine.Alike X e₁ e₂ := by
    rwa [zero_add, zero_add] at alike
  have seenGiven {v : Value} {Y : Multiset Handle} (sight : e₁.InSight (Y + 0 + X) v) :
      e₁.InSight (Y + X) v := by
    rwa [add_zero] at sight
  have seen {v : Value} (sight : e₁.InSight (0 + 0 + X) v) : e₁.InSight X v := by
    rwa [zero_add, zero_add] at sight
  have ranges {α : Type} {r₁ r₂ : Except Refusal α × Engine} {answer : α → Answer}
      (range : (answered answer r₁).2.InRange ∧ (answered answer r₂).2.InRange) :
      r₁.2.InRange ∧ r₂.2.InRange :=
    range.imp inRange_of_answered inRange_of_answered
  cases a with
  | openContext slots =>
      exact ((nothing alike).openContext (ranges range)).nothing
  | shareContext c => exact (nothing alike).shareContext.mirrored rfl
  | leaveContext c =>
      obtain ⟨same, left⟩ := (nothing alike).leaveContext (c := c)
      exact ⟨fun _ => congrArg Answer.decision same, rfl, left⟩
  | contextPhase c =>
      have same : e₂.contextPhase? c = e₁.contextPhase? c := by
        rw [Engine.contextPhase?, alike.contexts, Engine.contextPhase?]
      rw [Engine.carryOut, Engine.carryOut, same]
      exact (nothing alike).mirrored rfl
  | context c =>
      have twin : Engine.Twin (fun _ => 0) X (e₁.activeContext c, e₁) (e₂.activeContext c, e₂) :=
        ⟨alike.activeContext_eq c, (nothing alike).ofZero⟩
      exact twin.nothing
  | globalOf c => exact ((nothing alike).globalOf (ranges range)).value
  | takeProto c classId => exact ((nothing alike).takeProto (ranges range)).value
  | makeObjectIn c => exact ((nothing alike).makeOfClass (ranges range)).value
  | makeArrayIn c => exact ((nothing alike).makeOfClass (ranges range)).value
  | makeOfClass c classId => exact ((nothing alike).makeOfClass (ranges range)).value
  | makeWithProto proto classId =>
      have proto := seen (sight proto List.mem_cons_self)
      exact ((nothing alike).makeWithProto proto (ranges range)).value
  | construct c constructor classId =>
      have constructor := seen (sight constructor List.mem_cons_self)
      exact ((nothing alike).construct constructor (ranges range)).value
  | makePlain proto =>
      have proto := seen (sight proto List.mem_cons_self)
      exact ((nothing alike).makeWithProto proto (ranges range)).value
  | makeArray proto items =>
      have proto := seenGiven (sight proto List.mem_cons_self)
      exact ((given alike).makeArray proto (ranges range)).value
  | makeFunction name proto =>
      have proto := seen (sight proto List.mem_cons_self)
      exact ((nothing alike).makeFunction proto (ranges range)).value
  | makeFunctionIn c name =>
      exact ((nothing alike).makeFunctionIn (ranges range)).value
  | makeHost proto classId cookie =>
      have proto := seen (sight proto List.mem_cons_self)
      exact ((nothing alike).makeHost proto (ranges range)).value
  | makeString text => exact ((nothing alike).makeString text).value
  | boxNumber d => exact ((nothing alike).boxNumber d).value
  | makeNumber d => exact ((nothing alike).makeNumber d).value
  | number v =>
      rw [Engine.carryOut, Engine.carryOut, alike.number?_eq (sight v List.mem_cons_self)]
      exact (nothing alike).mirrored rfl
  | string v =>
      rw [Engine.carryOut, Engine.carryOut, alike.string?_eq (sight v List.mem_cons_self)]
      exact (nothing alike).mirrored rfl
  | carriesProperties v =>
      rw [Engine.carryOut, Engine.carryOut,
        alike.carriesProperties_eq (sight v List.mem_cons_self)]
      exact (nothing alike).mirrored rfl
  | store target key v =>
      have target := seenGiven (sight target List.mem_cons_self)
      exact ((given alike).store target).nothing
  | fetch target key =>
      obtain ⟨same, fetched⟩ := (nothing alike).fetch (seen (sight target List.mem_cons_self)) range
      exact ⟨fun _ => congrArg Answer.value same, congrArg Value.refs same, fetched⟩
  | erase target key =>
      obtain ⟨same, erased⟩ : Engine.Twin (fun _ => 0) X (e₁.erase target key)
          (e₂.erase target key) :=
        (nothing alike).erase (seen (sight target List.mem_cons_self))
      exact ⟨fun _ => congrArg Answer.flag same, rfl, erased⟩
  | append target v =>
      have target := seenGiven (sight target List.mem_cons_self)
      exact ((given alike).append target).nothing
  | protoOf target =>
      rw [Engine.carryOut, Engine.carryOut, alike.protoOf_eq (sight target List.mem_cons_self)]
      exact (nothing alike).mirrored rfl
  | keysOf target =>
      rw [Engine.carryOut, Engine.carryOut, alike.keysOf_eq (sight target List.mem_cons_self)]
      exact (nothing alike).mirrored rfl
  | keyTableOf target =>
      have refs : ∀ table, (Answer.keyTable table).refs = table.elim 0 tableRefs := by
        rintro (_ | table)
        · rfl
        · rfl
      obtain ⟨same, made⟩ := (nothing alike).keyTableOf (seen (sight target List.mem_cons_self))
      rw [← refs] at made
      exact ⟨fun _ => congrArg Answer.keyTable same,
        congrArg (fun table => (Answer.keyTable table).refs) same, made⟩
  | dropKeyTable table => exact (given alike).releaseAll.mirrored rfl
  | retain v =>
      have taken := (nothing alike).retain (seen (sight v List.mem_cons_self)) range
      exact ⟨fun _ => rfl, rfl, taken⟩
  | release v => exact (given alike).release.mirrored rfl
  | countOf v => exact (nothing alike).unobserved rfl rfl rfl
  | adopt v =>
      have taken := (nothing alike).adopt (seen (sight v List.mem_cons_self)) range
      exact ⟨fun _ => rfl, rfl, taken⟩
  | relinquish v => exact ((bridged alike).relinquish range).unobserved rfl rfl rfl
  | hold v =>
      have taken := (nothing alike).adopt (seen (sight v List.mem_cons_self)) range
      exact ⟨fun _ => rfl, rfl, taken⟩
  | letGo held => exact ((bridged alike).relinquish range).unobserved rfl rfl rfl
  | register c v =>
      have registered := (nothing alike).register (seen (sight v List.mem_cons_self)) (ranges range)
      exact registered.nothing
  | unregister c v =>
      obtain ⟨same, left⟩ := (nothing alike).unregister (c := c) (v := v)
      exact ⟨fun _ => congrArg Answer.flag same, rfl, left⟩
  | isLive v => exact (nothing alike).unobserved rfl rfl rfl
  | isParked v => exact (nothing alike).unobserved rfl rfl rfl
  | collect => cases busy
  | limitMemory limit =>
      cases limit with
      | some n => cases ordinary
      | none =>
          have plain := nothing alike
          have first : (e₁.limitMemory none).Running X :=
            ⟨Engine.Balanced.congr plain.first.settled, plain.first.hopen, rfl⟩
          have later : (e₂.limitMemory none).Running X :=
            ⟨Engine.Balanced.congr plain.later.settled, plain.later.hopen, rfl⟩
          exact (plain.aside first later rfl rfl).mirrored rfl
  | setThreshold threshold => cases busy
  | limits => exact (nothing alike).unobserved rfl rfl rfl
  | isClosed =>
      rw [Engine.carryOut, Engine.carryOut, alike.first.hopen, alike.later.hopen]
      exact (nothing alike).mirrored rfl
  | setFinalizer classId f => exact (nothing alike).setFinalizer.nothing
  | flushDiagnostics =>
      have plain := nothing alike
      have emptied {e : Engine} (settled : e.Settled ∅ X) : e.flushDiagnostics.2.Settled ∅ X :=
        Engine.Balanced.congr settled rfl rfl rfl rfl
          (fun d mem => absurd mem (Array.not_mem_empty d)) rfl
      have flushed : Engine.Alike X e₁.flushDiagnostics.2 e₂.flushDiagnostics.2 :=
        plain.aside (plain.first.next (emptied plain.first.settled) rfl rfl)
          (plain.later.next (emptied plain.later.settled) rfl rfl) rfl rfl
      exact flushed.unobserved rfl rfl rfl
  | shutdown => cases ordinary

end

/-! ### Hosts -/

/-- The values that a host may pass: immediates, references that it owns, and the
prototypes of objects that it owns. -/
def Session.Knows (s : Session) : Value → Prop
  | .immediate _ => True
  | .reference h => h ∈ s.ledger ∨ ∃ t ∈ s.ledger, s.engine.protoOf (.reference t) = .reference h

instance (s : Session) (v : Value) : Decidable (s.Knows v) :=
  match v with
  | .immediate _ => .isTrue trivial
  | .reference h =>
    have : Decidable (∃ t ∈ s.ledger, s.engine.protoOf (.reference t) = .reference h) :=
      Multiset.decidableExistsMultiset
    inferInstanceAs (Decidable (h ∈ s.ledger ∨ _))

/-- Whether a host that keeps to what it knows may make a request. -/
structure Session.Permits (s : Session) (a : Action) : Prop where
  known : ∀ v ∈ a.arguments, s.Knows v
  owned : a.returned true ≤ s.ledger
  ordinary : a.isOrdinary = true

instance (s : Session) (a : Action) : Decidable (s.Permits a) :=
  decidable_of_iff ((∀ v ∈ a.arguments, s.Knows v) ∧ a.returned true ≤ s.ledger ∧
      a.isOrdinary = true)
    ⟨fun ⟨known, owned, ordinary⟩ => ⟨known, owned, ordinary⟩,
      fun permitted => ⟨permitted.known, permitted.owned, permitted.ordinary⟩⟩

/-- The requests of a list with their answers, and the session after them, as long
as the host may make them and no count leaves its range. -/
def Session.play (s : Session) : List Action → Option (List (Action × Answer) × Session)
  | [] => some ([], s)
  | a :: rest =>
    if s.Permits a ∧ (s.act a true).engine.InRange then
      ((s.act a true).play rest).map fun (log, s') => ((a, (s.engine.perform a).1) :: log, s')
    else none

/-- Two sessions of one host that look alike. -/
structure Session.Alike (s₁ s₂ : Session) : Prop where
  ledger : s₂.ledger = s₁.ledger
  engines : Engine.Alike s₁.ledger s₁.engine s₂.engine

section

variable {a : Action} {s s' s₁ s₂ s₁' s₂' : Session} {e : Engine} {X : Multiset Handle}
  {h : Handle} {v : Value} {log log₁ log₂ : List (Action × Answer)} {rest first later : List Action}

theorem Session.play_cons (played : s.play (a :: rest) = some (log, s')) :
    s.Permits a ∧ (s.act a true).engine.InRange ∧ ∃ log',
      (s.act a true).play rest = some (log', s') ∧
        log = (a, (s.engine.perform a).1) :: log' := by
  rw [Session.play] at played
  split at played
  · rename_i fine
    obtain ⟨⟨log', s''⟩, played', same⟩ := Option.map_eq_some_iff.1 played
    obtain ⟨rfl, rfl⟩ := Prod.mk.inj same
    exact ⟨fine.1, fine.2, log', played', rfl⟩
  · cases played

theorem Payload.mem_values_of_proto {p : Payload} (proto : p.proto = .reference h) :
    .reference h ∈ p.values := by
  have handed (rest : List Value) : Value.reference h ∈ p.proto :: rest := by
    rw [proto]
    exact List.mem_cons_self
  cases p with
  | plain proto table => exact handed _
  | array proto items => exact handed _
  | function proto name table => exact handed _
  | host proto table cookie => exact handed _
  | _ => cases proto

/-- Whatever a host may pass is seen. -/
theorem Session.Knows.inSight (knows : s₁.Knows v) (alike : s₁.Alike s₂) :
    s₁.engine.InSight s₁.ledger v := by
  cases v with
  | immediate w => exact Engine.inSight_immediate w
  | reference h =>
      rcases knows with owned | ⟨t, owned, proto⟩
      · intro k named
        rw [Value.mem_refs] at named
        obtain rfl := Value.reference.inj named
        exact .root (Multiset.mem_add.2 (.inl owned))
      · have sees : s₁.engine.Sees s₁.ledger t := .root (Multiset.mem_add.2 (.inl owned))
        obtain ⟨o, -, slot, -⟩ := alike.engines.seen t sees
        simp only [Engine.protoOf, Engine.object?_of_live slot] at proto
        exact sees.inSight slot (Payload.mem_values_of_proto proto)

theorem Engine.perform_of_names (named : ∀ v ∈ a.arguments, e.Names v) :
    e.perform a = e.carryOut a :=
  Engine.perform_of_valid fun v mem => Engine.isValid_iff.2 (named v mem)

theorem Engine.Alike.setThresholdFirst {e₁ e₂ : Engine} (alike : Engine.Alike X e₁ e₂)
    (threshold : Nat) : Engine.Alike X (e₁.setThreshold threshold) e₂ := by
  have first : (e₁.setThreshold threshold).Running X :=
    ⟨Engine.Balanced.congr alike.first.settled, alike.first.hopen, alike.first.unlimited⟩
  exact alike.aside first alike.later rfl rfl

/-- A request that concerns the collector takes nothing, hands over nothing, and
may be made on one side only. -/
theorem Session.Alike.actFirst (alike : s₁.Alike s₂) (tidies : a.isHousekeeping = true) :
    (s₁.act a true).Alike s₂ := by
  have kept (free : a.returned true = 0) (gained : a.gained (s₁.engine.perform a).1 = 0)
      (lasts : a.ends s₁.engine = false) : (s₁.act a true).ledger = s₁.ledger := by
    simp only [Session.act, lasts, free, gained, Bool.false_eq_true, if_false, zero_add, tsub_zero]
  cases a with
  | collect =>
      have ledger := kept rfl rfl rfl
      refine ⟨alike.ledger.trans ledger.symm, ?_⟩
      rw [ledger]
      exact alike.engines.collectFirst
  | setThreshold threshold =>
      have ledger := kept rfl rfl rfl
      refine ⟨alike.ledger.trans ledger.symm, ?_⟩
      rw [ledger]
      exact alike.engines.setThresholdFirst threshold
  | _ => cases tidies

theorem Session.Alike.symm (alike : s₁.Alike s₂) : s₂.Alike s₁ :=
  ⟨alike.ledger.symm, by rw [alike.ledger]; exact alike.engines.symm⟩

theorem Action.ends_of_ordinary (ordinary : a.isOrdinary = true) : a.ends e = false := by
  cases a <;> first | rfl | cases ordinary

/-- Any other request is made on both sides, and answered the same where it is
observed. -/
theorem Session.Alike.act (alike : s₁.Alike s₂) (permits : s₁.Permits a)
    (busy : a.isHousekeeping = false)
    (range : (s₁.act a true).engine.InRange ∧ (s₂.act a true).engine.InRange) :
    (a.isObserved = true → (s₂.engine.perform a).1 = (s₁.engine.perform a).1) ∧
      (s₁.act a true).Alike (s₂.act a true) := by
  have engines := alike.engines
  have sight : ∀ v ∈ a.arguments, s₁.engine.InSight s₁.ledger v :=
    fun v mem => (permits.known v mem).inSight alike
  have performed₁ : s₁.engine.perform a = s₁.engine.carryOut a :=
    Engine.perform_of_names fun v mem => ((sight v mem).names engines).1
  have performed₂ : s₂.engine.perform a = s₂.engine.carryOut a :=
    Engine.perform_of_names fun v mem => ((sight v mem).names engines).2
  have paid : a.given + a.bridged + (s₁.ledger - a.returned true) = s₁.ledger :=
    add_tsub_cancel_of_le permits.owned
  rw [← paid] at engines sight
  simp only [Session.act, performed₁, performed₂] at range
  obtain ⟨answer, gained, next⟩ := engines.carryOut sight permits.ordinary busy range
  have lasts (e : Engine) : a.ends e = false := Action.ends_of_ordinary permits.ordinary
  rw [performed₁, performed₂]
  refine ⟨answer, ?_, ?_⟩
  · simp only [Session.act, performed₁, performed₂, lasts, alike.ledger, gained]
  · simp only [Session.act, performed₁, performed₂, lasts, Bool.false_eq_true, if_false]
    exact next

/-! ### Runs -/

/-- Two lists of requests that differ in requests that concern the collector. -/
inductive Action.Aligned : List Action → List Action → Prop
  | nil : Aligned [] []
  | first {a : Action} {first later : List Action} (tidies : a.isHousekeeping = true)
      (rest : Aligned first later) : Aligned (a :: first) later
  | later {a : Action} {first later : List Action} (tidies : a.isHousekeeping = true)
      (rest : Aligned first later) : Aligned first (a :: later)
  | both {a : Action} {first later : List Action} (busy : a.isHousekeeping = false)
      (rest : Aligned first later) : Aligned (a :: first) (a :: later)

theorem Action.aligned_of_filter_eq
    (same : first.filter (!·.isHousekeeping) = later.filter (!·.isHousekeeping)) :
    Action.Aligned first later := by
  induction first generalizing later with
  | nil =>
      induction later with
      | nil => exact .nil
      | cons b later ih =>
          cases tidies : b.isHousekeeping with
          | true =>
              rw [List.filter_cons_of_neg (by simp [tidies])] at same
              exact .later tidies (ih same)
          | false =>
              rw [List.filter_cons_of_pos (by simp [tidies])] at same
              cases same
  | cons a first ih =>
      cases tidies : a.isHousekeeping with
      | true =>
          rw [List.filter_cons_of_neg (by simp [tidies])] at same
          exact .first tidies (ih same)
      | false =>
          rw [List.filter_cons_of_pos (by simp [tidies])] at same
          induction later with
          | nil => cases same
          | cons b later ih' =>
              cases tidies' : b.isHousekeeping with
              | true =>
                  rw [List.filter_cons_of_neg (by simp [tidies'])] at same
                  exact .later tidies' (ih' same)
              | false =>
                  rw [List.filter_cons_of_pos (by simp [tidies'])] at same
                  obtain ⟨rfl, same'⟩ := List.cons.inj same
                  exact .both tidies (ih same')

theorem Action.isObserved_of_isHousekeeping (tidies : a.isHousekeeping = true) :
    a.isObserved = false := by
  cases a <;> first | rfl | cases tidies

/-- Two runs keep two sessions alike, with the same answers. -/
theorem Session.Alike.play (alike : s₁.Alike s₂) (aligned : Action.Aligned first later)
    (played₁ : s₁.play first = some (log₁, s₁')) (played₂ : s₂.play later = some (log₂, s₂')) :
    log₁.filter (·.1.isObserved) = log₂.filter (·.1.isObserved) ∧ s₁'.Alike s₂' := by
  induction aligned generalizing s₁ s₂ log₁ log₂ with
  | nil =>
      obtain ⟨rfl, rfl⟩ := Prod.mk.inj (Option.some.inj played₁)
      obtain ⟨rfl, rfl⟩ := Prod.mk.inj (Option.some.inj played₂)
      exact ⟨rfl, alike⟩
  | first tidies rest ih =>
      obtain ⟨-, -, log', played', rfl⟩ := Session.play_cons played₁
      have hidden := Action.isObserved_of_isHousekeeping tidies
      rw [List.filter_cons_of_neg (by simp [hidden])]
      exact ih (alike.actFirst tidies) played' played₂
  | later tidies rest ih =>
      obtain ⟨-, -, log', played', rfl⟩ := Session.play_cons played₂
      have hidden := Action.isObserved_of_isHousekeeping tidies
      rw [List.filter_cons_of_neg (by simp [hidden])]
      exact ih (alike.symm.actFirst tidies).symm played₁ played'
  | @both a first later busy rest ih =>
      obtain ⟨permits, range₁, log₁', played₁', rfl⟩ := Session.play_cons played₁
      obtain ⟨-, range₂, log₂', played₂', rfl⟩ := Session.play_cons played₂
      obtain ⟨answer, next⟩ := alike.act permits busy ⟨range₁, range₂⟩
      obtain ⟨same, ended⟩ := ih next played₁' played₂'
      refine ⟨?_, ended⟩
      rw [List.filter_cons, List.filter_cons, same]
      cases observed : a.isObserved with
      | true => rw [answer observed]
      | false => rfl

theorem Session.alike_start (t₁ t₂ : Nat) :
    (Session.start { threshold := t₁ }).Alike (Session.start { threshold := t₂ }) := by
  refine ⟨rfl, ⟨Engine.settled_new _, rfl, rfl⟩, ⟨Engine.settled_new _, rfl, rfl⟩, rfl, rfl, ?_⟩
  intro h sees
  have none : ∀ h, ¬ (Engine.new { threshold := t₁ }).Sees 0 h := by
    intro h sees
    induction sees with
    | root mem => exact Multiset.notMem_zero _ mem
    | within _ _ ih => exact ih
  exact absurd sees (none h)

/-- A host that makes the same requests on two engines without a memory limit,
with any thresholds and any collections in between, gets the same answers, ends up
with the same references, and what it reaches from them is the same on both. -/
theorem Session.collections_transparent {t₁ t₂ : Nat}
    (played₁ : (Session.start { threshold := t₁ }).play first = some (log₁, s₁))
    (played₂ : (Session.start { threshold := t₂ }).play later = some (log₂, s₂))
    (same : first.filter (!·.isHousekeeping) = later.filter (!·.isHousekeeping)) :
    log₁.filter (·.1.isObserved) = log₂.filter (·.1.isObserved) ∧ s₁.ledger = s₂.ledger ∧
      ∀ h, s₁.engine.heap.Reaches s₁.ledger h →
        (s₁.engine.heap.slot h).Alike (s₂.engine.heap.slot h) := by
  obtain ⟨answers, ledger, engines⟩ :=
    (Session.alike_start t₁ t₂).play (Action.aligned_of_filter_eq same) played₁ played₂
  refine ⟨answers, ledger.symm, fun h reached => engines.seen h ?_⟩
  exact reached.mono fun k mem => Multiset.mem_add.2 (.inl mem)

/-- A host that makes an object which refers to itself and to a string, drops that
object, and keeps the string in an array. -/
def cycleDropped : List Action :=
  [.openContext 0, .makeString "x", .makePlain Value.null, .retain (.reference 8),
    .store (.reference 8) "self" (.reference 8), .retain (.reference 7),
    .store (.reference 8) "kept" (.reference 7), .register 0 (.reference 7),
    .release (.reference 8), .makeArray Value.null #[.reference 7], .leaveContext 0,
    .fetch (.reference 9) "0", .string (.reference 7), .keysOf (.reference 9)]

/-- Collected after every request or never, the engine gives the same answers, and
has the dropped object at the end or has not. -/
theorem collections_transparent_cycleDropped : ∃ log₁ log₂ s₁ s₂,
    (Session.start { threshold := 256 }).play cycleDropped = some (log₁, s₁) ∧
      (Session.start { threshold := 0 }).play
          (cycleDropped.flatMap fun a => [a, .collect]) = some (log₂, s₂) ∧
        s₁.engine.heap.isLive 8 = true ∧ s₂.engine.heap.isLive 8 = false ∧
          log₁.filter (·.1.isObserved) = log₂.filter (·.1.isObserved) ∧
            (s₁.engine.heap.slot 7).Alike (s₂.engine.heap.slot 7) := by
  have run₁ : ((Session.start { threshold := 256 }).play cycleDropped).any (fun (_, s) =>
      s.engine.heap.isLive 8 && decide (7 ∈ s.ledger)) = true := by
    decide +kernel
  have run₂ : ((Session.start { threshold := 0 }).play
      (cycleDropped.flatMap fun a => [a, .collect])).any (fun (_, s) =>
        !s.engine.heap.isLive 8) = true := by
    decide +kernel
  obtain ⟨⟨log₁, s₁⟩, played₁, facts⟩ := (Option.any_eq_true _ _).1 run₁
  obtain ⟨⟨log₂, s₂⟩, played₂, gone⟩ := (Option.any_eq_true _ _).1 run₂
  rw [Bool.and_eq_true, decide_eq_true_eq] at facts
  rw [Bool.not_eq_true'] at gone
  obtain ⟨answers, -, same⟩ := Session.collections_transparent played₁ played₂ rfl
  exact ⟨log₁, log₂, s₁, s₂, played₁, played₂, facts.1, gone, answers, same 7 (.root facts.2)⟩

end

end CountedHeap
