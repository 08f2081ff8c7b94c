import CountedHeap.Proofs.Shutdown

/-!
Runs of an engine with a host that keeps books. The ledger of the host holds the
references that it owns: what the engine handed over and the host has not given
back. A host that behaves passes only values that are valid, and gives back only
references that are on its ledger. The bridge is the exception: a plain host may
give back on the bridge whatever it likes and as often as it likes, and whether
it takes such a reference off its ledger is its own business. A strict host
treats the bridge like any other way to give references back.

A session is an engine with the books of its host. The count discipline holds in
every session that can be reached, as long as no count has left its range.
-/

namespace CountedHeap

/-! ### What a request moves -/

/-- The references that a request hands to the engine. -/
def Action.given : Action → Multiset Handle
  | .makeArray _ items => refsOf items.toList
  | .store _ _ v => v.refs
  | .append _ v => v.refs
  | .dropKeyTable table => tableRefs table
  | .release v => v.refs
  | _ => 0

/-- The references that a request gives back on the bridge. -/
def Action.bridged : Action → Multiset Handle
  | .relinquish v => v.refs
  | .letGo held => held.value.refs
  | _ => 0

/-- The references that an answer hands over. -/
def Answer.refs : Answer → Multiset Handle
  | .value v => v.refs
  | .keyTable (some table) => tableRefs table
  | .held hold => hold.value.refs
  | _ => 0

/-- The references that a request hands to the host. Adopting a value is answered
without it, and a prototype that is asked for is answered without a reference. -/
def Action.gained (a : Action) (answer : Answer) : Multiset Handle :=
  match a with
  | .adopt v => v.refs
  | .protoOf _ => 0
  | _ => answer.refs

/-- Whether a request takes every object away. -/
def Action.ends (a : Action) (e : Engine) : Bool :=
  match a with
  | .shutdown => !e.isClosed
  | _ => false

/-! ### Sessions -/

/-- How a host deals with the bridge. -/
inductive Discipline
  | strict
  | plain
  deriving DecidableEq, Repr

/-- An engine with the books of its host: the references that the host owns, and
the objects that it gave references back on without taking any off its ledger. -/
structure Session where
  engine : Engine
  ledger : Multiset Handle := 0
  misused : Finset Handle := ∅

def Session.start (limits : Limits) : Session where
  engine := Engine.new limits

/-- What a request takes off the ledger. -/
def Action.returned (a : Action) (booked : Bool) : Multiset Handle :=
  a.given + if booked then a.bridged else 0

/-- The host makes a request, and books what it gives back on the bridge, or
does not. -/
def Session.act (s : Session) (a : Action) (booked : Bool) : Session where
  engine := (s.engine.perform a).2
  ledger := if a.ends s.engine then 0
    else a.gained (s.engine.perform a).1 + (s.ledger - a.returned booked)
  misused := if booked then s.misused else s.misused ∪ a.bridged.toFinset

/-- Whether a host may make a request. -/
structure Session.Allows (d : Discipline) (s : Session) (a : Action) (booked : Bool) : Prop where
  valid : ∀ v ∈ a.arguments, s.engine.isValid v = true
  owned : a.returned booked ≤ s.ledger
  strict : d = .strict → booked = true

instance (d : Discipline) (s : Session) (a : Action) (booked : Bool) :
    Decidable (s.Allows d a booked) :=
  decidable_of_iff ((∀ v ∈ a.arguments, s.engine.isValid v = true) ∧
      a.returned booked ≤ s.ledger ∧ (d = .strict → booked = true))
    ⟨fun ⟨valid, owned, strict⟩ => ⟨valid, owned, strict⟩,
      fun allowed => ⟨allowed.valid, allowed.owned, allowed.strict⟩⟩

/-- The sessions of hosts that behave, with all counts in range. -/
inductive Reached (d : Discipline) (limits : Limits) : Session → Prop
  | start : Reached d limits (Session.start limits)
  | step {s : Session} (a : Action) (booked : Bool) (before : Reached d limits s)
      (allowed : s.Allows d a booked) (range : (s.act a booked).engine.InRange) :
      Reached d limits (s.act a booked)

/-- Follows a list of requests for as long as the host may make them. -/
def Session.follow (d : Discipline) (s : Session) : List (Action × Bool) → Option Session
  | [] => some s
  | (a, booked) :: rest =>
    if s.Allows d a booked ∧ (s.act a booked).engine.InRange then (s.act a booked).follow d rest
    else none

theorem Reached.follow {d : Discipline} {limits : Limits} {s s' : Session}
    {steps : List (Action × Bool)} (reached : Reached d limits s)
    (followed : s.follow d steps = some s') : Reached d limits s' := by
  induction steps generalizing s with
  | nil => exact Option.some.inj followed ▸ reached
  | cons step rest ih =>
      obtain ⟨a, booked⟩ := step
      rw [Session.follow] at followed
      split at followed
      · rename_i fine
        exact ih (reached.step a booked fine.1 fine.2) followed
      · cases followed

/-! ### Answers -/

section

variable {e : Engine} {M : Finset Handle} {X : Multiset Handle} {α : Type} {answer : α → Answer}
  {r : Except Refusal α × Engine}

theorem inRange_of_answered (range : (answered answer r).2.InRange) : r.2.InRange := by
  rw [snd_answered] at range
  exact range

theorem Engine.Settled.ofZero (hs : e.Settled M X) : e.Settled M (0 + X) := by
  rwa [zero_add]

/-- An answer that hands over a value, or a refusal. -/
theorem Engine.Settled.answeredValue {r : Except Refusal Value × Engine}
    (hs : r.2.Settled M (handedOver r.1 + X)) :
    (answered .value r).2.Settled M ((answered .value r).1.refs + X) := by
  rcases r with ⟨refusal | v, e⟩
  · exact hs
  · exact hs

/-- An answer that hands over nothing. -/
theorem Engine.Settled.answeredNothing (hs : r.2.Settled M X)
    (nothing : ∀ a, (answer a).refs = 0) :
    (answered answer r).2.Settled M ((answered answer r).1.refs + X) := by
  rcases r with ⟨refusal | a, e⟩
  · exact hs.ofZero
  · rw [answered, nothing a]
    exact hs.ofZero

/-! ### One request -/

/-- A request takes from the outside owners what the host gives back, and adds
what it hands over. -/
theorem Engine.Settled.carryOut {a : Action} (hs : e.Settled M (a.given + a.bridged + X))
    (named : ∀ v ∈ a.arguments, e.Names v) (range : (e.carryOut a).2.InRange)
    (lasts : a.ends e = false) :
    (e.carryOut a).2.Settled M (a.gained (e.carryOut a).1 + X) := by
  -- A request gives back in one of the two ways, or not at all.
  have given {Y : Multiset Handle} (hs : e.Settled M (Y + 0 + X)) : e.Settled M (Y + X) := by
    rwa [add_zero] at hs
  have bridged {Y : Multiset Handle} (hs : e.Settled M (0 + Y + X)) : e.Settled M (Y + X) := by
    rwa [zero_add] at hs
  have nothing (hs : e.Settled M (0 + 0 + X)) : e.Settled M X := by
    rwa [zero_add, zero_add] at hs
  cases a with
  | openContext slots =>
      exact ((nothing hs).openContext (inRange_of_answered range)).answeredNothing fun _ => rfl
  | shareContext c => exact (nothing hs).shareContext.ofZero
  | leaveContext c => exact (nothing hs).leaveContext.ofZero
  | contextPhase c => exact (nothing hs).ofZero
  | context c =>
      exact Engine.Settled.answeredNothing (r := (e.activeContext c, e)) (nothing hs) fun _ => rfl
  | globalOf c => exact ((nothing hs).globalOf (inRange_of_answered range)).answeredValue
  | takeProto c classId =>
      exact ((nothing hs).takeProto (inRange_of_answered range)).answeredValue
  | makeObjectIn c =>
      exact ((nothing hs).makeOfClass (inRange_of_answered range)).answeredValue
  | makeArrayIn c =>
      exact ((nothing hs).makeOfClass (inRange_of_answered range)).answeredValue
  | makeOfClass c classId =>
      exact ((nothing hs).makeOfClass (inRange_of_answered range)).answeredValue
  | makeWithProto proto classId =>
      have proto := named proto List.mem_cons_self
      exact ((nothing hs).makeWithProto proto (inRange_of_answered range)).answeredValue
  | construct c constructor classId =>
      exact ((nothing hs).construct (inRange_of_answered range)).answeredValue
  | makePlain proto =>
      have proto := named proto List.mem_cons_self
      exact ((nothing hs).makePlain proto (inRange_of_answered range)).answeredValue
  | makeArray proto items =>
      have proto := named proto List.mem_cons_self
      exact ((given hs).makeArray proto (inRange_of_answered range)).answeredValue
  | makeFunction name proto =>
      have proto := named proto List.mem_cons_self
      exact ((nothing hs).makeFunction proto (inRange_of_answered range)).answeredValue
  | makeFunctionIn c name =>
      exact ((nothing hs).makeFunctionIn (inRange_of_answered range)).answeredValue
  | makeHost proto classId cookie =>
      have proto := named proto List.mem_cons_self
      exact ((nothing hs).makeHost proto (inRange_of_answered range)).answeredValue
  | makeString text => exact ((nothing hs).makeString text).answeredValue
  | boxNumber d => exact ((nothing hs).boxNumber d).answeredValue
  | makeNumber d => exact ((nothing hs).makeNumber d).answeredValue
  | number v => exact (nothing hs).ofZero
  | string v => exact (nothing hs).ofZero
  | carriesProperties v => exact (nothing hs).ofZero
  | store target key v => exact (given hs).store.answeredNothing fun _ => rfl
  | fetch target key => exact (nothing hs).fetch range
  | erase target key => exact (nothing hs).erase.ofZero
  | append target v => exact (given hs).append.answeredNothing fun _ => rfl
  | protoOf target => exact (nothing hs).ofZero
  | keysOf target => exact (nothing hs).ofZero
  | keyTableOf target =>
      have kept : (e.keyTableOf target).2.Settled M _ := (nothing hs).keyTableOf
      rw [Engine.carryOut]
      rcases step : e.keyTableOf target with ⟨_ | table, e'⟩ <;> rw [step] at kept
      · exact kept
      · exact kept
  | dropKeyTable table => exact (given hs).dropKeyTable.ofZero
  | retain v => exact (nothing hs).retain (named v List.mem_cons_self) range
  | release v => exact (given hs).release.ofZero
  | countOf v => exact (nothing hs).ofZero
  | adopt v => exact (nothing hs).adopt (named v List.mem_cons_self) range
  | relinquish v => exact ((bridged hs).relinquish range).ofZero
  | hold v => exact (nothing hs).adopt (named v List.mem_cons_self) range
  | letGo held => exact ((bridged hs).relinquish range).ofZero
  | register c v =>
      have registered := (nothing hs).register (named v List.mem_cons_self)
        (inRange_of_answered range)
      exact registered.answeredNothing fun _ => rfl
  | unregister c v => exact (nothing hs).unregister.ofZero
  | isLive v => exact (nothing hs).ofZero
  | isParked v => exact (nothing hs).ofZero
  | collect => exact (nothing hs).collect.ofZero
  | limitMemory limit => exact Engine.Balanced.congr (nothing hs).ofZero
  | setThreshold threshold => exact Engine.Balanced.congr (nothing hs).ofZero
  | limits => exact (nothing hs).ofZero
  | isClosed => exact (nothing hs).ofZero
  | setFinalizer classId f =>
      have kept : (e.setFinalizer classId f).2.Settled M X := by
        rw [Engine.setFinalizer]
        split
        · exact Engine.Balanced.congr (nothing hs)
        · exact nothing hs
      exact kept.answeredNothing fun _ => rfl
  | flushDiagnostics =>
      refine Engine.Balanced.congr (nothing hs).ofZero rfl rfl rfl rfl ?_ rfl
      exact fun d hd => absurd hd (Array.not_mem_empty d)
  | shutdown =>
      have closed : e.isClosed = true := by simpa [Action.ends] using lasts
      rw [Engine.carryOut, Engine.shutdown, if_pos closed]
      exact (nothing hs).ofZero

/-- A request that gives something back on the bridge gives nothing back
otherwise, and hands over nothing. -/
theorem Action.bridged_eq (a : Action) : a.bridged = 0 ∨ ∃ v, a.bridged = v.refs ∧ a.given = 0 ∧
    a.arguments = [v] ∧ ∀ e : Engine, (e.carryOut a).2 = (e.relinquish v).2 ∧
      a.gained (e.carryOut a).1 = 0 := by
  cases a with
  | relinquish v => exact .inr ⟨v, rfl, rfl, rfl, fun e => ⟨rfl, rfl⟩⟩
  | letGo held => exact .inr ⟨held.value, rfl, rfl, rfl, fun e => ⟨rfl, rfl⟩⟩
  | _ => exact .inl rfl

/-- A request of a host that does not book what it gives back on the bridge. -/
theorem Engine.Settled.carryOut_unbooked {a : Action} (hs : e.Settled M (a.given + X))
    (named : ∀ v ∈ a.arguments, e.Names v) (range : (e.carryOut a).2.InRange)
    (lasts : a.ends e = false) :
    (e.carryOut a).2.Settled (M ∪ a.bridged.toFinset) (a.gained (e.carryOut a).1 + X) := by
  rcases a.bridged_eq with none | ⟨v, bridged, given, arguments, result⟩
  · rw [← add_zero a.given, ← none] at hs
    have carried := hs.carryOut named range lasts
    rw [none, Multiset.toFinset_zero, Finset.union_empty]
    exact carried
  · obtain ⟨same, gained⟩ := result e
    rw [given, zero_add] at hs
    rw [same] at range
    rw [gained, zero_add, bridged, same]
    exact hs.misuse (named v (arguments ▸ List.mem_cons_self)) range

theorem Engine.Settled.ended {a : Action} (hs : e.Settled M X) (ends : a.ends e = true) :
    (e.carryOut a).2.Settled M 0 := by
  cases a with
  | shutdown =>
      have hopen : e.isClosed = false := by simpa [Action.ends] using ends
      exact hs.shutdown hopen
  | _ => cases ends

end

/-! ### Runs -/

section

variable {d : Discipline} {limits : Limits} {s : Session} {a : Action} {booked : Bool}

theorem Engine.settled_new (limits : Limits) : (Engine.new limits).Settled ∅ 0 := by
  have slot : ∀ k, (Engine.new limits).heap.slot k = .reclaimed := by
    intro k
    rfl
  refine ⟨⟨?_, ?_, Multiset.nodup_zero⟩, ⟨?_, ?_, nofun, ?_⟩,
    ⟨nofun, rfl, nofun, nofun, .empty, rfl⟩⟩
  · intro k
    rw [slot]
    trivial
  · exact fun k hk => absurd hk (Multiset.notMem_zero k)
  · exact nofun
  · exact fun k hk => absurd hk (Multiset.notMem_zero k)
  · rintro k (misused | left)
    · exact absurd misused (Finset.notMem_empty k)
    · exact absurd left (Multiset.notMem_zero k)

theorem Engine.perform_of_valid {e : Engine} (valid : ∀ v ∈ a.arguments, e.isValid v = true) :
    e.perform a = e.carryOut a := by
  rw [Engine.perform, if_pos (List.all_eq_true.2 valid)]

theorem Session.Allows.perform_eq (allowed : s.Allows d a booked) :
    s.engine.perform a = s.engine.carryOut a :=
  Engine.perform_of_valid allowed.valid

/-- One step of a run. -/
theorem Session.Allows.settled (allowed : s.Allows d a booked)
    (hs : s.engine.Settled s.misused s.ledger) (range : (s.act a booked).engine.InRange) :
    (s.act a booked).engine.Settled (s.act a booked).misused (s.act a booked).ledger := by
  have named : ∀ v ∈ a.arguments, s.engine.Names v :=
    fun v hv => Engine.isValid_iff.1 (allowed.valid v hv)
  have paid : a.returned booked + (s.ledger - a.returned booked) = s.ledger :=
    add_tsub_cancel_of_le allowed.owned
  simp only [Session.act, allowed.perform_eq] at range ⊢
  by_cases ends : a.ends s.engine = true
  · rw [if_pos ends]
    cases a with
    | shutdown =>
        have ended := hs.ended ends
        cases booked
        · simpa [Action.bridged] using ended
        · exact ended
    | _ => cases ends
  · rw [if_neg ends]
    rw [Bool.not_eq_true] at ends
    rw [← paid] at hs
    cases booked with
    | true => exact Engine.Settled.carryOut hs named range ends
    | false =>
        simp only [Action.returned, Bool.false_eq_true, if_false, add_zero] at hs ⊢
        exact hs.carryOut_unbooked named range ends

/-- Every session that can be reached keeps the count discipline. -/
theorem Reached.settled (reached : Reached d limits s) :
    s.engine.Settled s.misused s.ledger := by
  induction reached with
  | start => exact Engine.settled_new limits
  | step a booked before allowed range ih => exact allowed.settled ih range

/-- A strict host misuses nothing. -/
theorem Reached.misused_eq (reached : Reached .strict limits s) : s.misused = ∅ := by
  induction reached with
  | start => rfl
  | step a booked before allowed range ih =>
      simp only [Session.act, allowed.strict rfl, if_true]
      exact ih

theorem Reached.settled_strict (reached : Reached .strict limits s) :
    s.engine.Settled ∅ s.ledger :=
  reached.misused_eq ▸ reached.settled

end

end CountedHeap
