import CountedHeap.Proofs.Session

/-!
Who is to blame. A release at zero is found out far from its cause: in the middle of
a cascade, in the late releases of a collection, or when a context is closed. The
count discipline says that no object comes there unless the host gave a reference
back on the bridge without having one to give. So no diagnostic of a run is ever
laid at the door of the engine, and a host that keeps to its own references is not
accused of anything either.
-/

namespace CountedHeap

/-- A diagnostic that does not accuse the engine, and accuses the host only of
objects that it misused. -/
def Diagnostic.Fair (misused : Finset Handle) (d : Diagnostic) : Prop :=
  d.blame ≠ .engineDoubleFree ∧ ∀ h, d.accused? = some h → h ∈ misused

/-- The diagnostics that an answer hands out. -/
def Answer.findings : Answer → List Diagnostic
  | .diagnostics ds => ds
  | .report r => r.diagnostics
  | _ => []

/-- Every diagnostic of a run: those that were handed out, and those that are still
kept at the end. -/
def Session.diagnosed (s : Session) : List (Action × Bool) → List Diagnostic
  | [] => s.engine.diagnostics.toList
  | (a, booked) :: rest => (s.engine.perform a).1.findings ++ (s.act a booked).diagnosed rest

/-- The host takes a reference that it gives back on the bridge off its ledger
whenever it owns one. -/
def Session.BooksAll (s : Session) (d : Discipline) (steps : List (Action × Bool)) : Prop :=
  ∀ past a booked future s', steps = past ++ (a, booked) :: future →
    s.follow d past = some s' → a.bridged ≤ s'.ledger → booked = true

/-- In the course of a run the host gave back a reference on `h` on the bridge beyond
what it owned: the reference was none of those on its ledger. A host that books
whenever it can had none there. -/
def Session.Overdraws (s : Session) (d : Discipline) (steps : List (Action × Bool))
    (h : Handle) : Prop :=
  ∃ past a future s', steps = past ++ (a, false) :: future ∧ s.follow d past = some s' ∧
    h ∈ a.bridged ∧ (s.BooksAll d steps → h ∉ s'.ledger)

section

variable {e : Engine} {M M' : Finset Handle} {X : Multiset Handle} {a : Action} {d : Diagnostic}
  {α : Type} {answer : α → Answer} {r : Except Refusal α × Engine}

theorem Diagnostic.Fair.mono (fair : d.Fair M) (more : M ⊆ M') : d.Fair M' :=
  ⟨fair.1, fun h accused => more (fair.2 h accused)⟩

theorem Diagnostic.Excused.fair (excused : d.Excused M) : d.Fair M :=
  ⟨excused.1, excused.2.2⟩

/-- That objects were left is nobody's release. -/
theorem Diagnostic.fair_leftBehind (residual : List Residual) :
    (Diagnostic.leftBehind residual).Fair M := by
  refine ⟨by simp [Diagnostic.leftBehind], fun h accused => ?_⟩
  simp [Diagnostic.leftBehind, Diagnostic.accused?] at accused

/-! ### One request -/

theorem Engine.Settled.fair (hs : e.Settled M X) (mem : d ∈ e.diagnostics.toList) : d.Fair M :=
  (hs.blameless.excused d (Array.mem_toList_iff.1 mem)).fair

theorem Engine.Settled.fair_shutdown (hs : e.Settled M X) (mem : d ∈ e.shutdown.1.diagnostics) :
    d.Fair M := by
  by_cases closed : e.isClosed = true
  · rw [Engine.shutdown, if_pos closed] at mem
    cases mem
  · have collected : e.lastCollected.Settled M X := hs.closeAll.collect
    obtain ⟨finalized, cleared⟩ := e.reported.clear_eq
    rw [Engine.shutdown_eq (Bool.eq_false_iff.2 closed), cleared] at mem
    change d ∈ e.reported.diagnostics.toList at mem
    rw [Engine.reported] at mem
    split at mem
    · exact collected.fair mem
    · rw [Engine.record, Array.toList_push, List.mem_append, List.mem_singleton] at mem
      rcases mem with old | rfl
      · exact collected.fair old
      · exact Diagnostic.fair_leftBehind _

theorem findings_answered (none : ∀ a, (answer a).findings = []) :
    (answered answer r).1.findings = [] := by
  rcases r with ⟨refusal | a, e⟩
  · rfl
  · exact none a

/-- Diagnostics are handed out by two requests only. -/
theorem Engine.Settled.fair_answer (hs : e.Settled M X)
    (mem : d ∈ (e.carryOut a).1.findings) : d.Fair M := by
  have nothing (none : (e.carryOut a).1.findings = []) : d.Fair M := by
    rw [none] at mem
    cases mem
  cases a with
  | flushDiagnostics => exact hs.fair mem
  | shutdown => exact hs.fair_shutdown mem
  | _ =>
      apply nothing
      first
        | rfl
        | exact findings_answered fun _ => rfl

end

/-! ### Runs -/

section

variable {d : Discipline} {limits : Limits} {s s' : Session} {steps : List (Action × Bool)}
  {a : Action} {booked : Bool} {h : Handle}

/-- A run of at least one step. -/
theorem Session.follow_cons {rest : List (Action × Bool)}
    (followed : s.follow d ((a, booked) :: rest) = some s') : s.Allows d a booked ∧
      (s.act a booked).engine.InRange ∧ (s.act a booked).follow d rest = some s' := by
  rw [Session.follow] at followed
  split at followed
  · rename_i fine
    exact ⟨fine.1, fine.2, followed⟩
  · cases followed

theorem Session.misused_subset_act : s.misused ⊆ (s.act a booked).misused := by
  rw [Session.act]
  cases booked
  · exact Finset.subset_union_left
  · exact subset_rfl

theorem Session.misused_subset_follow (followed : s.follow d steps = some s') :
    s.misused ⊆ s'.misused := by
  induction steps generalizing s with
  | nil => exact Option.some.inj followed ▸ subset_rfl
  | cons step rest ih =>
      obtain ⟨a, booked⟩ := step
      obtain ⟨-, -, later⟩ := Session.follow_cons followed
      exact Session.misused_subset_act.trans (ih later)

theorem Session.fair_diagnosed (followed : s.follow d steps = some s')
    (hs : s.engine.Settled s.misused s.ledger) {diagnostic : Diagnostic}
    (mem : diagnostic ∈ s.diagnosed steps) : diagnostic.Fair s'.misused := by
  induction steps generalizing s with
  | nil =>
      obtain rfl : s = s' := Option.some.inj followed
      exact hs.fair mem
  | cons step rest ih =>
      obtain ⟨a, booked⟩ := step
      obtain ⟨allowed, range, later⟩ := Session.follow_cons followed
      rw [Session.diagnosed, List.mem_append] at mem
      rcases mem with answered | after
      · rw [allowed.perform_eq] at answered
        exact (hs.fair_answer answered).mono
          (Session.misused_subset_act.trans (Session.misused_subset_follow later))
      · exact ih later (allowed.settled hs range) after

/-- What is misused was given back on the bridge and not booked. -/
theorem Session.unbooked_of_misused (followed : s.follow d steps = some s')
    (mem : h ∈ s'.misused) : h ∈ s.misused ∨ ∃ past a future s₁,
      steps = past ++ (a, false) :: future ∧ s.follow d past = some s₁ ∧ h ∈ a.bridged := by
  induction steps generalizing s with
  | nil =>
      obtain rfl : s = s' := Option.some.inj followed
      exact .inl mem
  | cons step rest ih =>
      obtain ⟨a, booked⟩ := step
      obtain ⟨allowed, range, later⟩ := Session.follow_cons followed
      rcases ih later with here | ⟨past, b, future, s₁, parts, reached, bridged⟩
      · rw [Session.act] at here
        cases booked
        · rcases Finset.mem_union.1 here with before | now
          · exact .inl before
          · exact .inr ⟨[], a, rest, s, rfl, rfl, Multiset.mem_toFinset.1 now⟩
        · exact .inl here
      · refine .inr ⟨(a, booked) :: past, b, future, s₁, by rw [parts, List.cons_append], ?_,
          bridged⟩
        rw [Session.follow, if_pos ⟨allowed, range⟩]
        exact reached

theorem Session.overdraws_of_misused (followed : s.follow d steps = some s')
    (clean : s.misused = ∅) (mem : h ∈ s'.misused) : s.Overdraws d steps h := by
  rcases Session.unbooked_of_misused followed mem with
    before | ⟨past, a, future, s₁, parts, reached, bridged⟩
  · rw [clean] at before
    exact absurd before (Finset.notMem_empty h)
  · refine ⟨past, a, future, s₁, parts, reached, bridged, fun books owned => ?_⟩
    -- A request gives back one reference on the bridge at most.
    have covered : a.bridged ≤ s₁.ledger := by
      rcases a.bridged_eq with none | ⟨v, eq, -⟩
      · rw [none]
        exact Multiset.zero_le _
      · rw [eq] at bridged ⊢
        rw [Value.mem_refs.1 bridged, Value.refs_reference, Multiset.singleton_le]
        exact owned
    exact Bool.noConfusion (books past a false future s₁ parts reached covered)

/-- No diagnostic of a run blames the engine, and each that is about an object
released at zero or below zero is about one that the host had overdrawn on the
bridge, which a strict host never does. -/
theorem Session.diagnosed_fairly (followed : (Session.start limits).follow d steps = some s)
    {diagnostic : Diagnostic} (mem : diagnostic ∈ (Session.start limits).diagnosed steps) :
    diagnostic.blame ≠ .engineDoubleFree ∧
      (∀ h, diagnostic.accused? = some h → (Session.start limits).Overdraws d steps h) ∧
        (d = .strict → diagnostic.accused? = none) := by
  have fair := Session.fair_diagnosed followed (Engine.settled_new limits) mem
  refine ⟨fair.1, fun h accused => ?_, fun strict => ?_⟩
  · exact Session.overdraws_of_misused followed rfl (fair.2 h accused)
  · subst strict
    have reached : Reached .strict limits s := Reached.start.follow followed
    cases accused : diagnostic.accused? with
    | none => rfl
    | some h =>
        have misused := fair.2 h accused
        rw [reached.misused_eq] at misused
        exact absurd misused (Finset.notMem_empty h)

/-- A host that hands its reference on a string to an object, gives another back on
the bridge, and then gives the object back. -/
def overdrawnInside : List (Action × Bool) :=
  [(.makeString "x", true), (.makePlain Value.null, true),
    (.store (.reference 1) "x" (.reference 0), true), (.relinquish (.reference 0), false),
    (.release (.reference 1), true)]

/-- The cascade finds the string at zero. -/
theorem diagnosed_fairly_overdrawnInside : ∃ s diagnostic,
    (Session.start {}).follow .plain overdrawnInside = some s ∧
      diagnostic ∈ (Session.start {}).diagnosed overdrawnInside ∧
        diagnostic.accused? = some 0 ∧ diagnostic.blame ≠ .engineDoubleFree ∧
          (Session.start {}).Overdraws .plain overdrawnInside 0 := by
  have run : ((Session.start {}).follow .plain overdrawnInside).isSome = true := by
    decide +kernel
  have found : (Session.start {}).diagnosed overdrawnInside =
      [⟨.hostOverRelease, .surplusRelease 0 ClassId.string 0⟩] := by
    decide +kernel
  obtain ⟨s, followed⟩ := Option.isSome_iff_exists.1 run
  have mem : (⟨.hostOverRelease, .surplusRelease 0 ClassId.string 0⟩ : Diagnostic) ∈
      (Session.start {}).diagnosed overdrawnInside := by
    rw [found]
    exact List.mem_cons_self
  obtain ⟨blame, overdrawn, -⟩ := Session.diagnosed_fairly followed mem
  exact ⟨s, _, followed, mem, rfl, blame, overdrawn 0 rfl⟩

end

end CountedHeap
