import CountedHeap.Proofs.Backlog
import CountedHeap.Proofs.ContextLife
import CountedHeap.Proofs.Rollback

/-!
A shutdown is complete, and it is the end. Whatever the host has done before, with
objects that it gave back too often, cycles that nobody owns and registrations that
contexts leave behind, no object and no header is there after it, nothing is charged
for and every context is freed. Its report counts the contexts that were active and
the headers that were parked when everything else was gone, and has all diagnostics
that nobody had taken.

An engine that is closed is never open again, and there is nothing left in it to
change. So no request makes an object, finalizes one or opens a context any more, and
a further shutdown has nothing to report.
-/

namespace CountedHeap

/-- An engine in which nothing is left. -/
structure Engine.Cleared (e : Engine) : Prop where
  isClosed : e.isClosed = true
  slot : ∀ h, e.heap.slot h = .reclaimed
  liveCount : e.heap.liveCount = 0
  parkedCount : e.heap.parkedCount = 0
  bytes : e.heap.bytes = 0
  freed : ∀ ctx ∈ e.contexts, ctx.phase = .freed

section

variable {e e' : Engine} {a : Action} {k : Nat} {ctx : Context}

/-! ### Contexts between two operations -/

/-- Between two operations every context is active or freed, and those that an id leads to
are freed in an engine that is closed. -/
structure Engine.Orderly (e : Engine) : Prop where
  between : ∀ (p : Nat) (ctx : Context), e.contexts[p]? = some ctx →
    ctx.phase = .active ∨ ctx.phase = .freed
  addressed : Addressed e.contexts e.isClosed

theorem Context.phase_share : ctx.share.phase = ctx.phase := by
  rw [Context.share]
  split <;> rfl

theorem Context.phase_register {v : Value} : (ctx.register v).phase = ctx.phase := by
  rw [Context.register]
  split <;> rfl

theorem Context.phase_unregister {v : Value} : (ctx.unregister v).phase = ctx.phase := by
  rw [Context.unregister]
  split
  · split <;> rfl
  · rfl

/-- A request leaves an active context active, unless it closes it. -/
theorem Action.phase_onContext {closes : Bool} (active : ctx.phase = .active) :
    (a.onContext closes k ctx).phase = .active ∨ (a.onContext closes k ctx).phase = .freed := by
  cases a with
  | shareContext c =>
      refine .inl ?_
      show Context.phase (if c.toNat = k then ctx.share else ctx) = _
      split
      · exact Context.phase_share.trans active
      · exact active
  | leaveContext c =>
      show Context.phase (if c.toNat = k then ctx.leave else ctx) = _ ∨
        Context.phase (if c.toNat = k then ctx.leave else ctx) = _
      split
      · rw [Context.leave, if_pos active]
        split
        · exact .inl active
        · exact .inr rfl
      · exact .inl active
  | register c v =>
      refine .inl ?_
      show Context.phase (if c.toNat = k then ctx.register v else ctx) = _
      split
      · exact Context.phase_register.trans active
      · exact active
  | unregister c v =>
      refine .inl ?_
      show Context.phase (if c.toNat = k then ctx.unregister v else ctx) = _
      split
      · exact Context.phase_unregister.trans active
      · exact active
  | shutdown =>
      show Context.phase (if closes then ctx.shut else ctx) = _ ∨
        Context.phase (if closes then ctx.shut else ctx) = _
      split
      · exact .inr (Context.phase_of_isOpen ctx.isOpen_shut)
      · exact .inl active
  | _ => exact .inl active

theorem Engine.orderly_new (limits : Limits) : (Engine.new limits).Orderly := by
  refine ⟨fun p ctx found => ?_, .empty⟩
  have absent : (Engine.new limits).contexts[p]? = none := rfl
  rw [absent] at found
  cases found

theorem Engine.Orderly.perform (orderly : e.Orderly) (a : Action) :
    (e.perform a).2.Orderly := by
  refine ⟨fun p ctx found => ?_, orderly.addressed.perform a⟩
  obtain ⟨old, before, rfl⟩ | ⟨-, -, global, prototypes, slots, -, rfl⟩ :=
    (e.moved_perform a).context_cases found
  · rcases orderly.between p old before with active | freed
    · exact Action.phase_onContext active
    · rw [Action.onContext_of_freed freed]
      exact .inr freed
  · exact .inl rfl

theorem Engine.Orderly.freed (orderly : e.Orderly) (few : e.contexts.size ≤ 0x100000000)
    (closed : e.isClosed = true) : ∀ ctx ∈ e.contexts, ctx.phase = .freed := by
  intro ctx mem
  obtain ⟨c, found⟩ := exists_id_of_mem mem few
  exact Context.phase_of_isOpen (orderly.addressed.shut closed c ctx found)

/-- No context is opened in an engine that is closed. -/
theorem Engine.size_contexts_of_closed (closed : (e.perform a).2.isClosed = true) :
    (e.perform a).2.contexts.size = e.contexts.size := by
  obtain ⟨-, size⟩ | ⟨-, hopen, -⟩ := (e.moved_perform a).opened
  · exact size
  · rw [closed] at hopen
    cases hopen

/-! ### Nothing left -/

theorem Heap.object?_of_reclaimed {H : Heap} {h : Handle} (slot : H.slot h = .reclaimed) :
    H.object? h = none := by
  rw [Heap.object?, slot]
  rfl

theorem Heap.listed_eq_nil {H : Heap} (empty : ∀ k, H.isLive k = false) : H.listed = [] := by
  rw [List.eq_nil_iff_forall_not_mem]
  rintro ⟨k, o⟩ mem
  have live := Heap.isLive_iff.2 ⟨o, Heap.mem_listed.1 mem⟩
  rw [empty k] at live
  cases live

theorem Heap.isLive_of_reclaimed {H : Heap} (empty : ∀ k, H.slot k = .reclaimed) (k : Handle) :
    H.isLive k = false := by
  rw [Heap.isLive, empty k]
  rfl

theorem Heap.slot_update_of_reclaimed {H : Heap} (empty : ∀ k, H.slot k = .reclaimed)
    (h : Handle) (f : Object → Object) (k : Handle) : (H.update h f).slot k = .reclaimed := by
  rw [Heap.slot_update, empty k]
  exact ite_self _

/-- A change to an engine that is closed and has nothing left in it changes nothing of
that, makes nothing and finalizes nothing. -/
theorem Engine.Change.idle {C : Set Handle} {K : Prop} (change : Engine.Change C K e e')
    (closed : e.isClosed = true) (empty : ∀ k, e.heap.slot k = .reclaimed) :
    e'.isClosed = true ∧ (∀ k, e'.heap.slot k = .reclaimed) ∧ e'.made = e.made ∧
      e'.finalized = e.finalized := by
  have absent {h : Handle} {o : Object} (found : e.heap.object? h = some o) : False := by
    rw [Heap.object?_of_reclaimed (empty h)] at found
    cases found
  cases change with
  | aside heap made finalized finalizers isClosed =>
      exact ⟨isClosed.trans closed, heap ▸ empty, made, finalized⟩
  | recount h g => exact ⟨closed, Heap.slot_update_of_reclaimed empty _ _, rfl, rfl⟩
  | claim mem g => exact ⟨closed, Heap.slot_update_of_reclaimed empty _ _, rfl, rfl⟩
  | lengthen found bare size => exact (absent found).elim
  | shorten found bare size => exact (absent found).elim
  | dispose h =>
      rw [Engine.dispose, Heap.object?_of_reclaimed (empty h)]
      exact ⟨closed, empty, rfl, rfl⟩
  | sweep =>
      have tidy : e.heap.Tidy := fun k => by
        rw [empty k]
        trivial
      obtain ⟨S, result⟩ := Engine.sweep_eq tidy
      have none : (e.heap.stain S).garbage = [] := by
        rw [Heap.garbage, Heap.listed_eq_nil, List.filter_nil]
        intro k
        rw [Heap.isLive, Heap.slot_stain, empty k]
        rfl
      have swept : e.swept S = { e with heap := e.heap.stain S } := by
        rw [Engine.swept, none, List.foldl_nil]
      rw [result, swept]
      refine ⟨closed, fun k => ?_, rfl, rfl⟩
      show (e.heap.stain S).slot k = _
      rw [Heap.slot_stain, empty k]
      rfl
  | place hopen fits =>
      rw [closed] at hopen
      cases hopen
  | close closing =>
      refine ⟨rfl, fun k => ?_, ?_, ?_⟩
      · rw [Engine.heap_close, Heap.slot_clear]
      · obtain ⟨finalized, cleared⟩ := e.clear_eq
        rw [cleared]
      · show e.clear.finalized = _
        rw [Engine.clear, Heap.listed_eq_nil (Heap.isLive_of_reclaimed empty), List.foldl_nil]

/-- In a closed engine nothing is left. -/
def Engine.Over (e : Engine) : Prop :=
  e.isClosed = true → ∀ k, e.heap.slot k = .reclaimed

theorem Engine.Change.finished {C : Set Handle} {K : Prop} (change : Engine.Change C K e e')
    (finished : e.Over) : e'.Over := by
  intro closed k
  by_cases before : e.isClosed = true
  · exact (change.idle before (finished before)).2.1 k
  · cases change with
    | close closing => rw [Engine.heap_close, Heap.slot_clear]
    | aside heap made finalized finalizers isClosed => exact absurd (isClosed ▸ closed) before
    | recount h g => exact absurd closed before
    | claim mem g => exact absurd closed before
    | lengthen found bare size => exact absurd closed before
    | shorten found bare size => exact absurd closed before
    | dispose h => exact absurd (isClosed_of_frame (e.frame_dispose h) ▸ closed) before
    | sweep =>
        have same : e.sweep.isClosed = e.isClosed :=
          isClosed_of_frame (Engine.frame_foldl_discard _ _)
        exact absurd (same ▸ closed) before
    | place hopen fits => exact absurd closed before

theorem Heap.total_of_reclaimed {H : Heap} {g : Slot → Nat} (none : g .reclaimed = 0)
    (empty : ∀ k, H.slot k = .reclaimed) : H.total g = 0 := by
  rw [Heap.total]
  refine List.sum_eq_zero fun n mem => ?_
  obtain ⟨s, held, rfl⟩ := List.mem_map.1 mem
  obtain ⟨k, found⟩ := List.getElem?_of_mem held
  have slot := empty k
  rw [Heap.slot, Array.getD_eq_getD_getElem?, ← Array.getElem?_toList, found] at slot
  rw [Option.getD_some] at slot
  rw [slot, none]

/-- A closed engine of which the books are right is cleared. -/
theorem Engine.Over.cleared (finished : e.Over) (orderly : e.Orderly)
    (few : e.contexts.size ≤ 0x100000000) (booked : e.heap.Booked 0)
    (closed : e.isClosed = true) : e.Cleared where
  isClosed := closed
  slot := finished closed
  liveCount := by
    rw [booked.liveCount]
    exact Heap.total_of_reclaimed rfl (finished closed)
  parkedCount := by
    rw [booked.parkedCount]
    exact Heap.total_of_reclaimed rfl (finished closed)
  bytes := by
    rw [booked.bytes]
    exact Heap.total_of_reclaimed rfl (finished closed)
  freed := orderly.freed few closed

/-- What is true of every engine between two operations. -/
structure Engine.Regular (e : Engine) : Prop where
  tidy : e.heap.Tidy
  booked : e.heap.Booked 0
  orderly : e.Orderly
  finished : e.Over

theorem Engine.regular_new (limits : Limits) : (Engine.new limits).Regular :=
  ⟨fun _ => trivial, Engine.booked_new limits, Engine.orderly_new limits,
    fun closed => Bool.noConfusion closed⟩

theorem Engine.Regular.perform (regular : e.Regular) (a : Action) :
    (e.perform a).2.Regular := by
  obtain ⟨tidy, booked⟩ := Engine.booked_perform regular.tidy regular.booked a
  have finished := Engine.perform_keep (P := Engine.Over)
    (fun change before => change.finished before) (fun e finalizers before => before) e a
    regular.finished
  exact ⟨tidy, booked, regular.orderly.perform a, finished⟩

theorem Engine.Regular.cleared (regular : e.Regular) (few : e.contexts.size ≤ 0x100000000)
    (closed : e.isClosed = true) : e.Cleared :=
  regular.finished.cleared regular.orderly few regular.booked closed

/-! ### After the end -/

/-- No request brings anything back into an engine that is closed. -/
theorem Engine.Regular.after (regular : e.Regular) (closed : e.isClosed = true) (a : Action) :
    (e.perform a).2.isClosed = true ∧ (e.perform a).2.made = e.made ∧
      (e.perform a).2.finalized = e.finalized := by
  have kept := Engine.perform_keep
    (P := fun e' => e'.isClosed = true ∧ (∀ k, e'.heap.slot k = .reclaimed) ∧
      e'.made = e.made ∧ e'.finalized = e.finalized)
    (fun change holds => by
      obtain ⟨closed, empty, made, finalized⟩ := holds
      obtain ⟨closed', empty', made', finalized'⟩ := change.idle closed empty
      exact ⟨closed', empty', made'.trans made, finalized'.trans finalized⟩)
    (fun e finalizers holds => holds) e a ⟨closed, regular.finished closed, rfl, rfl⟩
  exact ⟨kept.1, kept.2.2.1, kept.2.2.2⟩

/-- What a run leaves of an engine that was closed before it. -/
structure Engine.Unmoved (e e' : Engine) : Prop where
  cleared : e'.Cleared
  made : e'.made = e.made
  finalized : e'.finalized = e.finalized
  report : e'.shutdown.1 = {}

theorem Engine.Regular.ended (regular : e.Regular) (few : e.contexts.size ≤ 0x100000000)
    (closed : e.isClosed = true) (later : List Action) : e.Unmoved (e.run later).2 := by
  induction later generalizing e with
  | nil =>
      refine ⟨regular.cleared few closed, rfl, rfl, ?_⟩
      show e.shutdown.1 = {}
      rw [Engine.shutdown, if_pos closed]
  | cons a rest ih =>
      obtain ⟨closed', made, finalized⟩ := regular.after closed a
      have size := Engine.size_contexts_of_closed closed'
      have ended := ih (regular.perform a) (size.trans_le few) closed'
      exact ⟨ended.cleared, ended.made.trans made, ended.finalized.trans finalized, ended.report⟩

/-! ### The report -/

/-- The contexts that a shutdown closes are those that are active. -/
theorem Engine.Orderly.length_openContexts (orderly : e.Orderly) :
    e.openContexts.length = e.contexts.countP fun ctx => decide (ctx.phase = .active) := by
  rw [Engine.openContexts, List.length_map, ← List.countP_eq_length_filter, ← Array.countP_toList]
  refine List.countP_congr fun ctx mem => ?_
  obtain ⟨p, found⟩ := Array.getElem?_of_mem (Array.mem_toList_iff.1 mem)
  rcases orderly.between p ctx found with active | freed
  · rw [Context.isOpen_of_active active, active]
    simp
  · rw [Context.isOpen_of_freed freed, freed]
    simp

theorem Engine.heap_reported : e.reported.heap = e.lastCollected.heap := by
  rw [Engine.reported]
  split <;> rfl

/-- What the report of a shutdown says. The headers that were parked are counted after
the last collection, when all contexts are closed. -/
structure Engine.Reports (e : Engine) (r : FinalReport) : Prop where
  contextsClosed : r.contextsClosed = e.contexts.countP fun ctx => decide (ctx.phase = .active)
  parkedReclaimed : r.parkedReclaimed = e.lastCollected.heap.slots.countP Slot.isParked
  diagnostics : r.diagnostics =
    e.diagnostics.toList ++ e.flushDiagnostics.2.shutdown.1.diagnostics

theorem Engine.Regular.lastCollected (regular : e.Regular) :
    e.lastCollected.heap.Booked 0 := by
  have moves : Engine.Moves ∅ False e e.lastCollected :=
    ((Engine.turns_foldl _ fun _ _ => Engine.turns_tearDown).trans
      Engine.Turn.collect.single).moves
  exact moves.booked regular.tidy regular.booked

theorem Engine.Regular.reports (regular : e.Regular) (hopen : e.isClosed = false) :
    e.Reports e.shutdown.1 where
  contextsClosed := by
    rw [Engine.shutdown_eq hopen]
    exact regular.orderly.length_openContexts
  parkedReclaimed := by
    rw [Engine.shutdown_eq hopen]
    show e.reported.heap.parkedCount = _
    rw [Engine.heap_reported]
    exact regular.lastCollected.accounted.parkedCount
  diagnostics := Engine.diagnostics_shutdown hopen

end

/-! ### Runs -/

section

variable {d : Discipline} {limits : Limits} {s : Session}

theorem Reached.regular (reached : Reached d limits s) : s.engine.Regular := by
  induction reached with
  | start => exact Engine.regular_new limits
  | step a booked before allowed range ih => exact ih.perform a

/-- A shutdown clears the engine, whatever the host has done. If the engine was not
closed before, its report counts what was there and gives all diagnostics that were not
taken, and if it was, the report is empty. Whatever is asked of the engine later, it
stays cleared: nothing is made, nothing is finalized and nothing is reported again. The
host has opened no more contexts than there are ids, so that a shutdown closes all. -/
theorem Reached.shutdown_final (reached : Reached d limits s)
    (few : s.engine.contexts.size ≤ 0x100000000) :
    s.engine.shutdown.2.Cleared ∧
      (s.engine.isClosed = false → s.engine.Reports s.engine.shutdown.1) ∧
      (s.engine.isClosed = true → s.engine.shutdown.1 = {}) ∧
      ∀ later, s.engine.shutdown.2.Unmoved (s.engine.shutdown.2.run later).2 := by
  have regular := reached.regular
  have after : s.engine.shutdown.2.Regular := regular.perform .shutdown
  have closed : s.engine.shutdown.2.isClosed = true := Engine.isClosed_shutdown
  have size : s.engine.shutdown.2.contexts.size = s.engine.contexts.size :=
    Engine.size_contexts_of_closed (a := .shutdown) closed
  refine ⟨after.cleared (size.trans_le few) closed, regular.reports, fun already => ?_,
    after.ended (size.trans_le few) closed⟩
  rw [Engine.shutdown, if_pos already]

/-- A host that drops a cycle of two objects, gives a string back on the bridge once more
than it may, shares a context that is not there, and holds another string to the end. -/
def leftInDisorder : List (Action × Bool) :=
  [(.openContext 0, true), (.makePlain Value.null, true), (.makePlain Value.null, true),
    (.store (.reference 7) "a" (.reference 8), true), (.fetch (.reference 7) "a", true),
    (.retain (.reference 7), true), (.store (.reference 8) "b" (.reference 7), true),
    (.release (.reference 7), true), (.release (.reference 8), true),
    (.makeString "x", true), (.relinquish (.reference 9), false),
    (.relinquish (.reference 9), false), (.shareContext 3, true),
    (.makeString "y", true)]

/-- The context is closed, the cycle collected and the header of the first string reclaimed.
What the host did is in the report, then the string that is still held, and nothing that
is asked later comes to anything. -/
theorem shutdown_final_leftInDisorder : ∃ s, Reached .plain {} s ∧
    s.engine.heap.liveCount = 10 ∧ s.engine.heap.parkedCount = 1 ∧
      s.engine.shutdown.1.contextsClosed = 1 ∧ s.engine.shutdown.1.parkedReclaimed = 1 ∧
      s.engine.shutdown.1.diagnostics.map (·.blame) =
        [.hostOverRelease, .staleContext, .externalHold] ∧
      s.engine.shutdown.2.Cleared ∧
      (s.engine.shutdown.2.run [.openContext 0, .makeString "z", .shutdown]).2.Cleared := by
  have run : ((Session.start {}).follow .plain leftInDisorder).any (fun s =>
      decide (s.engine.contexts.size ≤ 0x100000000 ∧ s.engine.isClosed = false ∧
        s.engine.heap.liveCount = 10 ∧ s.engine.heap.parkedCount = 1 ∧
        (s.engine.contexts.countP fun ctx => decide (ctx.phase = .active)) = 1 ∧
        s.engine.lastCollected.heap.slots.countP Slot.isParked = 1 ∧
        (s.engine.diagnostics.toList ++
          s.engine.flushDiagnostics.2.shutdown.1.diagnostics).map (·.blame) =
            [.hostOverRelease, .staleContext, .externalHold])) = true := by
    decide +kernel
  obtain ⟨s, followed, facts⟩ := (Option.any_eq_true _ _).1 run
  obtain ⟨few, hopen, live, parked, active, left, blame⟩ := of_decide_eq_true facts
  have reached : Reached .plain {} s := Reached.start.follow followed
  obtain ⟨cleared, reports, -, later⟩ := reached.shutdown_final few
  have report := reports hopen
  refine ⟨s, reached, live, parked, ?_, ?_, ?_, cleared, (later _).cleared⟩
  · rw [report.contextsClosed, active]
  · rw [report.parkedReclaimed, left]
  · rw [report.diagnostics, blame]

end

end CountedHeap
