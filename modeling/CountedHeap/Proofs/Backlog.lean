import CountedHeap.Proofs.CleanShutdown

/-!
Diagnostics that nobody has taken yet. They stand in the engine in the order in which
they were recorded, and no operation reads them: what is recorded next comes after
them, and all else is done as if they were not there. So the report of a shutdown has
first what was not taken before, and then what the same shutdown reports of itself.
-/

namespace CountedHeap

/-- The same engine with diagnostics recorded before all others. -/
def Engine.withBacklog (ds : Array Diagnostic) (e : Engine) : Engine :=
  { e with diagnostics := ds ++ e.diagnostics }

section

variable {e : Engine} {ds : Array Diagnostic} {h : Handle} {o : Object} {v : Value}
  {c : ContextId}

theorem Engine.record_withBacklog (d : Diagnostic) :
    (e.withBacklog ds).record d = (e.record d).withBacklog ds := by
  rw [Engine.record, Engine.record, Engine.withBacklog, Engine.withBacklog, ← Array.append_push]

theorem Engine.foldl_withBacklog {α : Type} {f : Engine → α → Engine} (as : List α)
    (step : ∀ e a, f (e.withBacklog ds) a = (f e a).withBacklog ds) :
    as.foldl f (e.withBacklog ds) = (as.foldl f e).withBacklog ds := by
  induction as generalizing e with
  | nil => rfl
  | cons a rest ih => rw [List.foldl_cons, List.foldl_cons, step, ih]

/-! ### Counting -/

theorem Engine.aside_withBacklog (ds : Array Diagnostic) :
    Engine.Aside (Engine.withBacklog ds) :=
  ⟨fun _ => rfl, fun _ => rfl, fun _ _ _ => rfl, fun _ _ _ _ => rfl, fun _ _ => rfl,
    fun _ d => Engine.record_withBacklog d, fun _ => rfl⟩

theorem Engine.queueZero_withBacklog :
    (e.withBacklog ds).queueZero h = (e.queueZero h).withBacklog ds := by
  have joined : (e.withBacklog ds).join [h] = (e.join [h]).withBacklog ds := rfl
  rw [Engine.queueZero, Engine.queueZero, joined]
  have work : ((e.join [h]).withBacklog ds).work = (e.join [h]).work := rfl
  rw [work]
  split
  · rfl
  · have begun : ((e.join [h]).withBacklog ds).setDraining true =
        ((e.join [h]).setDraining true).withBacklog ds := rfl
    rw [begun, Engine.workOff_eq, (Engine.aside_withBacklog ds).drain, Engine.workOff_eq]
    rfl

theorem Engine.releaseReference_withBacklog :
    (e.withBacklog ds).releaseReference h = (e.releaseReference h).withBacklog ds := by
  rw [Engine.releaseReference, Engine.releaseReference,
    (Engine.aside_withBacklog ds).dropReference]
  rcases e.dropReference h with ⟨_ | _, e'⟩
  · rfl
  · exact Engine.queueZero_withBacklog

theorem Engine.release_withBacklog :
    (e.withBacklog ds).release v = (e.release v).withBacklog ds := by
  rw [Engine.release, Engine.release]
  split
  · exact Engine.releaseReference_withBacklog
  · rfl

theorem Engine.releaseAll_withBacklog (vs : List Value) :
    (e.withBacklog ds).releaseAll vs = (e.releaseAll vs).withBacklog ds :=
  Engine.foldl_withBacklog vs fun _ _ => Engine.release_withBacklog

/-! ### Collecting -/

theorem Engine.discard_withBacklog (entry : Handle × Object) :
    (e.withBacklog ds).discard entry = (e.discard entry).withBacklog ds := by
  rw [Engine.discard, Engine.discard, (Engine.aside_withBacklog ds).finalize]
  rfl

theorem Engine.collect_withBacklog :
    (e.withBacklog ds).collect = (e.collect.1, e.collect.2.withBacklog ds) := by
  have work : (e.withBacklog ds).work = e.work := rfl
  have heap : (e.withBacklog ds).heap = e.heap := rfl
  rw [Engine.collect, Engine.collect, work, heap]
  split
  · rfl
  · have checked : (if e.heap.hasDangling then (e.withBacklog ds).stray else e.withBacklog ds) =
        (if e.heap.hasDangling then e.stray else e).withBacklog ds := by
      split <;> rfl
    rw [checked]
    dsimp only
    generalize (if e.heap.hasDangling then e.stray else e) = e₁
    have begun : (e₁.withBacklog ds).setCollecting true =
        (e₁.setCollecting true).withBacklog ds := rfl
    rw [begun]
    generalize e₁.setCollecting true = e₂
    have same : (e₂.withBacklog ds).heap = e₂.heap := rfl
    rw [same]
    generalize e₂.heap.enlist.scan.dismiss = H
    show (H.garbage.length, (H.outgoing.foldl Engine.releaseReference (H.garbage.foldl
      Engine.discard (Engine.withBacklog ds { e₂ with heap := H }))).setCollecting false) = _
    rw [Engine.foldl_withBacklog _ fun _ _ => Engine.discard_withBacklog _,
      Engine.foldl_withBacklog _ fun _ _ => Engine.releaseReference_withBacklog]
    rfl

/-! ### Closing contexts -/

theorem Engine.releaseRegistered_withBacklog :
    (e.withBacklog ds).releaseRegistered v = (e.releaseRegistered v).withBacklog ds := by
  have live : (e.withBacklog ds).isLive v = e.isLive v := rfl
  have count : (e.withBacklog ds).countOf v = e.countOf v := rfl
  rw [Engine.releaseRegistered, Engine.releaseRegistered, live, count]
  split
  · exact Engine.release_withBacklog
  · rw [Engine.leaveBehind, Engine.leaveBehind]
    split <;> rfl

theorem Engine.vacated_withBacklog (ctx : Context) :
    (e.withBacklog ds).vacated c ctx = (e.vacated c ctx).withBacklog ds := by
  have emptied : (e.withBacklog ds).updateContext c Context.emptied =
      (e.updateContext c Context.emptied).withBacklog ds := rfl
  rw [Engine.vacated, Engine.vacated, emptied,
    Engine.foldl_withBacklog _ fun _ _ => Engine.releaseRegistered_withBacklog,
    Engine.release_withBacklog, Engine.releaseAll_withBacklog]

theorem Engine.tearDown_withBacklog :
    (e.withBacklog ds).tearDown c = (e.tearDown c).withBacklog ds := by
  have contexts : (e.withBacklog ds).contexts = e.contexts := rfl
  cases found : e.contexts[c.toNat]? with
  | none => simp only [Engine.tearDown, contexts, found]
  | some ctx =>
      by_cases hopen : ctx.isOpen = true
      · rw [Engine.tearDown_eq (contexts ▸ found) hopen, Engine.tearDown_eq found hopen,
          Engine.vacated_withBacklog]
        rfl
      · simp only [Engine.tearDown, contexts, found, if_neg hopen]

theorem Engine.closeAll_withBacklog :
    (e.withBacklog ds).closeAll = e.closeAll.withBacklog ds := by
  have same : (e.withBacklog ds).openContexts = e.openContexts := rfl
  rw [Engine.closeAll, Engine.closeAll, same]
  exact Engine.foldl_withBacklog _ fun _ _ => Engine.tearDown_withBacklog

/-! ### Shutting down -/

theorem Engine.lastCollected_withBacklog :
    (e.withBacklog ds).lastCollected = e.lastCollected.withBacklog ds := by
  rw [Engine.lastCollected, Engine.closeAll_withBacklog, Engine.collect_withBacklog]
  rfl

theorem Engine.residual_withBacklog : (e.withBacklog ds).residual = e.residual := by
  rw [Engine.residual, Engine.lastCollected_withBacklog]
  rfl

theorem Engine.reported_withBacklog :
    (e.withBacklog ds).reported = e.reported.withBacklog ds := by
  rw [Engine.reported, Engine.reported, Engine.residual_withBacklog,
    Engine.lastCollected_withBacklog]
  split
  · rfl
  · exact Engine.record_withBacklog _

theorem Engine.diagnostics_clear : e.clear.diagnostics = e.diagnostics := by
  obtain ⟨finalized, cleared⟩ := e.clear_eq
  rw [cleared]

/-- The report of a shutdown has first the diagnostics that were there before, and then
those of a shutdown before which there are none. -/
theorem Engine.diagnostics_shutdown (hopen : e.isClosed = false) :
    e.shutdown.1.diagnostics =
      e.diagnostics.toList ++ e.flushDiagnostics.2.shutdown.1.diagnostics := by
  have whole : e = e.flushDiagnostics.2.withBacklog e.diagnostics := by
    rw [Engine.flushDiagnostics, Engine.withBacklog, Array.append_empty]
  have still : e.flushDiagnostics.2.isClosed = false := hopen
  rw [Engine.shutdown_eq hopen, Engine.shutdown_eq still]
  show e.reported.clear.diagnostics.toList = e.diagnostics.toList ++
    e.flushDiagnostics.2.reported.clear.diagnostics.toList
  rw [Engine.diagnostics_clear, Engine.diagnostics_clear, ← Array.toList_append]
  refine congrArg Array.toList ?_
  calc
    e.reported.diagnostics =
        (e.flushDiagnostics.2.withBacklog e.diagnostics).reported.diagnostics := by rw [← whole]
    _ = e.diagnostics ++ e.flushDiagnostics.2.reported.diagnostics := by
      rw [Engine.reported_withBacklog, Engine.withBacklog]

end

end CountedHeap
