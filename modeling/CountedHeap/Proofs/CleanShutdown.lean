import CountedHeap.Proofs.Exactness

/-!
When a shutdown is clean. A strict host that has given everything back leaves
nothing outside the heap but the references that closed contexts did not give
back. Such a reference on a live object keeps the object for good: it is counted
and belongs to nobody, so that the last collection takes it for one from
outside. So the shutdown is clean if and only if no context, when it was closed,
left a registration of a live object behind. A context does that to the object
whose registration is the last reference on it.
-/

namespace CountedHeap

section

variable {e : Engine} {M : Finset Handle} {X : Multiset Handle} {c : ContextId}

/-! ### What closing does not touch -/

theorem Engine.isClosed_foldl_releaseRegistered (vs : List Value) :
    (vs.foldl Engine.releaseRegistered e).isClosed = e.isClosed := by
  induction vs generalizing e with
  | nil => rfl
  | cons v rest ih =>
      have step : (e.releaseRegistered v).isClosed = e.isClosed := by
        rw [Engine.releaseRegistered]
        split
        · exact isClosed_of_frame (e.frame_release v)
        · rw [Engine.leaveBehind]
          split <;> rfl
      rw [List.foldl_cons, ih, step]

theorem Engine.isClosed_tearDown : (e.tearDown c).isClosed = e.isClosed := by
  cases found : e.contexts[c.toNat]? with
  | none => simp [Engine.tearDown, found]
  | some ctx =>
      by_cases hopen : ctx.isOpen = true
      · rw [Engine.tearDown_eq found hopen]
        show (e.vacated c ctx).isClosed = _
        rw [Engine.vacated, isClosed_of_frame (Engine.frame_releaseAll _ _),
          isClosed_of_frame (Engine.frame_release _ _), Engine.isClosed_foldl_releaseRegistered]
        rfl
      · simp [Engine.tearDown, found, hopen]

theorem Engine.isClosed_closeAll : e.closeAll.isClosed = e.isClosed := by
  rw [Engine.closeAll]
  generalize e.openContexts = cs
  induction cs generalizing e with
  | nil => rfl
  | cons c rest ih => rw [List.foldl_cons, ih, Engine.isClosed_tearDown]

/-! ### What is left at the end -/

theorem Engine.residual_eq_nil_iff :
    e.residual = [] ↔ ∀ k, e.lastCollected.heap.isLive k = false := by
  rw [Engine.residual, List.map_eq_nil_iff, List.eq_nil_iff_forall_not_mem]
  constructor
  · intro none k
    rw [Bool.eq_false_iff]
    intro live
    obtain ⟨o, slot⟩ := Heap.isLive_iff.1 live
    exact none (k, o) (Heap.mem_listed.2 slot)
  · rintro none ⟨k, o⟩ mem
    have live := Heap.isLive_iff.2 ⟨o, Heap.mem_listed.1 mem⟩
    rw [none k] at live
    exact Bool.noConfusion live

theorem Engine.leftovers_shutdown (hopen : e.isClosed = false) :
    e.shutdown.2.leftovers = e.closeAll.leftovers := by
  obtain ⟨finalized, cleared⟩ := e.reported.clear_eq
  have collected : e.lastCollected.leftovers = e.closeAll.leftovers :=
    leftovers_of_frame (Engine.frame_collect _)
  rw [Engine.shutdown_eq hopen, cleared]
  show e.reported.leftovers = _
  rw [Engine.reported]
  split
  · exact collected
  · exact collected

/-- Every object of which a registration was left behind is live after the last
collection if it was live then. -/
theorem Engine.Settled.wasLive_of_clean (hs : e.Settled ∅ X) (hopen : e.isClosed = false)
    (clean : e.residual = []) : ∀ r ∈ e.closeAll.leftovers, r.wasLive = false := by
  intro r hr
  have collected : e.lastCollected.Settled ∅ X := hs.closeAll.collect
  have same : e.lastCollected.frame = e.closeAll.frame := Engine.frame_collect _
  have still : e.lastCollected.isClosed = false := by
    rw [isClosed_of_frame same, Engine.isClosed_closeAll, hopen]
  rw [← leftovers_of_frame same] at hr
  rw [← collected.blameless.kept still r hr (Finset.notMem_empty _)]
  exact Engine.residual_eq_nil_iff.1 clean r.target

/-- Where nobody outside owns anything, and no context is out of reach, what stays is
owned by the registrations that were left behind. -/
theorem Engine.Settled.not_kept_closeAll (hs : e.Settled ∅ 0) (hopen : e.isClosed = false)
    (few : e.contexts.size ≤ 0x100000000)
    (gone : ∀ r ∈ e.closeAll.leftovers, r.wasLive = false) (k : Handle) :
    ¬ e.closeAll.heap.Kept k := by
  intro kept
  have closed : e.closeAll.Settled ∅ 0 := hs.closeAll
  induction kept with
  | @seed h o slot owned =>
      have exact := closed.owned.exact h o (Heap.object?_of_live slot) (Finset.notMem_empty h)
      rw [Engine.references, Engine.anchors_closeAll hs.blameless.addressed few] at exact
      simp only [zero_add, add_zero, Multiset.count_add] at exact
      -- No context is open and nobody outside owns it, so only what was left behind does.
      have left : h ∈ e.closeAll.abandoned := Multiset.count_pos.1 (by omega)
      obtain ⟨r, hr, rfl⟩ := Engine.mem_abandoned.1 left
      have still : e.closeAll.isClosed = false := Engine.isClosed_closeAll.trans hopen
      have live := closed.blameless.kept still r hr (Finset.notMem_empty _)
      rw [gone r hr, Heap.isLive, slot] at live
      exact Bool.noConfusion live
  | child _ _ _ ih => exact ih

theorem Engine.Settled.residual_eq_nil (hs : e.Settled ∅ 0) (hopen : e.isClosed = false)
    (few : e.contexts.size ≤ 0x100000000)
    (gone : ∀ r ∈ e.closeAll.leftovers, r.wasLive = false) : e.residual = [] := by
  refine Engine.residual_eq_nil_iff.2 fun k => ?_
  rw [Bool.eq_false_iff]
  intro live
  exact hs.not_kept_closeAll hopen few gone k (hs.closeAll.isLive_collect.1 live)

/-- A shutdown that leaves nothing has nothing to put down to the host. -/
theorem Engine.Settled.blame_shutdown (hs : e.Settled M X) (hopen : e.isClosed = false)
    (clean : e.residual = []) : ∀ d ∈ e.shutdown.1.diagnostics, d.blame ≠ .externalHold := by
  obtain ⟨finalized, cleared⟩ := e.reported.clear_eq
  have collected : e.lastCollected.Settled M X := hs.closeAll.collect
  have reported : e.reported = e.lastCollected := by
    rw [Engine.reported, clean]
    rfl
  intro d hd
  rw [Engine.shutdown_eq hopen, cleared, reported] at hd
  exact (collected.blameless.excused d (Array.mem_toList_iff.1 hd)).2.1

end

/-! ### Runs of a strict host -/

section

variable {limits : Limits} {s : Session}

/-- The shutdown after a run of a strict host that has given everything back, with an
id for each of its contexts, is clean if and only if no context that was closed, before
or in the shutdown, left a registration of a live object behind. -/
theorem Reached.clean_shutdown_iff (reached : Reached .strict limits s)
    (hopen : s.engine.isClosed = false) (even : s.ledger = 0)
    (few : s.engine.contexts.size ≤ 0x100000000) :
    (s.engine.shutdown.1.residual = [] ∧
        ∀ d ∈ s.engine.shutdown.1.diagnostics, d.blame ≠ .externalHold) ↔
      ∀ r ∈ s.engine.shutdown.2.leftovers, r.wasLive = false := by
  have hs : s.engine.Settled ∅ 0 := even ▸ reached.settled_strict
  have residual : s.engine.shutdown.1.residual = s.engine.residual := by
    rw [Engine.shutdown_eq hopen]
  rw [Engine.leftovers_shutdown hopen, residual]
  constructor
  · rintro ⟨clean, -⟩
    exact hs.wasLive_of_clean hopen clean
  · intro gone
    have clean := hs.residual_eq_nil hopen few gone
    exact ⟨clean, hs.blame_shutdown hopen clean⟩

/-- A host that registers a string on a context and stores it in the global
object of that context too. -/
def registeredAndStored : List (Action × Bool) :=
  [(.openContext 0, true), (.makeString "x", true), (.register 0 (.reference 7), true),
    (.globalOf 0, true), (.store (.reference 6) "k" (.reference 7), true),
    (.release (.reference 6), true)]

/-- The registration is given back when the context is closed, and the string
goes with the global object. -/
theorem clean_shutdown_registeredAndStored : ∃ s, Reached .strict {} s ∧
    s.engine.isClosed = false ∧ s.ledger = 0 ∧ s.engine.heap.isLive 7 = true ∧
      s.engine.shutdown.1.residual = [] := by
  have run : ((Session.start {}).follow .strict registeredAndStored).any (fun s =>
      decide (s.engine.isClosed = false ∧ s.ledger = 0 ∧
        s.engine.contexts.size ≤ 0x100000000 ∧ s.engine.heap.isLive 7 = true ∧
        ∀ r ∈ s.engine.shutdown.2.leftovers.toList, r.wasLive = false)) = true := by
    decide +kernel
  obtain ⟨s, followed, facts⟩ := (Option.any_eq_true _ _).1 run
  obtain ⟨hopen, even, few, live, gone⟩ := of_decide_eq_true facts
  have reached : Reached .strict {} s := Reached.start.follow followed
  have clean := (reached.clean_shutdown_iff hopen even few).2 fun r hr =>
    gone r (Array.mem_toList_iff.2 hr)
  exact ⟨s, reached, hopen, even, live, clean.1⟩

/-- A host that registers a string on a context and gives its own reference back. -/
def registeredOnly : List (Action × Bool) :=
  [(.openContext 0, true), (.makeString "x", true), (.register 0 (.reference 7), true),
    (.release (.reference 7), true)]

/-- The registration is the last reference on the string, so the closing context
leaves it behind and the string is still there after the shutdown. -/
theorem not_clean_registeredOnly : ¬ ∀ s, Reached .strict {} s → s.engine.isClosed = false →
    s.ledger = 0 → s.engine.shutdown.1.residual = [] ∧
      ∀ d ∈ s.engine.shutdown.1.diagnostics, d.blame ≠ .externalHold := by
  intro clean
  have run : ((Session.start {}).follow .strict registeredOnly).any (fun s =>
      decide (s.engine.isClosed = false ∧ s.ledger = 0 ∧
        s.engine.shutdown.1.residual ≠ [])) = true := by
    decide +kernel
  obtain ⟨s, followed, facts⟩ := (Option.any_eq_true _ _).1 run
  obtain ⟨hopen, even, left⟩ := of_decide_eq_true facts
  exact left (clean s (Reached.start.follow followed) hopen even).1

end

end CountedHeap
