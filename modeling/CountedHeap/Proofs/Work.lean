import CountedHeap.Engine.Action

/-!
Work under way. A cascade keeps its queue in the engine and says there that it is
working it off, and a collection says so too; whoever gives a reference back
meanwhile only joins the queue. Nothing else reads these notes. So an operation on
a rested engine does what it would do with a queue of its own, and the notes are
as before when it is done. The rest of the theory works with that queue.

What such work has to do with the rest of an engine is said here once for all: which
parts it neither reads nor writes, and which relations between the engine before it and
the one after it come down to its single steps.
-/

namespace CountedHeap

/-- Nothing waits for its end, and nobody is seeing to it. -/
def Engine.Rested (e : Engine) : Prop :=
  e.work.waiting = [] ∧ e.work.draining = false

/-- Works off a queue of objects that have lost their last reference, together
with all that lose theirs on the way. -/
def Engine.drain (e : Engine) (queue : List Handle) : Engine :=
  match queue with
  | [] => e
  | h :: rest =>
    match _step : e.dispose h with
    | (zeroed, e') => e'.drain (enqueue rest zeroed)
termination_by e.heap.countedHeaders + queue.length
decreasing_by
  have bound := e.countedHeaders_dispose h
  simp only [_step, enqueue_eq_append, List.length_append, List.length_cons] at *
  omega

section

variable {e : Engine} {w : Work} {h : Handle} {o : Object}

theorem Engine.drain_nil (e : Engine) : e.drain [] = e := by
  rw [Engine.drain]

theorem Engine.drain_cons (e : Engine) (h : Handle) (rest : List Handle) :
    e.drain (h :: rest) = (e.dispose h).2.drain (rest ++ (e.dispose h).1) := by
  rw [Engine.drain]
  split
  rename_i step
  rw [step, enqueue_eq_append]

/-! ### What is put aside -/

/-- `φ` changes an engine in something that giving back references leaves aside: it
changes no header, and what is done to headers and what is noted can be done before it
or after it. -/
structure Engine.Aside (φ : Engine → Engine) : Prop where
  heap : ∀ e, (φ e).heap = e.heap
  finalizers : ∀ e, (φ e).finalizers = e.finalizers
  updateObject : ∀ e h f, (φ e).updateObject h f = φ (e.updateObject h f)
  retire : ∀ e h size park, (φ e).retire h size park = φ (e.retire h size park)
  finalized : ∀ e f, { φ e with finalized := (φ e).finalized.push f } =
    φ { e with finalized := e.finalized.push f }
  record : ∀ e d, (φ e).record d = φ (e.record d)
  stray : ∀ e, (φ e).stray = φ e.stray

section

variable {φ : Engine → Engine}

theorem Engine.Aside.finalize (aside : Engine.Aside φ) (e : Engine) :
    (φ e).finalize h o = φ (e.finalize h o) := by
  rw [Engine.finalize, Engine.finalize]
  split
  · split
    · exact (aside.finalized e _).trans (by rw [aside.finalizers])
    · rfl
  · rfl

theorem Engine.Aside.dropReference (aside : Engine.Aside φ) (e : Engine) :
    (φ e).dropReference h = ((e.dropReference h).1, φ (e.dropReference h).2) := by
  rw [Engine.dropReference, Engine.dropReference, aside.heap]
  split
  · split
    · exact congrArg (Prod.mk _) (aside.updateObject e h _)
    · exact congrArg (Prod.mk _) (aside.record e _)
  · exact congrArg (Prod.mk _) (aside.stray e)

theorem Engine.Aside.dropAll (aside : Engine.Aside φ) (e : Engine) (found hs : List Handle) :
    (φ e).dropAll found hs = ((e.dropAll found hs).1, φ (e.dropAll found hs).2) := by
  induction hs generalizing e found with
  | nil => rfl
  | cons h rest ih =>
      rw [Engine.dropAll, Engine.dropAll, aside.dropReference]
      rcases e.dropReference h with ⟨_ | _, e'⟩ <;> exact ih e' _

theorem Engine.Aside.dispose (aside : Engine.Aside φ) (e : Engine) :
    (φ e).dispose h = ((e.dispose h).1, φ (e.dispose h).2) := by
  rw [Engine.dispose, Engine.dispose, aside.heap]
  split
  · split
    · rfl
    · rw [aside.updateObject, aside.finalize, aside.dropAll]
      exact congrArg (Prod.mk _) (aside.retire _ h _ _)
  · exact congrArg (Prod.mk _) (aside.stray e)

theorem Engine.Aside.drain (aside : Engine.Aside φ) (e : Engine) (queue : List Handle) :
    (φ e).drain queue = φ (e.drain queue) := by
  fun_induction Engine.drain e queue with
  | case1 e => rw [Engine.drain_nil]
  | case2 e h rest zeroed e' step ih =>
      rw [Engine.drain_cons, aside.dispose, step, ← ih, enqueue_eq_append]

end

/-! ### In the middle of other work -/

theorem Engine.aside_doing (w : Work) : Engine.Aside (Engine.doing · w) :=
  ⟨fun _ => rfl, fun _ => rfl, fun _ _ _ => rfl, fun _ _ _ _ => rfl, fun _ _ => rfl,
    fun _ _ => rfl, fun _ => rfl⟩

theorem Engine.drain_doing (queue : List Handle) :
    (e.doing w).drain queue = (e.drain queue).doing w :=
  (Engine.aside_doing w).drain e queue

theorem Engine.work_drain (e : Engine) (queue : List Handle) : (e.drain queue).work = e.work := by
  have same : e.drain queue = (e.drain queue).doing e.work := Engine.drain_doing queue
  rw [same]
  rfl

/-! ### The queue of the engine -/

/-- Working off the queue of the engine empties it. -/
theorem Engine.workOff_eq (e : Engine) : e.workOff =
    (e.drain e.work.waiting).doing { e.work with waiting := [] } := by
  fun_induction Engine.workOff e with
  | case1 e queue =>
      rw [queue, Engine.drain_nil, ← queue]
      rfl
  | case2 e h rest queue zeroed e' step ih =>
      rw [(Engine.aside_doing _).dispose, Prod.mk.injEq] at step
      obtain ⟨rfl, rfl⟩ := step
      rw [ih, queue, Engine.drain_cons, ← enqueue_eq_append]
      simp only [Engine.join, Engine.drain_doing]
      rfl

theorem Engine.doing_work (e : Engine) : e.doing e.work = e := rfl

theorem Engine.queueZero_eq (rested : e.Rested) : e.queueZero h = e.drain [h] := by
  obtain ⟨waiting, draining⟩ := rested
  have before : e.work = ⟨[], false, e.work.collecting⟩ := by
    rw [← waiting, ← draining]
  have joined : e.join [h] = e.doing ⟨[h], false, e.work.collecting⟩ := by
    rw [Engine.join, before]
    rfl
  have worked : (e.doing ⟨[h], true, e.work.collecting⟩).workOff =
      (e.drain [h]).doing ⟨[], true, e.work.collecting⟩ := by
    have drained : (e.doing ⟨[h], true, e.work.collecting⟩).drain [h] = _ := Engine.drain_doing [h]
    rw [Engine.workOff_eq]
    show ((e.doing ⟨[h], true, e.work.collecting⟩).drain [h]).doing _ = _
    rw [drained]
    rfl
  rw [Engine.queueZero, joined]
  show ((e.doing ⟨[h], true, e.work.collecting⟩).workOff).setDraining false = _
  rw [worked]
  show (e.drain [h]).doing ⟨[], false, e.work.collecting⟩ = _
  rw [← before, ← Engine.work_drain e [h], Engine.doing_work]

theorem Engine.rested_of_idle (idle : e.work = {}) : e.Rested := by
  rw [Engine.Rested, idle]
  exact ⟨rfl, rfl⟩

/-- Giving back a reference on an engine that rests. -/
theorem Engine.releaseReference_of_rested (rested : e.Rested) : e.releaseReference h =
    match e.dropReference h with
    | (true, e') => e'.drain [h]
    | (false, e') => e' := by
  have work := e.work_dropReference h
  rw [Engine.releaseReference]
  rcases drop : e.dropReference h with ⟨last, e'⟩
  rw [drop] at work
  cases last
  · rfl
  · refine Engine.queueZero_eq ?_
    rw [Engine.Rested, work]
    exact rested

theorem Engine.work_releaseReference (rested : e.Rested) :
    (e.releaseReference h).work = e.work := by
  have work := e.work_dropReference h
  rw [Engine.releaseReference_of_rested rested]
  split <;> rename_i e' drop <;> rw [drop] at work
  · rw [Engine.work_drain, work]
  · exact work

theorem Engine.rested_releaseReference (rested : e.Rested) : (e.releaseReference h).Rested := by
  rw [Engine.Rested, Engine.work_releaseReference rested]
  exact rested

theorem Engine.rested_release {v : Value} (rested : e.Rested) : (e.release v).Rested := by
  cases v with
  | immediate w => exact rested
  | reference h => exact Engine.rested_releaseReference rested

section

variable {φ : Engine → Engine}

theorem Engine.Aside.releaseReference (aside : Engine.Aside φ) (rested : e.Rested)
    (resting : (φ e).Rested) : (φ e).releaseReference h = φ (e.releaseReference h) := by
  rw [Engine.releaseReference_of_rested resting, Engine.releaseReference_of_rested rested,
    aside.dropReference]
  rcases e.dropReference h with ⟨_ | _, e'⟩
  · rfl
  · exact aside.drain e' [h]

theorem Engine.Aside.foldl_releaseReference (aside : Engine.Aside φ) (rested : e.Rested)
    (resting : (φ e).Rested) (hs : List Handle) :
    hs.foldl Engine.releaseReference (φ e) = φ (hs.foldl Engine.releaseReference e) := by
  induction hs generalizing e with
  | nil => rfl
  | cons h rest ih =>
      have step := aside.releaseReference (h := h) rested resting
      have resting' : (φ (e.releaseReference h)).Rested :=
        step ▸ Engine.rested_releaseReference resting
      rw [List.foldl_cons, List.foldl_cons, step]
      exact ih (Engine.rested_releaseReference rested) resting'

theorem Engine.Aside.release (aside : Engine.Aside φ) (rested : e.Rested)
    (resting : (φ e).Rested) (v : Value) : (φ e).release v = φ (e.release v) := by
  cases v with
  | immediate w => rfl
  | reference h => exact aside.releaseReference rested resting

theorem Engine.Aside.releaseAll (aside : Engine.Aside φ) (rested : e.Rested)
    (resting : (φ e).Rested) (vs : List Value) : (φ e).releaseAll vs = φ (e.releaseAll vs) := by
  rw [Engine.releaseAll, Engine.releaseAll]
  induction vs generalizing e with
  | nil => rfl
  | cons v rest ih =>
      have step := aside.release rested resting v
      have resting' : (φ (e.release v)).Rested := step ▸ Engine.rested_release resting
      rw [List.foldl_cons, List.foldl_cons, step]
      exact ih (Engine.rested_release rested) resting'

end

theorem Engine.work_foldl_releaseReference (rested : e.Rested) (hs : List Handle) :
    (hs.foldl Engine.releaseReference e).work = e.work := by
  have same : hs.foldl Engine.releaseReference e =
      (hs.foldl Engine.releaseReference e).doing e.work :=
    (Engine.aside_doing e.work).foldl_releaseReference rested rested hs
  rw [same]
  rfl

theorem Engine.work_afterRelinquish (idle : e.work = {}) : (e.afterRelinquish h o).work = {} := by
  rw [Engine.afterRelinquish]
  split
  · rw [Engine.queueZero_eq (Engine.rested_of_idle idle), Engine.work_drain, idle]
  · split <;> exact idle

/-! ### Collections -/

theorem Engine.foldl_discard_doing (garbage : List (Handle × Object)) :
    garbage.foldl Engine.discard (e.doing w) = (garbage.foldl Engine.discard e).doing w := by
  induction garbage generalizing e with
  | nil => rfl
  | cons entry rest ih =>
      have step : (e.doing w).discard entry = (e.discard entry).doing w := by
        rw [Engine.discard, Engine.discard, (Engine.aside_doing w).finalize]
        rfl
      rw [List.foldl_cons, step, ih]
      rfl

theorem Engine.work_foldl_discard (e : Engine) (garbage : List (Handle × Object)) :
    (garbage.foldl Engine.discard e).work = e.work := by
  have same : garbage.foldl Engine.discard e = (garbage.foldl Engine.discard e).doing e.work :=
    Engine.foldl_discard_doing garbage
  rw [same]
  rfl

/-- Once the garbage is known, nothing depends on the note that a collection is
under way. -/
theorem Engine.collecting_eq (idle : e.work = {}) (garbage : List (Handle × Object))
    (outgoing : List Handle) :
    (outgoing.foldl Engine.releaseReference
        (garbage.foldl Engine.discard (e.setCollecting true))).setCollecting false =
      outgoing.foldl Engine.releaseReference (garbage.foldl Engine.discard e) := by
  have work : (garbage.foldl Engine.discard e).work = {} := by
    rw [Engine.work_foldl_discard, idle]
  have rested : (garbage.foldl Engine.discard e).Rested := Engine.rested_of_idle work
  have noted : e.setCollecting true = e.doing { collecting := true } := by
    rw [Engine.setCollecting, idle]
  have after := Engine.work_foldl_releaseReference rested outgoing
  rw [noted, Engine.foldl_discard_doing,
    (Engine.aside_doing { collecting := true }).foldl_releaseReference rested ⟨rfl, rfl⟩]
  rw [work] at after
  show (outgoing.foldl Engine.releaseReference (garbage.foldl Engine.discard e)).doing {} = _
  rw [← after, Engine.doing_work]

/-- A collection that nobody is in the middle of. -/
theorem Engine.collect_of_idle (idle : e.work = {}) : e.collect =
    let e := if e.heap.hasDangling then e.stray else e
    let e := { e with heap := e.heap.enlist.scan.dismiss }
    (e.heap.garbage.length,
      e.heap.outgoing.foldl Engine.releaseReference (e.heap.garbage.foldl Engine.discard e)) := by
  have work : (if e.heap.hasDangling then e.stray else e).work = {} := by
    split <;> exact idle
  rw [Engine.collect, idle]
  simp only [Bool.false_eq_true, if_false]
  generalize (if e.heap.hasDangling then e.stray else e) = e₁ at work
  have collected := Engine.collecting_eq (e := { e₁ with heap := e₁.heap.enlist.scan.dismiss })
    work e₁.heap.enlist.scan.dismiss.garbage e₁.heap.enlist.scan.dismiss.outgoing
  exact congrArg (Prod.mk _) collected

end

/-! ### What work on the heap keeps -/

/-- A change of an object's marks. -/
def Object.Remarks (f : Object → Object) : Prop :=
  ∀ o, f o = { o with marked := (f o).marked, reached := (f o).reached }

section

variable {P : Heap → Prop} {H : Heap}

theorem Heap.foldl_reach_keep (reach : ∀ {H h}, P H → P (H.reach h)) (hs : List Handle)
    (before : P H) : P (hs.foldl Heap.reach H) := by
  induction hs generalizing H with
  | nil => exact before
  | cons h rest ih => exact ih (reach before)

theorem Heap.reachEach_keep (reach : ∀ {H h}, P H → P (H.reach h)) (stack hs : List Handle)
    (before : P H) : P (H.reachEach stack hs).1 := by
  induction hs generalizing H stack with
  | nil => exact before
  | cons h rest ih =>
      rw [Heap.reachEach]
      split
      · exact ih _ (reach before)
      · exact ih stack before

theorem Heap.reachFrom_keep (reach : ∀ {H h}, P H → P (H.reach h)) (stack : List Handle)
    (before : P H) : P (H.reachFrom stack) := by
  fun_induction Heap.reachFrom H stack with
  | case1 H => exact before
  | case2 H h rest H' stack' step ih =>
      have each := Heap.reachEach_keep reach rest (H.ownedBy h) before
      rw [step] at each
      exact ih each

/-- Whatever changing marks keeps is kept by a scan. -/
theorem Heap.scan_keep (update : ∀ {H h f}, Object.Remarks f → P H → P (H.update h f))
    (mapLive : ∀ {H f}, Object.Remarks f → P H → P (H.mapLive f)) (start : P H) :
    P H.enlist.scan.dismiss := by
  have reach {H : Heap} {h : Handle} (before : P H) : P (H.reach h) :=
    update (fun _ => rfl) before
  have enlisted : P H.enlist := mapLive (fun _ => rfl) start
  have seeded := Heap.foldl_reach_keep reach H.enlist.seeds enlisted
  have scanned : P H.enlist.scan := Heap.reachFrom_keep reach _ seeded
  refine mapLive (fun o => ?_) scanned
  split <;> rfl

end

/-- `R` relates an engine to whatever giving back and collecting make of it, change by change: a
positive count gets smaller, an object loses its payload and leaves the list, the marks of a
collection are set and what keeps its mark is discarded. Beside the heap there may be one more
finalization, a note about a reference that was not there to be given back or about a header
that is gone, and other notes about the work itself. -/
structure Engine.SlotWork (R : Engine → Engine → Prop) : Prop where
  refl : ∀ e, R e e
  trans : ∀ {e₁ e₂ e₃}, R e₁ e₂ → R e₂ e₃ → R e₁ e₃
  drop : ∀ {e h o}, e.heap.object? h = some o → 0 < o.count →
    R e (e.updateObject h fun o => { o with count := o.count - 1 })
  empty : ∀ e h, R e (e.updateObject h Object.release)
  retire : ∀ e h size park, R e (e.retire h size park)
  scan : ∀ e, R e { e with heap := e.heap.enlist.scan.dismiss }
  sweep : ∀ e h, R e (e.updateObject h fun o => { o.release with count := 0, marked := false })
  finalized : ∀ e f, R e { e with finalized := f }
  surplus : ∀ e h o, R e (e.record (.surplusRelease h o))
  stray : ∀ e, R e e.stray
  doing : ∀ e w, R e (e.doing w)

/-- `R` relates an engine to whatever work on the heap makes of it, whatever heap that is. -/
structure Engine.HeapWork (R : Engine → Engine → Prop) : Prop where
  refl : ∀ e, R e e
  trans : ∀ {e₁ e₂ e₃}, R e₁ e₂ → R e₂ e₃ → R e₁ e₃
  heap : ∀ e H, R e { e with heap := H }
  finalized : ∀ e f, R e { e with finalized := f }
  surplus : ∀ e h o, R e (e.record (.surplusRelease h o))
  stray : ∀ e, R e e.stray
  doing : ∀ e w, R e (e.doing w)

section

variable {R : Engine → Engine → Prop}

theorem Engine.HeapWork.slotWork (work : Engine.HeapWork R) : Engine.SlotWork R where
  refl := work.refl
  trans := work.trans
  drop _ _ := work.heap _ _
  empty _ _ := work.heap _ _
  retire _ _ _ _ := work.heap _ _
  scan _ := work.heap _ _
  sweep _ _ := work.heap _ _
  finalized := work.finalized
  surplus := work.surplus
  stray := work.stray
  doing := work.doing

theorem Engine.SlotWork.finalize (work : Engine.SlotWork R) (e : Engine) (h : Handle) (o : Object) :
    R e (e.finalize h o) := by
  rw [Engine.finalize]
  split
  · split
    · exact work.finalized e _
    · exact work.refl e
  · exact work.refl e

theorem Engine.SlotWork.dropReference (work : Engine.SlotWork R) (e : Engine) (h : Handle) :
    R e (e.dropReference h).2 := by
  rw [Engine.dropReference]
  split
  · rename_i o found
    split
    · rename_i positive
      exact work.drop found positive
    · exact work.surplus e h _
  · exact work.stray e

theorem Engine.SlotWork.dropAll (work : Engine.SlotWork R) (e : Engine) (found hs : List Handle) :
    R e (e.dropAll found hs).2 := by
  induction hs generalizing e found with
  | nil => exact work.refl e
  | cons h rest ih =>
      have first := work.dropReference e h
      rw [Engine.dropAll]
      split <;> rename_i e' drop <;> rw [drop] at first
      · exact work.trans first (ih e' _)
      · exact work.trans first (ih e' _)

theorem Engine.SlotWork.dispose (work : Engine.SlotWork R) (e : Engine) (h : Handle) :
    R e (e.dispose h).2 := by
  rw [Engine.dispose]
  split
  · rename_i o found
    split
    · exact work.refl e
    · have finalized := work.trans (work.empty e h) (work.finalize _ h o)
      have dropped := work.trans finalized (work.dropAll _ [] o.payload.owned)
      exact work.trans dropped (work.retire _ _ _ _)
  · exact work.stray e

theorem Engine.SlotWork.drain (work : Engine.SlotWork R) (e : Engine) (queue : List Handle) :
    R e (e.drain queue) := by
  fun_induction Engine.drain e queue with
  | case1 e => exact work.refl e
  | case2 e h rest zeroed e' step ih =>
      have first := work.dispose e h
      rw [step] at first
      exact work.trans first ih

theorem Engine.SlotWork.queueZero (work : Engine.SlotWork R) (e : Engine) (h : Handle) :
    R e (e.queueZero h) := by
  have joined : R e (e.join [h]) := work.doing e _
  rw [Engine.queueZero]
  split
  · exact joined
  · have begun := work.trans joined (work.doing (e.join [h]) { (e.join [h]).work with
      draining := true })
    rw [Engine.workOff_eq]
    have drained := work.trans begun (work.drain _ ((e.join [h]).setDraining true).work.waiting)
    exact work.trans (work.trans drained (work.doing _ _)) (work.doing _ _)

theorem Engine.SlotWork.releaseReference (work : Engine.SlotWork R) (e : Engine) (h : Handle) :
    R e (e.releaseReference h) := by
  have first := work.dropReference e h
  rw [Engine.releaseReference]
  split <;> rename_i e' drop <;> rw [drop] at first
  · exact work.trans first (work.queueZero e' h)
  · exact first

theorem Engine.SlotWork.foldl (work : Engine.SlotWork R) {α : Type} {f : Engine → α → Engine}
    (step : ∀ e a, R e (f e a)) (e : Engine) (as : List α) : R e (as.foldl f e) := by
  induction as generalizing e with
  | nil => exact work.refl e
  | cons a rest ih => exact work.trans (step e a) (ih (f e a))

theorem Engine.SlotWork.release (work : Engine.SlotWork R) (e : Engine) (v : Value) :
    R e (e.release v) := by
  rw [Engine.release]
  split
  · exact work.releaseReference e _
  · exact work.refl e

theorem Engine.SlotWork.releaseAll (work : Engine.SlotWork R) (e : Engine) (vs : List Value) :
    R e (e.releaseAll vs) :=
  work.foldl work.release e vs

theorem Engine.SlotWork.discard (work : Engine.SlotWork R) (e : Engine) (entry : Handle × Object) :
    R e (e.discard entry) := by
  rw [Engine.discard]
  exact work.trans (work.trans (work.finalize e _ _) (work.sweep _ _)) (work.retire _ _ _ _)

theorem Engine.SlotWork.collect (work : Engine.SlotWork R) (e : Engine) : R e e.collect.2 := by
  rw [Engine.collect]
  split
  · exact work.refl e
  · have checked : R e (if e.heap.hasDangling then e.stray else e) := by
      split
      · exact work.stray e
      · exact work.refl e
    dsimp only
    generalize (if e.heap.hasDangling then e.stray else e) = e₁ at checked
    have begun := work.trans checked (work.doing e₁ { e₁.work with collecting := true })
    have scanned := work.trans begun (work.scan (e₁.setCollecting true))
    have swept := work.trans scanned (work.foldl work.discard _ e₁.heap.enlist.scan.dismiss.garbage)
    exact work.trans (work.trans swept (work.foldl work.releaseReference _ _)) (work.doing _ _)

end

/-! ### What is noted on the way -/

/-- Nothing is noted but references that were not there to be given back. -/
def Engine.NotesSurplus (e e' : Engine) : Prop :=
  ∃ notes, e'.diagnostics.toList = e.diagnostics.toList ++ notes ∧
    ∀ d ∈ notes, ∃ k o, d = .surplusRelease k o

section

variable {e e' e'' : Engine}

theorem Engine.NotesSurplus.of_eq (same : e'.diagnostics = e.diagnostics) : e.NotesSurplus e' :=
  ⟨[], by rw [same, List.append_nil], nofun⟩

theorem Engine.NotesSurplus.trans (first : e.NotesSurplus e') (later : e'.NotesSurplus e'') :
    e.NotesSurplus e'' := by
  obtain ⟨notes, added, surplus⟩ := first
  obtain ⟨notes', added', surplus'⟩ := later
  refine ⟨notes ++ notes', by rw [added', added, List.append_assoc], fun d mem => ?_⟩
  exact (List.mem_append.1 mem).elim (surplus d) (surplus' d)

theorem Engine.notesSurplus_record (e : Engine) (h : Handle) (o : Object) :
    e.NotesSurplus (e.record (.surplusRelease h o)) :=
  ⟨[.surplusRelease h o], Array.toList_push, fun _ mem => ⟨h, o, List.mem_singleton.1 mem⟩⟩

theorem Engine.heapWork_notesSurplus : Engine.HeapWork Engine.NotesSurplus where
  refl _ := .of_eq rfl
  trans := .trans
  heap _ _ := .of_eq rfl
  finalized _ _ := .of_eq rfl
  surplus := Engine.notesSurplus_record
  stray _ := .of_eq rfl
  doing _ _ := .of_eq rfl

end

end CountedHeap
