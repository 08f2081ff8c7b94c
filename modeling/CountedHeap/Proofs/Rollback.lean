import CountedHeap.Proofs.Construction
import CountedHeap.Proofs.Twins

/-!
Operations of several allocations. Opening a context makes a prototype for each
class and a global object on top of them, and reading the keys of an object makes a
string for each. Any of these may find no room, and then those that were made before
it are given back: the prototypes with the one that all others refer to first. Both
operations build what they make beside what is there, so whichever allocation it is
that is refused, the engine is left as a single collection before the operation would
have left it.
-/

namespace CountedHeap

section

variable {e e' : Engine} {X Y : Multiset Handle} {proto base : Value} {classId : ClassId}
  {payload : Payload} {made protos : Array Value} {n : Nat}

/-! ### Opening a context -/

theorem Engine.Building.allocateWithProto (building : e.Building X Y e') (hs : e.Settled ∅ X)
    (hopen : e.isClosed = false) (held : ∀ h ∈ proto.refs, h ∈ Y)
    (owned : (payload.owned : Multiset Handle) = proto.refs)
    (range : (e'.allocateWithProto proto classId payload).2.InRange) :
    Engine.Outcome handedOver e X Y (e'.allocateWithProto proto classId payload) := by
  have retained := building.retain held (Engine.inRange_allocateWithProto.1 range)
  rw [← owned] at retained
  exact retained.allocate hs hopen

theorem Payload.owned_plain (proto : Value) :
    ((Payload.plain proto []).owned : Multiset Handle) = proto.refs := by
  rw [coe_owned, Payload.values, refsOf_cons]
  exact add_zero _

theorem Engine.Building.makePlain (building : e.Building X Y e') (hs : e.Settled ∅ X)
    (hopen : e.isClosed = false) (held : ∀ h ∈ proto.refs, h ∈ Y)
    (range : (e'.makePlain proto).2.InRange) :
    Engine.Outcome handedOver e X Y (e'.makePlain proto) :=
  building.allocateWithProto hs hopen held (Payload.owned_plain proto) range

section

variable {α : Type} {gained : Except Refusal α → Multiset Handle} {r : Except Refusal α × Engine}
  {refusal : Refusal} {vs : List Value}

theorem Engine.Outcome.refused (outcome : Engine.Outcome gained e X Y r)
    (refused : r.1 = .error refusal) (none : gained (.error refusal) = 0) :
    e.Building X Y r.2 ∧ e.Pruned r.2 := by
  have building := outcome.building
  rw [refused, none, zero_add] at building
  exact ⟨building, outcome.pruned refusal refused⟩

/-- What is given back after a refusal. -/
theorem Engine.Outcome.undone (outcome : Engine.Outcome gained e X (refsOf vs) r)
    (refused : r.1 = .error refusal) (none : gained (.error refusal) = 0) :
    e.Building X 0 (r.2.releaseAll vs) ∧ e.Pruned (r.2.releaseAll vs) := by
  obtain ⟨building, pruned⟩ := outcome.refused refused none
  have hs := building.settled
  rw [← add_zero (refsOf vs)] at building
  have released := building.releaseAll
  exact ⟨released, pruned.fade hs.fades_releaseAll released.settled.sound⟩

end

theorem Engine.Building.makePrototypes (building : e.Building X (refsOf made.toList) e')
    (hs : e.Settled ∅ X) (hopen : e.isClosed = false) (mem : base ∈ made)
    (range : (e'.makePrototypes base made n).2.InRange) :
    Engine.Outcome handedOverAll e X 0 (e'.makePrototypes base made n) := by
  induction n generalizing e' made with
  | zero =>
      rw [← add_zero (refsOf made.toList)] at building
      exact ⟨building, fun refusal same => by cases same⟩
  | succ n ih =>
      have held : ∀ h ∈ base.refs, h ∈ refsOf made.toList := by
        intro h named
        rw [mem_refsOf, ← Value.mem_refs.1 named]
        exact mem.val
      have outcome := building.makePlain hs hopen held
        (Engine.inRange_makePlain_of_makePrototypes range)
      rw [Engine.makePrototypes] at range ⊢
      rcases step : e'.makePlain base with ⟨refusal | proto, e₁⟩ <;>
        rw [step] at outcome range
      · obtain ⟨undone, pruned⟩ := outcome.undone rfl rfl
        exact ⟨by rwa [add_zero], fun _ _ => pruned⟩
      · refine ih ?_ (Array.mem_push_of_mem proto mem) range
        have more := outcome.building
        rw [handedOver, add_comm] at more
        rw [Array.toList_push, refsOf_append, refsOf_cons, refsOf_nil, add_zero]
        exact more

theorem Engine.Building.makeContext (building : e.Building X (refsOf protos.toList) e')
    (hs : e.Settled ∅ X) (hopen : e.isClosed = false) (mem : base ∈ protos)
    (range : (e'.makeContext base protos).2.InRange) {refusal : Refusal}
    (refused : (e'.makeContext base protos).1 = .error refusal) :
    e.Building X 0 (e'.makeContext base protos).2 ∧ e.Pruned (e'.makeContext base protos).2 := by
  have held : ∀ h ∈ base.refs, h ∈ refsOf protos.toList := by
    intro h named
    rw [mem_refsOf, ← Value.mem_refs.1 named]
    exact mem.val
  have outcome : Engine.Outcome handedOver e X (refsOf protos.toList)
      (e'.allocateWithProto base ClassId.global (.plain base [])) :=
    building.allocateWithProto hs hopen held (Payload.owned_plain base)
      (Engine.inRange_allocate_of_makeContext range)
  rw [Engine.makeContext] at refused ⊢
  rcases step : e'.allocateWithProto base ClassId.global (.plain base []) with
    ⟨refusal | global, e₁⟩ <;> rw [step] at outcome refused
  · exact outcome.undone rfl rfl
  · cases refused

theorem Engine.Building.openOn (building : e.Building X base.refs e') (hs : e.Settled ∅ X)
    (hopen : e.isClosed = false) (range : (e'.openOn base n).2.InRange) {refusal : Refusal}
    (refused : (e'.openOn base n).1 = .error refusal) :
    e.Building X 0 (e'.openOn base n).2 ∧ e.Pruned (e'.openOn base n).2 := by
  have within := Engine.inRange_makePrototypes_of_openOn range
  rw [← refsOf_singleton] at building
  have mem : base ∈ #[base] := Array.mem_singleton.2 rfl
  have outcome := building.makePrototypes hs hopen mem within
  obtain ⟨-, among⟩ := Engine.Settled.makePrototypes building.settled mem within
  rw [Engine.openOn] at range refused ⊢
  rcases step : e'.makePrototypes base #[base] n with ⟨refusal | protos, e₁⟩ <;>
    rw [step] at outcome range refused
  · exact outcome.refused rfl rfl
  · have more : e.Building X (refsOf protos.toList + 0) e₁ := outcome.building
    rw [add_zero] at more
    exact more.makeContext hs hopen (among protos (congrArg Prod.fst step)) range refused

/-- A context that is refused leaves nothing behind, nor any garbage. -/
theorem Engine.Settled.undone_openContext {slots : Nat} (hs : e.Settled ∅ X)
    (hopen : e.isClosed = false) (range : (e.openContext slots).2.InRange) {refusal : Refusal}
    (refused : (e.openContext slots).1 = .error refusal) :
    e.Building X 0 (e.openContext slots).2 ∧ e.Pruned (e.openContext slots).2 := by
  have outcome : Engine.Outcome handedOver e X 0 (e.makePlain Value.null) :=
    (Engine.Building.refl hs).makePlain hs hopen (fun h mem => absurd mem (Multiset.notMem_zero h))
      (Engine.inRange_makePlain_of_openContext hopen range)
  rw [Engine.openContext_eq hopen] at range refused ⊢
  rcases step : e.makePlain Value.null with ⟨refusal | base, e₁⟩ <;>
    rw [step] at outcome range refused
  · exact outcome.refused rfl rfl
  · have more : e.Building X (base.refs + 0) e₁ := outcome.building
    rw [add_zero] at more
    exact more.openOn hs hopen range refused

/-! ### Reading keys -/

theorem Engine.Building.makeString (building : e.Building X Y e') (hs : e.Settled ∅ X)
    (hopen : e.isClosed = false) (text : String) :
    Engine.Outcome handedOver e X Y (e'.makeString text) := by
  rw [← zero_add Y] at building
  exact Engine.Building.allocate building hs hopen

theorem Engine.Building.makeKeyTable {made : Array KeyEntry} {keys : List String}
    (building : e.Building X (tableRefs made.toList) e') (hs : e.Settled ∅ X)
    (hopen : e.isClosed = false) (refused : (e'.makeKeyTable made keys).1 = none) :
    e.Building X 0 (e'.makeKeyTable made keys).2 ∧ e.Pruned (e'.makeKeyTable made keys).2 := by
  induction keys generalizing e' made with
  | nil => cases refused
  | cons key rest ih =>
      have outcome := building.makeString hs hopen key
      rw [Engine.makeKeyTable] at refused ⊢
      rcases step : e'.makeString key with ⟨refusal | atom, e₁⟩ <;> rw [step] at outcome refused
      · exact outcome.undone rfl rfl
      · refine ih ?_ refused
        have more := outcome.building
        rw [handedOver, add_comm] at more
        simpa [tableRefs] using more

/-! ### As after a collection -/

/-- An engine that nothing but its threshold tells from another: the list of live
objects, every header with its count, its bits and its payload, the numbers that the
heap keeps, the contexts, the settings and the diagnostics are the same. One of the
two may have made objects of which nothing is left. -/
structure Engine.Restores (e e' : Engine) : Prop where
  listed : e'.heap.listed = e.heap.listed
  heap : e.heap.Same e'.heap
  contexts : e'.contexts = e.contexts
  diagnostics : e'.diagnostics = e.diagnostics
  frame : e'.frame = e.frame
  work : e'.work = e.work

/-- A request that makes several objects. -/
def Action.makesSeveral : Action → Bool
  | .openContext _ => true
  | .keyTableOf _ => true
  | _ => false

/-- An answer that says that there was no room for all that was asked for. -/
def Answer.lacksRoom : Answer → Bool
  | .refused (.outOfMemory _ _) => true
  | .keyTable none => true
  | _ => false

/-- What was begun and undone is as if there had been a collection instead. -/
theorem Engine.Building.restores (building : e.Building X 0 e') (pruned : e.Pruned e')
    (hs : e.Settled ∅ X) (hopen : e.isClosed = false) (booked : e.collect.2.heap.Booked 0)
    (booked' : e'.heap.Booked 0) : e.collect.2.Restores e' := by
  have began := Engine.Building.refl hs
  have same := building.same_collect pruned hs hopen booked booked'
  have frame : e'.frame = e.collect.2.frame := building.frame.trans began.collect.frame.symm
  exact ⟨same.listed, same, contexts_of_frame frame,
    building.diagnostics.trans began.collect.diagnostics.symm, frame,
    building.settled.blameless.idle.trans began.collect.settled.blameless.idle.symm⟩

theorem Engine.keysOf_of_closed {target : Value} (hs : e.Settled ∅ X) (recorded : e.Recorded)
    (closed : e.isClosed = true) : e.keysOf target = [] := by
  rw [Engine.keysOf]
  split
  · rename_i o found
    by_cases empty : o.payload = .released
    · rw [empty]
      rfl
    · obtain ⟨h, -, slot⟩ := hs.live_of_payload found empty
      have gone := recorded.closed closed h
      rw [Heap.isLive_iff.2 ⟨o, slot⟩] at gone
      cases gone
  · rfl

/-- A request that makes several objects and finds no room is undone, on an engine that
is not closed. -/
theorem Engine.Settled.undone_carryOut {a : Action} (hs : e.Settled ∅ X) (recorded : e.Recorded)
    (several : a.makesSeveral = true) (range : (e.carryOut a).2.InRange)
    (failed : (e.carryOut a).1.lacksRoom = true) :
    e.isClosed = false ∧ e.Building X 0 (e.carryOut a).2 ∧ e.Pruned (e.carryOut a).2 := by
  cases a with
  | openContext slots =>
      have hopen : e.isClosed = false := by
        by_contra closed
        rw [Bool.not_eq_false] at closed
        rw [Engine.carryOut, Engine.openContext, if_pos closed] at failed
        cases failed
      have undone {refusal : Refusal} (refused : (e.openContext slots).1 = .error refusal) :=
        hs.undone_openContext hopen (inRange_of_answered range) refused
      rw [Engine.carryOut] at failed ⊢
      rcases step : e.openContext slots with ⟨refusal | c, e'⟩ <;> rw [step] at undone failed
      · exact ⟨hopen, undone rfl⟩
      · cases failed
  | keyTableOf target =>
      have hopen : e.isClosed = false := by
        by_contra closed
        rw [Bool.not_eq_false] at closed
        rw [Engine.carryOut, Engine.keyTableOf, Engine.keysOf_of_closed hs recorded closed]
          at failed
        cases failed
      have began : e.Building X (tableRefs #[].toList) e := Engine.Building.refl hs
      have undone : (e.makeKeyTable #[] (e.keysOf target)).1 = none → _ :=
        began.makeKeyTable hs hopen
      rw [Engine.carryOut, Engine.keyTableOf] at failed ⊢
      rcases step : e.makeKeyTable #[] (e.keysOf target) with ⟨_ | table, e'⟩ <;>
        rw [step] at undone failed
      · exact ⟨hopen, undone rfl⟩
      · cases failed
  | _ => cases several

end

section

variable {limits : Limits} {s : Session} {a : Action}

theorem Reached.booked {d : Discipline} (reached : Reached d limits s) :
    s.engine.heap.Tidy ∧ s.engine.heap.Booked 0 := by
  induction reached with
  | start => exact ⟨fun _ => trivial, Engine.booked_new limits⟩
  | step a booked before allowed range ih => exact Engine.booked_perform ih.1 ih.2 a

theorem Reached.recorded {d : Discipline} (reached : Reached d limits s) :
    s.engine.Recorded := by
  induction reached with
  | start => exact Engine.recorded_new limits
  | step a booked before allowed range ih => exact ih.perform a

/-- If there is no room for a context, whichever of its objects it is that finds none, or
for the keys of an object, then the engine is left as one collection would leave it. -/
theorem Reached.refused_restores (reached : Reached .strict limits s)
    (several : a.makesSeveral = true) (allowed : s.Allows .strict a true)
    (range : (s.act a true).engine.InRange)
    (failed : (s.engine.perform a).1.lacksRoom = true) :
    s.engine.collect.2.Restores (s.engine.perform a).2 := by
  obtain ⟨tidy, booked⟩ := reached.booked
  have collected : s.engine.collect.2.heap.Booked 0 :=
    (Engine.booked_perform tidy booked .collect).2
  have performed := (Engine.booked_perform tidy booked a).2
  have hs := reached.settled_strict
  simp only [Session.act, allowed.perform_eq] at range failed performed ⊢
  obtain ⟨hopen, building, pruned⟩ := hs.undone_carryOut reached.recorded several range failed
  exact building.restores pruned hs hopen collected performed

/-- In the middle of the cycle that a host has dropped there is an object that it had
adopted. There is room for three more prototypes when the cycle is gone. -/
theorem refused_restores_abandonedCycle : ∃ s, Reached .strict { memory := some 500 } s ∧
    (s.engine.perform (.openContext 0)).1.lacksRoom = true ∧
      (s.engine.perform (.openContext 0)).2.made.size = s.engine.made.size + 3 ∧
        s.engine.collect.1 = 2 ∧
          s.engine.collect.2.Restores (s.engine.perform (.openContext 0)).2 := by
  have run : ((Session.start { memory := some 500 }).follow .strict abandonedCycle).any (fun s =>
      decide (s.Allows .strict (.openContext 0) true ∧
        (s.act (.openContext 0) true).engine.InRange ∧
        (s.engine.perform (.openContext 0)).1.lacksRoom = true ∧
        (s.engine.perform (.openContext 0)).2.made.size = s.engine.made.size + 3 ∧
        s.engine.collect.1 = 2)) = true := by
    decide +kernel
  obtain ⟨s, followed, facts⟩ := (Option.any_eq_true _ _).1 run
  obtain ⟨allowed, range, failed, made, garbage⟩ := of_decide_eq_true facts
  have reached : Reached .strict { memory := some 500 } s := Reached.start.follow followed
  exact ⟨s, reached, failed, made, garbage,
    reached.refused_restores rfl allowed range failed⟩

end

end CountedHeap
