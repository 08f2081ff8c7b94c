import CountedHeap.Proofs.Cascade
import Mathlib.Logic.Relation

/-!
Giving back references, one small step at a time and in no particular order. A state has
the references still to be given back, the objects that have lost their last one, and
those whose payload is taken and whose header is still in the list of live objects. Any
step that is possible may come next. So a run of this relation is any way to give back
the references: first in first out, depth first, or each object as soon as it is found,
with the references in a payload in any order. The module shows that what an engine does
is one of these runs.
-/

namespace CountedHeap

/-- An engine in the middle of giving back references. `owed` are still to be given back,
`waiting` have lost their last reference, and `ending` have lost their payload but not
their place; with each stands the object that it was. `ended` has all that lost their
payload so far. -/
structure Unwinding where
  engine : Engine
  owed : Multiset Handle
  waiting : Multiset Handle := 0
  ending : Multiset (Handle × Object) := 0
  ended : Multiset Handle := 0

/-- What may be done next: give back some reference that is owed, look at some object
that waits, or take some header off the list. -/
inductive Unwinding.Step (u : Unwinding) : Unwinding → Prop
  | give {h : Handle} {owed : Multiset Handle} (due : u.owed = h ::ₘ owed) :
      u.Step
        { engine := (u.engine.dropReference h).2
          owed := owed
          waiting := (if (u.engine.dropReference h).1 then {h} else 0) + u.waiting
          ending := u.ending
          ended := u.ended }
  | take {h : Handle} {o : Object} {waiting : Multiset Handle} (next : u.waiting = h ::ₘ waiting)
      (found : u.engine.heap.object? h = some o) (fresh : o.freed = false) :
      u.Step
        { engine := (u.engine.updateObject h Object.release).finalize h o
          owed := ↑o.payload.owned + u.owed
          waiting := waiting
          ending := (h, o) ::ₘ u.ending
          ended := h ::ₘ u.ended }
  | pass {h : Handle} {o : Object} {waiting : Multiset Handle} (next : u.waiting = h ::ₘ waiting)
      (found : u.engine.heap.object? h = some o) (freed : o.freed = true) :
      u.Step { u with waiting := waiting }
  | miss {h : Handle} {waiting : Multiset Handle} (next : u.waiting = h ::ₘ waiting)
      (gone : u.engine.heap.object? h = none) :
      u.Step { u with engine := u.engine.stray, waiting := waiting }
  | leave {h : Handle} {o : Object} {ending : Multiset (Handle × Object)}
      (last : u.ending = (h, o) ::ₘ ending) :
      u.Step { u with engine := u.engine.retire h o.size o.adopted, ending := ending }

/-- Any number of steps. -/
def Unwinding.Run : Unwinding → Unwinding → Prop :=
  Relation.ReflTransGen Unwinding.Step

/-- Nothing is left to do. -/
structure Unwinding.Done (u : Unwinding) : Prop where
  owed : u.owed = 0
  waiting : u.waiting = 0
  ending : u.ending = 0

section

variable {e : Engine} {M : Finset Handle} {R W X D : Multiset Handle}
  {E : Multiset (Handle × Object)} {h : Handle}

/-! ### What the engine does is a run -/

theorem Unwinding.Run.trans {u v w : Unwinding} (first : u.Run v) (later : v.Run w) : u.Run w :=
  Relation.ReflTransGen.trans first later

theorem Unwinding.Step.run {u v : Unwinding} (step : u.Step v) : u.Run v :=
  Relation.ReflTransGen.single step

/-- References are given back in the order of the list. -/
theorem Unwinding.run_dropAll (found hs : List Handle) :
    Unwinding.Run ⟨e, ↑hs + R, ↑found + W, E, D⟩
      ⟨(e.dropAll found hs).2, R, ↑(e.dropAll found hs).1 + W, E, D⟩ := by
  induction hs generalizing e found with
  | nil =>
      rw [Engine.dropAll, Multiset.coe_nil, zero_add, Multiset.coe_reverse]
      exact .refl
  | cons h rest ih =>
      have due : (↑(h :: rest) + R : Multiset Handle) = h ::ₘ (↑rest + R) := by
        rw [← Multiset.cons_coe, Multiset.cons_add]
      have step : Unwinding.Step ⟨e, ↑(h :: rest) + R, ↑found + W, E, D⟩ _ := .give due
      refine step.run.trans ?_
      rw [Engine.dropAll]
      rcases e.dropReference h with ⟨_ | _, e'⟩
      · simpa only [Bool.false_eq_true, if_false, zero_add] using ih (e := e') found
      · have later := ih (e := e') (h :: found)
        rw [← Multiset.cons_coe, Multiset.cons_add, ← Multiset.singleton_add] at later
        exact later

/-- An object is disposed of in one go, with its header taken off the list at the end. -/
theorem Unwinding.run_dispose : ∃ D', Unwinding.Run ⟨e, R, h ::ₘ W, E, D⟩
    ⟨(e.dispose h).2, R, ↑(e.dispose h).1 + W, E, D'⟩ := by
  cases found : e.heap.object? h with
  | none =>
      refine ⟨D, ?_⟩
      simp only [Engine.dispose, found, Multiset.coe_nil, zero_add]
      exact (Unwinding.Step.miss rfl found).run
  | some o =>
      cases freed : o.freed with
      | true =>
          refine ⟨D, ?_⟩
          simp only [Engine.dispose, found, freed, if_true, Multiset.coe_nil, zero_add]
          exact (Unwinding.Step.pass rfl found freed).run
      | false =>
          refine ⟨h ::ₘ D, ?_⟩
          have taken : Unwinding.Step ⟨e, R, h ::ₘ W, E, D⟩ _ := .take rfl found freed
          have dropped := Unwinding.run_dropAll
            (e := (e.updateObject h Object.release).finalize h o) (R := R) (W := W)
            (E := (h, o) ::ₘ E) (D := h ::ₘ D) [] o.payload.owned
          rw [Multiset.coe_nil, zero_add] at dropped
          refine taken.run.trans (dropped.trans ?_)
          simp only [Engine.dispose, found, freed, Bool.false_eq_true, if_false]
          exact (Unwinding.Step.leave rfl).run

/-- The queue is worked off first in first out. -/
theorem Unwinding.run_drain (queue : List Handle) : ∃ D', Unwinding.Run ⟨e, R, ↑queue + W, E, D⟩
    ⟨e.drain queue, R, W, E, D'⟩ := by
  fun_induction Engine.drain e queue generalizing D with
  | case1 e =>
      rw [Multiset.coe_nil, zero_add]
      exact ⟨D, .refl⟩
  | case2 e h rest zeroed e' step ih =>
      obtain ⟨D₁, disposed⟩ := Unwinding.run_dispose (e := e) (R := R) (h := h) (W := ↑rest + W)
        (E := E) (D := D)
      obtain ⟨D₂, later⟩ := ih (D := D₁)
      refine ⟨D₂, ?_⟩
      rw [step] at disposed
      rw [enqueue_eq_append, ← Multiset.coe_add, add_comm (rest : Multiset Handle), add_assoc]
        at later
      rw [← Multiset.cons_coe, Multiset.cons_add]
      rw [enqueue_eq_append]
      exact disposed.trans later

theorem Unwinding.run_releaseReference (rested : e.Rested) :
    ∃ D', Unwinding.Run ⟨e, h ::ₘ R, W, E, D⟩ ⟨e.releaseReference h, R, W, E, D'⟩ := by
  have given : Unwinding.Step ⟨e, h ::ₘ R, W, E, D⟩ _ := .give rfl
  rw [Engine.releaseReference_of_rested rested]
  split <;> rename_i e' drop
  · obtain ⟨D', drained⟩ := Unwinding.run_drain (e := e') (R := R) (W := W) (E := E) (D := D) [h]
    refine ⟨D', given.run.trans ?_⟩
    rw [drop]
    exact drained
  · refine ⟨D, given.run.trans ?_⟩
    simp only [drop, Bool.false_eq_true, if_false, zero_add]
    exact .refl

/-- References are given back one after the other, each with all that follows from it. -/
theorem Unwinding.run_foldl_releaseReference (rested : e.Rested) (hs : List Handle) :
    ∃ D', Unwinding.Run ⟨e, ↑hs + R, W, E, D⟩
      ⟨hs.foldl Engine.releaseReference e, R, W, E, D'⟩ := by
  induction hs generalizing e D with
  | nil =>
      rw [Multiset.coe_nil, zero_add]
      exact ⟨D, .refl⟩
  | cons h rest ih =>
      have rested' : (e.releaseReference h).Rested := by
        rw [Engine.Rested, Engine.work_releaseReference rested]
        exact rested
      obtain ⟨D₁, released⟩ := Unwinding.run_releaseReference (h := h) (R := ↑rest + R) (W := W)
        (E := E) (D := D) rested
      obtain ⟨D₂, later⟩ := ih (D := D₁) rested'
      rw [← Multiset.cons_coe, Multiset.cons_add]
      exact ⟨D₂, released.trans later⟩

end

end CountedHeap
