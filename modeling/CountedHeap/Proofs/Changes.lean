import CountedHeap.Proofs.Frame
import CountedHeap.Proofs.Payloads
import Mathlib.Data.Set.Defs
import Mathlib.Logic.Relation

/-!
What a request can do to an engine. Whatever the request, whoever makes it and
whatever state the engine is in, it is carried out in a chain of changes of a few
kinds: a count moves, a table or an array gets longer or shorter, an object comes
to its end, garbage is swept away, a new object is put in place, the engine is
closed, or nothing on the heap happens at all. A property that every such change
keeps is kept by every request, so that an invariant has only the changes to look
at.
-/

namespace CountedHeap

/-- A collection up to the point where the garbage is gone. -/
def Engine.sweep (e : Engine) : Engine :=
  e.heap.enlist.scan.dismiss.garbage.foldl Engine.discard
    { e with heap := e.heap.enlist.scan.dismiss }

/-- One change to an engine, while the host may claim the given objects on the
bridge, and the engine may be closed or not. A table or an array is charged for as it changes. -/
inductive Engine.Change (claimed : Set Handle) (closes : Prop) : Engine → Engine → Prop
  | aside {e e' : Engine} (heap : e'.heap = e.heap) (made : e'.made = e.made)
      (finalized : e'.finalized = e.finalized) (finalizers : e'.finalizers = e.finalizers)
      (isClosed : e'.isClosed = e.isClosed) : Change claimed closes e e'
  | recount {e : Engine} (h : Handle) (g : Object → Int) :
      Change claimed closes e (e.updateObject h fun o => { o with count := g o })
  | claim {e : Engine} {h : Handle} (mem : h ∈ claimed) (g : Object → Int) :
      Change claimed closes e (e.updateObject h fun o => { o.adopt with count := g o })
  | lengthen {e : Engine} {h : Handle} {o : Object} {f : Payload → Payload} {n : Nat}
      (found : e.heap.object? h = some o) (bare : (f o.payload).bare = o.payload.bare)
      (size : (f o.payload).size = o.payload.size + n) :
      Change claimed closes e ((e.updatePayload (.reference h) f).grow n)
  | shorten {e : Engine} {h : Handle} {o : Object} {f : Payload → Payload} {n : Nat}
      (found : e.heap.object? h = some o) (bare : (f o.payload).bare = o.payload.bare)
      (size : (f o.payload).size + n = o.payload.size) :
      Change claimed closes e ((e.updatePayload (.reference h) f).shrink n)
  | dispose {e : Engine} (h : Handle) : Change claimed closes e (e.dispose h).2
  | sweep {e : Engine} : Change claimed closes e e.sweep
  | place {e : Engine} {classId : ClassId} {payload : Payload} (hopen : e.isClosed = false)
      (fits : payload.Fits (ObjectClass.ofId classId)) :
      Change claimed closes e (e.place classId payload).2
  | close {e : Engine} (closing : closes) :
      Change claimed closes e { e.clear with diagnostics := #[], isClosed := true }

/-- A chain of changes. -/
def Engine.Changes (claimed : Set Handle) (closes : Prop) : Engine → Engine → Prop :=
  Relation.ReflTransGen (Engine.Change claimed closes)

section

variable {C : Set Handle} {K : Prop} {e e' e'' : Engine} {h : Handle} {v : Value}

theorem Engine.Changes.refl (e : Engine) : Engine.Changes C K e e :=
  Relation.ReflTransGen.refl

theorem Engine.Changes.trans (first : Engine.Changes C K e e') (later : Engine.Changes C K e' e'') :
    Engine.Changes C K e e'' :=
  Relation.ReflTransGen.trans first later

theorem Engine.Change.single (change : Engine.Change C K e e') : Engine.Changes C K e e' :=
  Relation.ReflTransGen.single change

/-- Whatever every change keeps is kept by a chain of changes. -/
theorem Engine.Changes.keep {P : Engine → Prop} (changes : Engine.Changes C K e e')
    (step : ∀ {e₁ e₂}, Engine.Change C K e₁ e₂ → P e₁ → P e₂) (start : P e) : P e' := by
  induction changes with
  | refl => exact start
  | tail _ change ih => exact step change ih

/-- A change beside the heap and the notes about it. -/
theorem Engine.changes_aside
    (same : (e'.heap, e'.made, e'.finalized, e'.finalizers, e'.isClosed) =
      (e.heap, e.made, e.finalized, e.finalizers, e.isClosed)) : Engine.Changes C K e e' := by
  simp only [Prod.mk.injEq] at same
  obtain ⟨heap, made, finalized, finalizers, isClosed⟩ := same
  exact (Engine.Change.aside heap made finalized finalizers isClosed).single

theorem Engine.changes_record {d : Diagnostic} : Engine.Changes C K e (e.record d) :=
  Engine.changes_aside rfl

/-! ### Counting -/

theorem Engine.changes_checkCount (n : Int) : Engine.Changes C K e (e.checkCount n) := by
  rw [Engine.checkCount]
  split
  · exact .refl e
  · exact Engine.changes_aside rfl

theorem Engine.changes_addReference : Engine.Changes C K e (e.addReference h) := by
  rw [Engine.addReference]
  split
  · exact (Engine.changes_checkCount _).trans
      (Engine.Change.recount h fun o => wrapCount (o.count + 1)).single
  · exact Engine.changes_aside rfl

theorem Engine.changes_dropReference : Engine.Changes C K e (e.dropReference h).2 := by
  rw [Engine.dropReference]
  split
  · split
    · exact (Engine.Change.recount h fun o => o.count - 1).single
    · exact Engine.changes_aside rfl
  · exact Engine.changes_aside rfl

theorem Engine.changes_drain (queue : List Handle) : Engine.Changes C K e (e.drain queue) := by
  fun_induction Engine.drain e queue with
  | case1 e => exact .refl e
  | case2 e h rest zeroed e' step ih =>
      have first : Engine.Changes C K e (e.dispose h).2 := (Engine.Change.dispose h).single
      rw [step] at first
      exact first.trans ih

theorem Engine.changes_queueZero : Engine.Changes C K e (e.queueZero h) := by
  have joined : Engine.Changes C K e (e.join [h]) := Engine.changes_aside rfl
  rw [Engine.queueZero]
  split
  · exact joined
  · have begun : Engine.Changes C K (e.join [h]) ((e.join [h]).setDraining true) :=
      Engine.changes_aside rfl
    rw [Engine.workOff_eq]
    exact ((joined.trans begun).trans (Engine.changes_drain _)).trans (Engine.changes_aside rfl)

theorem Engine.changes_releaseReference : Engine.Changes C K e (e.releaseReference h) := by
  have first : Engine.Changes C K e (e.dropReference h).2 := Engine.changes_dropReference
  rw [Engine.releaseReference]
  split <;> rename_i e' drop <;> rw [drop] at first
  · exact first.trans Engine.changes_queueZero
  · exact first

theorem Engine.changes_relinquish (mem : h ∈ C) :
    Engine.Changes C K e (e.relinquish (.reference h)).2 := by
  rw [Engine.relinquish]
  simp only [Value.handle?]
  split
  · exact Engine.changes_aside rfl
  · rename_i o found
    have moved := (Engine.changes_checkCount (C := C) (K := K) (e := e) (o.count - 1)).trans
      (Engine.Change.claim mem fun _ => wrapCount (o.count - 1)).single
    refine moved.trans ?_
    rw [Engine.afterRelinquish]
    split
    · exact Engine.changes_queueZero
    · split
      · exact Engine.changes_aside rfl
      · exact .refl _

theorem Engine.changes_foldl {α : Type} {f : Engine → α → Engine} (as : List α)
    (step : ∀ e a, Engine.Changes C K e (f e a)) : Engine.Changes C K e (as.foldl f e) := by
  induction as generalizing e with
  | nil => exact .refl e
  | cons a rest ih => exact (step e a).trans ih

/-! ### Collecting and allocating -/

theorem Engine.changes_collect : Engine.Changes C K e e.collect.2 := by
  rw [Engine.collect]
  split
  · exact .refl e
  · have checked : Engine.Changes C K e (if e.heap.hasDangling then e.stray else e) := by
      split
      · exact Engine.changes_aside rfl
      · exact .refl e
    dsimp only
    generalize (if e.heap.hasDangling then e.stray else e) = e₁ at checked
    have begun : Engine.Changes C K e (e₁.setCollecting true) :=
      checked.trans (Engine.changes_aside rfl)
    have swept : Engine.Changes C K (e₁.setCollecting true) _ := Engine.Change.sweep.single
    exact ((begun.trans swept).trans
      (Engine.changes_foldl _ fun _ _ => Engine.changes_releaseReference)).trans
        (Engine.changes_aside rfl)

end

end CountedHeap
