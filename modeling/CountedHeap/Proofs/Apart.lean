import CountedHeap.Proofs.Requests

/-!
Requests that are about no context. Whatever a host does with values, properties and
references leaves every context as it is and an open engine open, even where it ends
objects on which contexts hold references. Nor does any request take back a note that
an object was named that is gone: once an access has strayed, the engine says so for
good.
-/

namespace CountedHeap

/-- What work apart from the contexts leaves as it is. -/
structure Engine.Apart (e e' : Engine) : Prop where
  contexts : e'.contexts = e.contexts
  isClosed : e'.isClosed = e.isClosed
  strayed : e.breaches.strayAccess = true → e'.breaches.strayAccess = true

section

variable {e e' e'' : Engine} {h : Handle} {v proto : Value} {c : ContextId} {classId : ClassId}
  {payload : Payload}

theorem Engine.Apart.refl (e : Engine) : e.Apart e :=
  ⟨rfl, rfl, id⟩

theorem Engine.Apart.trans (first : e.Apart e') (later : e'.Apart e'') : e.Apart e'' :=
  ⟨later.contexts.trans first.contexts, later.isClosed.trans first.isClosed,
    fun strayed => later.strayed (first.strayed strayed)⟩

/-- A change that touches neither the contexts nor the notes about accesses. -/
theorem Engine.apart_aside
    (same : (e'.contexts, e'.isClosed, e'.breaches.strayAccess) =
      (e.contexts, e.isClosed, e.breaches.strayAccess)) : e.Apart e' := by
  simp only [Prod.mk.injEq] at same
  obtain ⟨contexts, isClosed, stray⟩ := same
  exact ⟨contexts, isClosed, fun strayed => stray.trans strayed⟩

theorem Engine.apart_stray : e.Apart e.stray :=
  ⟨rfl, rfl, fun _ => rfl⟩

theorem Engine.apart_checkCount (n : Int) : e.Apart (e.checkCount n) := by
  rw [Engine.checkCount]
  split
  · exact .refl e
  · exact Engine.apart_aside rfl

theorem Engine.heapWork_apart : Engine.HeapWork Engine.Apart where
  refl := .refl
  trans := .trans
  heap _ _ := Engine.apart_aside rfl
  finalized _ _ := Engine.apart_aside rfl
  surplus _ _ _ := Engine.apart_aside rfl
  stray _ := Engine.apart_stray
  doing _ _ := Engine.apart_aside rfl

/-! ### Counting -/

theorem Engine.apart_addReference : e.Apart (e.addReference h) := by
  rw [Engine.addReference]
  split
  · exact (Engine.apart_checkCount _).trans (Engine.apart_aside rfl)
  · exact Engine.apart_stray

theorem Engine.apart_retain : e.Apart (e.retain v) := by
  rw [Engine.retain]
  split
  · exact Engine.apart_addReference
  · exact .refl e

theorem Engine.apart_release : e.Apart (e.release v) :=
  Engine.heapWork_apart.slotWork.release e v

theorem Engine.apart_releaseAll (vs : List Value) : e.Apart (e.releaseAll vs) :=
  Engine.heapWork_apart.slotWork.releaseAll e vs

theorem Engine.apart_adopt : e.Apart (e.adopt v) := by
  rw [Engine.adopt]
  split
  · have claimed (h : Handle) : e.Apart (e.updateObject h Object.adopt) := Engine.apart_aside rfl
    exact (claimed _).trans Engine.apart_addReference
  · exact .refl e

theorem Engine.apart_relinquish : e.Apart (e.relinquish v).2 := by
  rw [Engine.relinquish]
  split
  · exact .refl e
  · rename_i h named
    split
    · exact Engine.apart_stray
    · rename_i o found
      have moved : e.Apart ((e.checkCount (o.count - 1)).updateObject h fun o' =>
          { o'.adopt with count := wrapCount (o.count - 1) }) :=
        (Engine.apart_checkCount (o.count - 1)).trans (Engine.apart_aside rfl)
      refine moved.trans ?_
      dsimp only
      rw [Engine.afterRelinquish]
      split
      · exact Engine.heapWork_apart.slotWork.queueZero _ h
      · split
        · exact Engine.apart_aside rfl
        · exact .refl _

/-! ### Collecting and allocating -/

theorem Engine.apart_collect : e.Apart e.collect.2 :=
  Engine.heapWork_apart.slotWork.collect e

theorem Engine.apart_makeRoom (size : Nat) : e.Apart (e.makeRoom size) := by
  have threshold : e.Apart e.collectAtThreshold := by
    rw [Engine.collectAtThreshold]
    split
    · exact Engine.apart_collect.trans (Engine.apart_aside rfl)
    · exact .refl e
  rw [Engine.makeRoom]
  split
  · exact threshold.trans Engine.apart_collect
  · exact threshold

theorem Engine.apart_allocate : e.Apart (e.allocate classId payload).2 := by
  have given (e : Engine) : e.Apart (e.abandon payload) :=
    Engine.heapWork_apart.slotWork.foldl Engine.heapWork_apart.slotWork.releaseReference e _
  have room : e.Apart (e.makeRoom (headerSize + payload.size)) := Engine.apart_makeRoom _
  rw [Engine.allocate]
  split
  · exact given e
  · dsimp only
    split
    · exact room.trans (given _)
    · exact room.trans (Engine.apart_aside rfl)

theorem Engine.apart_allocateWithProto :
    e.Apart (e.allocateWithProto proto classId payload).2 :=
  Engine.apart_retain.trans Engine.apart_allocate

theorem Engine.apart_makeWithProto : e.Apart (e.makeWithProto proto classId).2 := by
  rw [Engine.makeWithProto]
  split
  · exact Engine.apart_allocateWithProto
  · exact .refl e

theorem Engine.apart_makeHost {cookie : UInt64} :
    e.Apart (e.makeHost proto classId cookie).2 := by
  rw [Engine.makeHost]
  split
  · exact Engine.apart_allocateWithProto
  · exact .refl e

theorem Engine.apart_makeNumber {d : Binary64} : e.Apart (e.makeNumber d).2 := by
  rw [Engine.makeNumber]
  split
  · exact .refl e
  · exact Engine.apart_allocate

/-! ### Objects of a context -/

theorem Engine.apart_globalOf : e.Apart (e.globalOf c).2 := by
  rw [Engine.globalOf]
  split
  · exact Engine.apart_retain
  · exact .refl e

theorem Engine.apart_takeProto : e.Apart (e.takeProto c classId).2 := by
  rw [Engine.takeProto]
  split
  · exact Engine.apart_retain
  · exact .refl e

theorem Engine.apart_makeOfClass : e.Apart (e.makeOfClass c classId).2 := by
  rw [Engine.makeOfClass]
  split
  · exact Engine.apart_makeWithProto
  · exact .refl e

theorem Engine.apart_makeFunctionIn {name : String} : e.Apart (e.makeFunctionIn c name).2 := by
  have taken : e.Apart (e.takeProto c ClassId.function).2 := Engine.apart_takeProto
  rw [Engine.makeFunctionIn]
  split <;> rename_i step <;> rw [step] at taken
  · exact taken
  · exact (taken.trans Engine.apart_allocateWithProto).trans Engine.apart_release

/-! ### Properties -/

theorem Engine.apart_updatePayload {f : Payload → Payload} : e.Apart (e.updatePayload v f) := by
  rw [Engine.updatePayload]
  split
  · exact Engine.apart_aside rfl
  · exact .refl e

theorem Engine.apart_store {target : Value} {key : String} :
    e.Apart (e.store target key v).2 := by
  rw [Engine.store]
  split
  · exact Engine.apart_release
  · exact Engine.apart_updatePayload.trans Engine.apart_release
  · exact Engine.apart_updatePayload.trans (Engine.apart_aside rfl)

theorem Engine.apart_fetch {key : String} : e.Apart (e.fetch v key).2 := by
  rw [Engine.fetch]
  split
  · exact .refl e
  · split
    · exact .refl e
    · split
      · exact Engine.apart_retain
      · exact .refl e

theorem Engine.apart_erase {key : String} : e.Apart (e.erase v key).2 := by
  rw [Engine.erase]
  split
  · exact .refl e
  · have erased : e.Apart ((e.updatePayload v fun p =>
        p.setProperties (eraseKey key p.properties)).shrink (propertySize key)) :=
      Engine.apart_updatePayload.trans (Engine.apart_aside rfl)
    exact erased.trans Engine.apart_release

theorem Engine.apart_append {target : Value} : e.Apart (e.append target v).2 := by
  rw [Engine.append]
  split
  · exact Engine.apart_updatePayload.trans (Engine.apart_aside rfl)
  · exact Engine.apart_release

theorem Engine.apart_makeKeyTable (keys : List String) (made : Array KeyEntry) :
    e.Apart (e.makeKeyTable made keys).2 := by
  induction keys generalizing e made with
  | nil => exact .refl e
  | cons key rest ih =>
      have first : e.Apart (e.makeString key).2 := Engine.apart_allocate
      rw [Engine.makeKeyTable]
      split <;> rename_i step <;> rw [step] at first
      · exact first.trans (ih _)
      · exact first.trans (Engine.apart_releaseAll _)

theorem Engine.apart_construct {constructor : Value} :
    e.Apart (e.construct c constructor classId).2 := by
  have fetched : e.Apart (e.fetch constructor "prototype").2 := Engine.apart_fetch
  rw [Engine.construct]
  split
  · exact .refl e
  · split
    · exact Engine.apart_makeOfClass
    · dsimp only
      split
      · exact (fetched.trans Engine.apart_makeWithProto).trans Engine.apart_release
      · exact (fetched.trans Engine.apart_release).trans Engine.apart_makeOfClass

/-! ### Requests -/

/-- Whether a request may change a context, or the set of contexts. -/
def Action.concernsContexts : Action → Bool
  | .openContext _ => true
  | .shareContext _ => true
  | .leaveContext _ => true
  | .register _ _ => true
  | .unregister _ _ => true
  | .shutdown => true
  | _ => false

theorem Engine.apart_answered {α : Type} {answer : α → Answer} {r : Except Refusal α × Engine}
    (apart : e.Apart r.2) : e.Apart (answered answer r).2 := by
  rcases r with ⟨refusal | a, e'⟩
  · exact apart
  · exact apart

/-- A request that is about no context is carried out apart from them. -/
theorem Engine.apart_carryOut {a : Action} (other : a.concernsContexts = false) :
    e.Apart (e.carryOut a).2 := by
  cases a with
  | openContext slots => cases other
  | shareContext c => cases other
  | leaveContext c => cases other
  | register c v => cases other
  | unregister c v => cases other
  | shutdown => cases other
  | context c => exact Engine.apart_answered (r := (e.activeContext c, e)) (.refl e)
  | globalOf c => exact Engine.apart_answered Engine.apart_globalOf
  | takeProto c classId => exact Engine.apart_answered Engine.apart_takeProto
  | makeObjectIn c => exact Engine.apart_answered Engine.apart_makeOfClass
  | makeArrayIn c => exact Engine.apart_answered Engine.apart_makeOfClass
  | makeOfClass c classId => exact Engine.apart_answered Engine.apart_makeOfClass
  | makeWithProto proto classId => exact Engine.apart_answered Engine.apart_makeWithProto
  | construct c constructor classId => exact Engine.apart_answered Engine.apart_construct
  | makePlain proto => exact Engine.apart_answered Engine.apart_makeWithProto
  | makeArray proto items => exact Engine.apart_answered Engine.apart_allocateWithProto
  | makeFunction name proto => exact Engine.apart_answered Engine.apart_allocateWithProto
  | makeFunctionIn c name => exact Engine.apart_answered Engine.apart_makeFunctionIn
  | makeHost proto classId cookie => exact Engine.apart_answered Engine.apart_makeHost
  | makeString text => exact Engine.apart_answered Engine.apart_allocate
  | boxNumber d => exact Engine.apart_answered Engine.apart_allocate
  | makeNumber d => exact Engine.apart_answered Engine.apart_makeNumber
  | store target key v => exact Engine.apart_answered Engine.apart_store
  | fetch target key => exact Engine.apart_fetch
  | erase target key => exact Engine.apart_erase
  | append target v => exact Engine.apart_answered Engine.apart_append
  | keyTableOf target => exact Engine.apart_makeKeyTable _ _
  | dropKeyTable table => exact Engine.apart_releaseAll _
  | retain v => exact Engine.apart_retain
  | release v => exact Engine.apart_release
  | adopt v => exact Engine.apart_adopt
  | relinquish v => exact Engine.apart_relinquish
  | hold v => exact Engine.apart_adopt
  | letGo held => exact Engine.apart_relinquish
  | collect => exact Engine.apart_collect
  | limitMemory limit => exact Engine.apart_aside rfl
  | setThreshold threshold => exact Engine.apart_aside rfl
  | setFinalizer classId f =>
      obtain ⟨finalizers, result⟩ := e.setFinalizer_eq classId f
      rw [result]
      exact Engine.apart_aside rfl
  | flushDiagnostics => exact Engine.apart_aside rfl
  | _ => exact .refl e

/-- A request may be noted as straying before it is carried out. -/
theorem Engine.perform_eq_carryOut (e : Engine) (a : Action) :
    ∃ e₁, e.Apart e₁ ∧ e₁.heap = e.heap ∧ e.perform a = e₁.carryOut a := by
  rw [Engine.perform]
  split
  · exact ⟨e, .refl e, rfl, rfl⟩
  · exact ⟨e.stray, Engine.apart_stray, rfl, rfl⟩

end

end CountedHeap
