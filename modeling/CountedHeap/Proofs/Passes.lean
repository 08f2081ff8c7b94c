import CountedHeap.Proofs.Requests
import CountedHeap.Proofs.Accounting
import CountedHeap.Proofs.Lifecycle

/-!
The collections in a run. A request may collect before each object that it makes, once
because there are too many live objects and once more because there is no room, so that
a single request collects any number of times. The module gives the heaps on which the
collections of a request begin, in order, by going through the request as it is carried
out. Between them the request makes its objects and does other things, which neither make
objects nor move the threshold.
-/

namespace CountedHeap

/-! ### Where collections begin -/

/-- The heap on which a collection begins, unless one is under way. -/
def Engine.pass (e : Engine) : List Heap :=
  if e.work.collecting then [] else [e.heap]

def Engine.passesAtThreshold (e : Engine) : List Heap :=
  if e.threshold ≤ e.heap.liveCount then e.pass else []

/-- While room is made for `size` more bytes. -/
def Engine.passesForRoom (e : Engine) (size : Nat) : List Heap :=
  e.passesAtThreshold ++
    if (e.collectAtThreshold.exceeded? size).isSome then e.collectAtThreshold.pass else []

def Engine.passesOfAllocate (e : Engine) (payload : Payload) : List Heap :=
  if e.isClosed then [] else e.passesForRoom (headerSize + payload.size)

def Engine.passesWithProto (e : Engine) (proto : Value) (payload : Payload) : List Heap :=
  (e.retain proto).passesOfAllocate payload

def Engine.passesOfMake (e : Engine) (proto : Value) (classId : ClassId) : List Heap :=
  match Payload.empty? (ObjectClass.ofId classId) proto with
  | some payload => e.passesWithProto proto payload
  | none => []

def Engine.passesOfHost (e : Engine) (proto : Value) (classId : ClassId) (cookie : UInt64) :
    List Heap :=
  if classId.isHost then e.passesWithProto proto (.host proto [] cookie) else []

def Engine.passesOfNumber (e : Engine) (d : Binary64) : List Heap :=
  match Word.ofNumber? d with
  | some _ => []
  | none => e.passesOfAllocate (.number d)

def Engine.passesOfClass (e : Engine) (c : ContextId) (classId : ClassId) : List Heap :=
  match e.protoFor c classId with
  | .ok proto => e.passesOfMake proto classId
  | .error _ => []

def Engine.passesOfFunction (e : Engine) (c : ContextId) (name : String) : List Heap :=
  match e.takeProto c ClassId.function with
  | (.error _, _) => []
  | (.ok proto, e) => e.passesWithProto proto (.function proto name [])

def Engine.passesOfConstruct (e : Engine) (c : ContextId) (constructor : Value)
    (classId : ClassId) : List Heap :=
  match e.activeContext c with
  | .error _ => []
  | .ok _ =>
    if constructor.isUndefined then e.passesOfClass c classId
    else
      match e.fetch constructor "prototype" with
      | (proto, e) =>
        if e.carriesProperties proto then e.passesOfMake proto classId
        else (e.release proto).passesOfClass c classId

def Engine.passesOfKeyTable (e : Engine) : List String → List Heap
  | [] => []
  | key :: rest =>
    e.passesOfAllocate (.string key) ++
      match e.makeString key with
      | (.ok _, e) => e.passesOfKeyTable rest
      | (.error _, _) => []

def Engine.passesOfPrototypes (e : Engine) (base : Value) : Nat → List Heap
  | 0 => []
  | n + 1 =>
    e.passesOfMake base ClassId.object ++
      match e.makePlain base with
      | (.ok _, e) => e.passesOfPrototypes base n
      | (.error _, _) => []

def Engine.passesOfContext (e : Engine) (requested : Nat) : List Heap :=
  if e.isClosed then []
  else
    e.passesOfMake Value.null ClassId.object ++
      match e.makePlain Value.null with
      | (.error _, _) => []
      | (.ok base, e) =>
        e.passesOfPrototypes base (prototypeSlots requested - 1) ++
          match e.makePrototypes base #[base] (prototypeSlots requested - 1) with
          | (.error _, _) => []
          | (.ok _, e) => e.passesWithProto base (.plain base [])

def Engine.passesOfShutdown (e : Engine) : List Heap :=
  if e.isClosed then [] else (e.openContexts.foldl Engine.tearDown e).pass

/-- The heaps on which the collections of a request begin. -/
def Engine.passesOf (e : Engine) : Action → List Heap
  | .openContext slots => e.passesOfContext slots
  | .makeObjectIn c => e.passesOfClass c ClassId.object
  | .makeArrayIn c => e.passesOfClass c ClassId.array
  | .makeOfClass c classId => e.passesOfClass c classId
  | .makeWithProto proto classId => e.passesOfMake proto classId
  | .construct c constructor classId => e.passesOfConstruct c constructor classId
  | .makePlain proto => e.passesOfMake proto ClassId.object
  | .makeArray proto items => e.passesWithProto proto (.array proto items)
  | .makeFunction name proto => e.passesWithProto proto (.function proto name [])
  | .makeFunctionIn c name => e.passesOfFunction c name
  | .makeHost proto classId cookie => e.passesOfHost proto classId cookie
  | .makeString text => e.passesOfAllocate (.string text)
  | .boxNumber d => e.passesOfAllocate (.number d)
  | .makeNumber d => e.passesOfNumber d
  | .keyTableOf target => e.passesOfKeyTable (e.keysOf target)
  | .collect => e.pass
  | .shutdown => e.passesOfShutdown
  | _ => []

/-- The heaps on which the collections of a run begin. -/
def Engine.passes (e : Engine) : List Action → List Heap
  | [] => []
  | a :: rest =>
    (if a.arguments.all e.isValid then e else e.stray).passesOf a ++ (e.perform a).2.passes rest

/-! ### The course of a request -/

/-- What the pace of collections depends on, beside the number of live objects. -/
def Engine.pace (e : Engine) : Array Object × Nat × Nat :=
  (e.made, e.threshold, e.limits.threshold)

/-- An engine that goes through collections on these heaps: it makes an object, or
collects, or does something else in which no object is made and no threshold moves. -/
inductive Engine.Course : List Heap → Engine → Engine → Prop
  | refl (e : Engine) : Course [] e e
  | calm {passes : List Heap} {e e' e'' : Engine} (first : Course passes e e')
      (moves : Engine.Moves Set.univ True e' e'') (pace : e''.pace = e'.pace) : Course passes e e''
  | attach {passes : List Heap} {e e' : Engine} (first : Course passes e e')
      (finalizers : List (ClassId × Finalizer)) :
      Course passes e { e' with finalizers := finalizers }
  | allocate {passes : List Heap} {e e' : Engine} {classId : ClassId} {payload : Payload}
      (first : Course passes e e') (fits : payload.Fits (ObjectClass.ofId classId)) :
      Course (passes ++ e'.passesOfAllocate payload) e (e'.allocate classId payload).2
  | collect {passes : List Heap} {e e' : Engine} (first : Course passes e e') :
      Course (passes ++ e'.pass) e e'.collect.2

section

variable {e e' e'' : Engine} {passes later : List Heap} {h : Handle} {v : Value} {c : ContextId}
  {classId : ClassId} {payload : Payload} {proto : Value}

theorem Engine.Course.trans (first : Engine.Course passes e e')
    (second : Engine.Course later e' e'') : Engine.Course (passes ++ later) e e'' := by
  induction second with
  | refl e' => rwa [List.append_nil]
  | calm _ moves pace ih => exact (ih first).calm moves pace
  | attach _ finalizers ih => exact (ih first).attach finalizers
  | allocate _ fits ih =>
      rw [← List.append_assoc]
      exact (ih first).allocate fits
  | collect _ ih =>
      rw [← List.append_assoc]
      exact (ih first).collect

/-- Nothing is made and no threshold moves. -/
structure Engine.Calm (e e' : Engine) : Prop where
  moves : Engine.Moves Set.univ True e e'
  pace : e'.pace = e.pace

theorem Engine.Calm.course (calm : e.Calm e') : Engine.Course [] e e' :=
  (Engine.Course.refl e).calm calm.moves calm.pace

theorem Engine.Course.andCalm (first : Engine.Course passes e e') (calm : e'.Calm e'') :
    Engine.Course passes e e'' :=
  first.calm calm.moves calm.pace

theorem Engine.Calm.refl (e : Engine) : e.Calm e :=
  ⟨.refl e, rfl⟩

theorem Engine.Calm.trans (first : e.Calm e') (second : e'.Calm e'') : e.Calm e'' :=
  ⟨first.moves.trans second.moves, second.pace.trans first.pace⟩

theorem Engine.Calm.foldl {α : Type} {f : Engine → α → Engine}
    (step : ∀ (e : Engine) a, e.Calm (f e a))
    (as : List α) : e.Calm (as.foldl f e) := by
  induction as generalizing e with
  | nil => exact .refl e
  | cons a rest ih => exact (step e a).trans ih

/-! ### Calm operations -/

theorem Engine.heapWork_pace : Engine.HeapWork fun e e' => e'.pace = e.pace where
  refl _ := rfl
  trans first later := later.trans first
  heap _ _ := rfl
  finalized _ _ := rfl
  surplus _ _ _ := rfl
  stray _ := rfl
  doing _ _ := rfl

theorem Engine.calm_aside
    (same : (e'.heap, e'.made, e'.finalized, e'.finalizers, e'.isClosed, e'.work,
        e'.breaches.countWrapped) =
      (e.heap, e.made, e.finalized, e.finalizers, e.isClosed, e.work,
        e.breaches.countWrapped))
    (pace : e'.pace = e.pace) : e.Calm e' :=
  ⟨(Engine.turns_aside same).moves, pace⟩

theorem Engine.calm_record {d : Diagnostic} : e.Calm (e.record d) :=
  Engine.calm_aside rfl rfl

theorem Engine.calm_updateContext {f : Context → Context} : e.Calm (e.updateContext c f) :=
  Engine.calm_aside rfl rfl

theorem Engine.pace_checkCount (n : Int) : (e.checkCount n).pace = e.pace := by
  rw [Engine.checkCount]
  split <;> rfl

theorem Engine.pace_addReference : (e.addReference h).pace = e.pace := by
  rw [Engine.addReference]
  split
  · exact Engine.pace_checkCount _
  · rfl

theorem Engine.calm_retain : e.Calm (e.retain v) := by
  refine ⟨Engine.turns_retain.moves, ?_⟩
  rw [Engine.retain]
  split
  · exact Engine.pace_addReference
  · rfl

theorem Engine.calm_release : e.Calm (e.release v) :=
  ⟨Engine.turns_release.moves, Engine.heapWork_pace.slotWork.release e v⟩

theorem Engine.calm_releaseAll (vs : List Value) : e.Calm (e.releaseAll vs) :=
  ⟨(Engine.turns_releaseAll vs).moves, Engine.heapWork_pace.slotWork.releaseAll e vs⟩

theorem Engine.calm_adopt : e.Calm (e.adopt v) := by
  refine ⟨(Engine.turns_adopt fun _ _ => Set.mem_univ _).moves, ?_⟩
  rw [Engine.adopt]
  split
  · exact Engine.pace_addReference
  · rfl

theorem Engine.calm_relinquish : e.Calm (e.relinquish v).2 := by
  refine ⟨(Engine.turns_relinquish fun _ _ => Set.mem_univ _).moves, ?_⟩
  rw [Engine.relinquish]
  split
  · rfl
  · split
    · rfl
    · rename_i h _ _ o _
      have checked : ((e.checkCount (o.count - 1)).updateObject h fun o' =>
          { o'.adopt with count := wrapCount (o.count - 1) }).pace = e.pace :=
        Engine.pace_checkCount _
      dsimp only
      rw [Engine.afterRelinquish]
      split
      · exact (Engine.heapWork_pace.slotWork.queueZero _ h).trans checked
      · split
        · exact checked
        · exact checked

theorem Engine.calm_globalOf : e.Calm (e.globalOf c).2 := by
  rw [Engine.globalOf]
  split
  · exact Engine.calm_retain
  · exact .refl e

theorem Engine.calm_takeProto : e.Calm (e.takeProto c classId).2 := by
  rw [Engine.takeProto]
  split
  · exact Engine.calm_retain
  · exact .refl e

theorem Engine.calm_fetch {key : String} : e.Calm (e.fetch v key).2 := by
  rw [Engine.fetch]
  split
  · exact .refl e
  · split
    · exact .refl e
    · split
      · exact Engine.calm_retain
      · exact .refl e

theorem Engine.pace_updatePayload {f : Payload → Payload} :
    (e.updatePayload v f).pace = e.pace := by
  rw [Engine.updatePayload]
  split <;> rfl

theorem Engine.calm_store {key : String} {target : Value} : e.Calm (e.store target key v).2 := by
  refine ⟨Engine.moves_store, ?_⟩
  rw [Engine.store]
  split
  · exact Engine.heapWork_pace.slotWork.release e v
  · exact (Engine.heapWork_pace.slotWork.release _ _).trans Engine.pace_updatePayload
  · exact Engine.pace_updatePayload

theorem Engine.calm_erase {key : String} : e.Calm (e.erase v key).2 := by
  refine ⟨Engine.moves_erase, ?_⟩
  rw [Engine.erase]
  split
  · rfl
  · exact (Engine.heapWork_pace.slotWork.release _ _).trans Engine.pace_updatePayload

theorem Engine.calm_append {target : Value} : e.Calm (e.append target v).2 := by
  refine ⟨Engine.moves_append, ?_⟩
  rw [Engine.append]
  split
  · exact Engine.pace_updatePayload
  · exact Engine.heapWork_pace.slotWork.release e v

theorem Engine.calm_register : e.Calm (e.register c v).2 := by
  rw [Engine.register]
  split
  · split
    · exact Engine.calm_retain.trans Engine.calm_updateContext
    · exact .refl e
  · exact .refl e
  · exact .refl e

theorem Engine.calm_unregister : e.Calm (e.unregister c v).2 := by
  rw [Engine.unregister]
  split
  · exact .refl e
  · split
    · exact .refl e
    · exact Engine.calm_updateContext.trans Engine.calm_release

theorem Engine.calm_releaseRegistered : e.Calm (e.releaseRegistered v) := by
  rw [Engine.releaseRegistered]
  split
  · exact Engine.calm_release
  · rw [Engine.leaveBehind]
    split
    · exact Engine.calm_aside rfl rfl
    · exact .refl e

theorem Engine.calm_tearDown : e.Calm (e.tearDown c) := by
  rw [Engine.tearDown]
  split
  · exact .refl e
  · rename_i ctx found
    split
    · have emptied : e.Calm (e.updateContext c Context.emptied) := Engine.calm_updateContext
      have registered (e : Engine) : e.Calm (ctx.registered.foldl Engine.releaseRegistered e) := by
        rw [← Array.foldl_toList]
        exact .foldl (fun _ _ => Engine.calm_releaseRegistered) _
      have vacated := ((emptied.trans (registered _)).trans
        (Engine.calm_release (v := ctx.global))).trans
          (Engine.calm_releaseAll ctx.prototypes.toList)
      exact vacated.trans Engine.calm_updateContext
    · exact .refl e

theorem Engine.calm_checkCount (n : Int) : e.Calm (e.checkCount n) :=
  ⟨(Engine.Turn.check n).single.moves, Engine.pace_checkCount n⟩

theorem Engine.calm_shareContext : e.Calm (e.shareContext c) := by
  rw [Engine.shareContext]
  split
  · exact (Engine.calm_checkCount _).trans Engine.calm_updateContext
  · exact Engine.calm_aside rfl rfl

theorem Engine.calm_leaveContext : e.Calm (e.leaveContext c).2 := by
  rw [Engine.leaveContext]
  split
  · exact Engine.calm_aside rfl rfl
  · rename_i ctx active
    have left : e.Calm ((e.checkCount (ctx.count - 1)).updateContext c fun ctx' =>
        { ctx' with count := wrapCount (ctx.count - 1) }) :=
      (Engine.calm_checkCount _).trans Engine.calm_updateContext
    dsimp only
    refine left.trans ?_
    generalize Decision.make c (wrapCount (ctx.count - 1)) .release = decision
    cases decision with
    | proceed => exact Engine.calm_tearDown
    | defer => exact .refl _
    | tolerate d => exact Engine.calm_record.trans Engine.calm_tearDown

/-! ### Requests that make objects -/

theorem Engine.course_allocate (fits : payload.Fits (ObjectClass.ofId classId)) :
    Engine.Course (e.passesOfAllocate payload) e (e.allocate classId payload).2 :=
  (Engine.Course.refl e).allocate fits

theorem Engine.course_allocateWithProto (fits : payload.Fits (ObjectClass.ofId classId)) :
    Engine.Course (e.passesWithProto proto payload) e
      (e.allocateWithProto proto classId payload).2 :=
  Engine.calm_retain.course.allocate fits

theorem Engine.course_makeWithProto (proto : Value) (classId : ClassId) :
    Engine.Course (e.passesOfMake proto classId) e (e.makeWithProto proto classId).2 := by
  cases made : Payload.empty? (ObjectClass.ofId classId) proto with
  | some payload =>
      simp only [Engine.passesOfMake, Engine.makeWithProto, made]
      exact Engine.course_allocateWithProto (Payload.fits_empty? made)
  | none =>
      simp only [Engine.passesOfMake, Engine.makeWithProto, made]
      exact .refl e

theorem Engine.course_makeHost {cookie : UInt64} :
    Engine.Course (e.passesOfHost proto classId cookie) e (e.makeHost proto classId cookie).2 := by
  by_cases host : classId.isHost = true
  · simp only [Engine.passesOfHost, Engine.makeHost, host, if_true]
    exact Engine.course_allocateWithProto ((ClassId.isHost_iff classId).1 host)
  · simp only [Engine.passesOfHost, Engine.makeHost, host]
    exact .refl e

theorem Engine.course_makeNumber {d : Binary64} :
    Engine.Course (e.passesOfNumber d) e (e.makeNumber d).2 := by
  cases word : Word.ofNumber? d with
  | some w =>
      simp only [Engine.passesOfNumber, Engine.makeNumber, word]
      exact .refl e
  | none =>
      simp only [Engine.passesOfNumber, Engine.makeNumber, word]
      exact Engine.course_allocate rfl

theorem Engine.course_makeOfClass :
    Engine.Course (e.passesOfClass c classId) e (e.makeOfClass c classId).2 := by
  cases found : e.protoFor c classId with
  | ok proto =>
      simp only [Engine.passesOfClass, Engine.makeOfClass, found]
      exact Engine.course_makeWithProto _ _
  | error refusal =>
      simp only [Engine.passesOfClass, Engine.makeOfClass, found]
      exact .refl e

theorem Engine.course_makeFunctionIn {name : String} :
    Engine.Course (e.passesOfFunction c name) e (e.makeFunctionIn c name).2 := by
  have taken : e.Calm (e.takeProto c ClassId.function).2 := Engine.calm_takeProto
  rw [Engine.passesOfFunction, Engine.makeFunctionIn]
  rcases step : e.takeProto c ClassId.function with ⟨refusal | proto, e'⟩ <;> rw [step] at taken
  · exact taken.course
  · have made : Engine.Course (e'.passesWithProto proto (.function proto name [])) e'
        (e'.makeFunction name proto).2 := Engine.course_allocateWithProto rfl
    exact (taken.course.trans made).andCalm Engine.calm_release

theorem Engine.course_construct {constructor : Value} :
    Engine.Course (e.passesOfConstruct c constructor classId) e
      (e.construct c constructor classId).2 := by
  have fetched : e.Calm (e.fetch constructor "prototype").2 := Engine.calm_fetch
  rw [Engine.passesOfConstruct, Engine.construct]
  rcases e.activeContext c with refusal | ctx
  · exact .refl e
  · by_cases undefined : constructor.isUndefined = true
    · simp only [undefined, if_true]
      exact Engine.course_makeOfClass
    · simp only [undefined, Bool.false_eq_true, if_false]
      rcases step : e.fetch constructor "prototype" with ⟨proto, e'⟩
      rw [step] at fetched
      by_cases carries : e'.carriesProperties proto = true
      · simp only [carries, if_true]
        exact (fetched.course.trans (Engine.course_makeWithProto _ _)).andCalm Engine.calm_release
      · simp only [carries, Bool.false_eq_true, if_false]
        exact (fetched.trans Engine.calm_release).course.trans Engine.course_makeOfClass

theorem Engine.course_makeKeyTable (keys : List String) (made : Array KeyEntry) :
    Engine.Course (e.passesOfKeyTable keys) e (e.makeKeyTable made keys).2 := by
  induction keys generalizing e made with
  | nil => exact .refl e
  | cons key rest ih =>
      have first : Engine.Course (e.passesOfAllocate (.string key)) e (e.makeString key).2 :=
        Engine.course_allocate rfl
      rw [Engine.passesOfKeyTable, Engine.makeKeyTable]
      rcases step : e.makeString key with ⟨refusal | atom, e'⟩ <;> rw [step] at first
      · rw [List.append_nil]
        exact first.andCalm (Engine.calm_releaseAll _)
      · exact first.trans (ih _)

theorem Engine.course_makePrototypes (n : Nat) (base : Value) (made : Array Value) :
    Engine.Course (e.passesOfPrototypes base n) e (e.makePrototypes base made n).2 := by
  induction n generalizing e made with
  | zero => exact .refl e
  | succ n ih =>
      have first : Engine.Course (e.passesOfMake base ClassId.object) e (e.makePlain base).2 :=
        Engine.course_makeWithProto _ _
      rw [Engine.passesOfPrototypes, Engine.makePrototypes]
      rcases step : e.makePlain base with ⟨refusal | proto, e'⟩ <;> rw [step] at first
      · rw [List.append_nil]
        exact first.andCalm (Engine.calm_releaseAll _)
      · exact first.trans (ih _)

theorem Engine.course_makeContext {base : Value} {prototypes : Array Value} :
    Engine.Course (e.passesWithProto base (.plain base [])) e
      (e.makeContext base prototypes).2 := by
  have first : Engine.Course (e.passesWithProto base (.plain base [])) e
      (e.allocateWithProto base ClassId.global (.plain base [])).2 :=
    Engine.course_allocateWithProto (.inr rfl)
  rw [Engine.makeContext]
  split <;> rename_i step <;> rw [step] at first
  · exact first.andCalm (Engine.calm_releaseAll _)
  · exact first.andCalm (Engine.calm_aside rfl rfl)

theorem Engine.course_openContext {slots : Nat} :
    Engine.Course (e.passesOfContext slots) e (e.openContext slots).2 := by
  have plain : Engine.Course (e.passesOfMake Value.null ClassId.object) e
      (e.makePlain Value.null).2 := Engine.course_makeWithProto _ _
  rw [Engine.passesOfContext, Engine.openContext]
  by_cases closed : e.isClosed = true
  · simp only [closed, if_true]
    exact .refl e
  · simp only [closed, Bool.false_eq_true, if_false]
    rcases step : e.makePlain Value.null with ⟨refusal | base, e₁⟩ <;> rw [step] at plain
    · simp only [List.append_nil]
      exact plain
    · have more : Engine.Course (e₁.passesOfPrototypes base (prototypeSlots slots - 1)) e₁
          (e₁.makePrototypes base #[base] (prototypeSlots slots - 1)).2 :=
        Engine.course_makePrototypes _ _ _
      refine plain.trans ?_
      dsimp only
      rcases step : e₁.makePrototypes base #[base] (prototypeSlots slots - 1) with
        ⟨refusal | protos, e₂⟩ <;> rw [step] at more
      · simp only [List.append_nil]
        exact more
      · exact more.trans Engine.course_makeContext

theorem Engine.calm_close : e.Calm { e.clear with diagnostics := #[], isClosed := true } := by
  refine ⟨(Engine.Turn.close trivial).single.moves, ?_⟩
  obtain ⟨finalized, result⟩ := e.clear_eq
  rw [result]
  rfl

theorem Engine.course_shutdown : Engine.Course e.passesOfShutdown e e.shutdown.2 := by
  rw [Engine.passesOfShutdown, Engine.shutdown]
  by_cases closed : e.isClosed = true
  · simp only [closed, if_true]
    exact .refl e
  · have torn : e.Calm (e.openContexts.foldl Engine.tearDown e) :=
      .foldl (fun _ _ => Engine.calm_tearDown) _
    have collected := torn.course.collect
    rw [List.nil_append] at collected
    simp only [closed, Bool.false_eq_true, if_false]
    rcases step : (e.openContexts.foldl Engine.tearDown e).collect with ⟨n, e'⟩
    rw [step] at collected
    have reported (residual : List Residual) : e'.Calm
        (if residual.isEmpty then e' else e'.record (.leftBehind residual)) := by
      split
      · exact .refl _
      · exact Engine.calm_record
    exact (collected.andCalm (reported _)).andCalm Engine.calm_close

/-! ### Any request -/

theorem Engine.course_answered {α : Type} {answer : α → Answer} {r : Except Refusal α × Engine}
    (course : Engine.Course passes e r.2) : Engine.Course passes e (answered answer r).2 := by
  rw [snd_answered]
  exact course

/-- A request runs through collections on the heaps that it is said to, and does not move
the threshold but after them, unless it is told to. -/
theorem Engine.course_carryOut {a : Action} (keeps : ∀ n, a ≠ .setThreshold n) :
    Engine.Course (e.passesOf a) e (e.carryOut a).2 := by
  cases a with
  | openContext slots => exact Engine.course_answered Engine.course_openContext
  | shareContext c => exact Engine.calm_shareContext.course
  | leaveContext c => exact Engine.calm_leaveContext.course
  | context c => exact Engine.course_answered (r := (e.activeContext c, e)) (.refl e)
  | globalOf c => exact Engine.course_answered Engine.calm_globalOf.course
  | takeProto c classId => exact Engine.course_answered Engine.calm_takeProto.course
  | makeObjectIn c => exact Engine.course_answered Engine.course_makeOfClass
  | makeArrayIn c => exact Engine.course_answered Engine.course_makeOfClass
  | makeOfClass c classId => exact Engine.course_answered Engine.course_makeOfClass
  | makeWithProto proto classId =>
      exact Engine.course_answered (Engine.course_makeWithProto proto classId)
  | construct c constructor classId => exact Engine.course_answered Engine.course_construct
  | makePlain proto =>
      exact Engine.course_answered (Engine.course_makeWithProto proto ClassId.object)
  | makeArray proto items =>
      exact Engine.course_answered (Engine.course_allocateWithProto rfl)
  | makeFunction name proto =>
      exact Engine.course_answered (Engine.course_allocateWithProto rfl)
  | makeFunctionIn c name => exact Engine.course_answered Engine.course_makeFunctionIn
  | makeHost proto classId cookie => exact Engine.course_answered Engine.course_makeHost
  | makeString text => exact Engine.course_answered (Engine.course_allocate rfl)
  | boxNumber d => exact Engine.course_answered (Engine.course_allocate rfl)
  | makeNumber d => exact Engine.course_answered Engine.course_makeNumber
  | store target key v => exact Engine.course_answered Engine.calm_store.course
  | fetch target key => exact Engine.calm_fetch.course
  | erase target key => exact Engine.calm_erase.course
  | append target v => exact Engine.course_answered Engine.calm_append.course
  | keyTableOf target => exact Engine.course_makeKeyTable _ _
  | dropKeyTable table => exact (Engine.calm_releaseAll _).course
  | retain v => exact Engine.calm_retain.course
  | release v => exact Engine.calm_release.course
  | adopt v => exact Engine.calm_adopt.course
  | relinquish v => exact Engine.calm_relinquish.course
  | hold v => exact Engine.calm_adopt.course
  | letGo held => exact Engine.calm_relinquish.course
  | register c v => exact Engine.course_answered Engine.calm_register.course
  | unregister c v => exact Engine.calm_unregister.course
  | collect => exact (Engine.Course.refl e).collect
  | limitMemory limit =>
      have set : e.Calm (e.limitMemory limit) := Engine.calm_aside rfl rfl
      exact set.course
  | setThreshold threshold => exact absurd rfl (keeps threshold)
  | setFinalizer classId f =>
      obtain ⟨finalizers, set⟩ := e.setFinalizer_eq classId f
      rw [set]
      exact (Engine.Course.refl e).attach finalizers
  | flushDiagnostics =>
      have taken : e.Calm e.flushDiagnostics.2 := Engine.calm_aside rfl rfl
      exact taken.course
  | shutdown => exact Engine.course_shutdown
  | _ => exact .refl e

theorem Engine.course_run {requests : List Action} (keeps : ∀ n, .setThreshold n ∉ requests) :
    Engine.Course (e.passes requests) e (e.run requests).2 := by
  induction requests generalizing e with
  | nil => exact .refl e
  | cons a rest ih =>
      have first : Engine.Course ((if a.arguments.all e.isValid then e else e.stray).passesOf a) e
          (e.perform a).2 := by
        have carried (e : Engine) : Engine.Course (e.passesOf a) e (e.carryOut a).2 :=
          Engine.course_carryOut fun n same => keeps n (same ▸ List.mem_cons_self)
        rw [Engine.perform]
        split
        · exact carried e
        · have noted : e.Calm e.stray := Engine.calm_aside rfl rfl
          exact noted.course.trans (carried e.stray)
      exact first.trans (ih fun n mem => keeps n (List.mem_cons_of_mem a mem))

/-! ### What the heaps are like -/

theorem Engine.calm_collect : e.Calm e.collect.2 :=
  ⟨Engine.Turn.collect.single.moves, Engine.heapWork_pace.slotWork.collect e⟩

theorem Engine.calm_abandon : e.Calm (e.abandon payload) :=
  ⟨(Engine.turns_foldl _ fun _ _ => (Engine.Turn.give _).single).moves,
    Engine.heapWork_pace.slotWork.foldl Engine.heapWork_pace.slotWork.releaseReference _ _⟩

theorem Engine.pass_of_idle (idle : e.work = {}) : e.pass = [e.heap] := by
  rw [Engine.pass, idle]
  rfl

theorem Engine.Steady.calm (steady : e.Steady) (calm : e.Calm e') : e'.Steady :=
  calm.moves.keep (fun move before => move.steady before) steady

theorem Engine.Calm.inRange (calm : e.Calm e') (range : e'.InRange) : e.InRange :=
  calm.moves.keep (P := fun e' => e'.InRange → e.InRange)
    (fun move back range => back (move.inRange range)) id range

theorem Engine.Steady.collectAtThreshold (steady : e.Steady) : e.collectAtThreshold.Steady := by
  rw [Engine.collectAtThreshold]
  split
  · exact ⟨steady.collect.idle, steady.collect.sound⟩
  · exact steady

theorem Engine.Steady.allocate (steady : e.Steady)
    (fits : payload.Fits (ObjectClass.ofId classId)) :
    (e.allocate classId payload).2.Steady := by
  have abandoned {e : Engine} (steady : e.Steady) : (e.abandon payload).Steady :=
    steady.foldl_releaseReference _
  have room (size : Nat) : (e.makeRoom size).Steady := by
    rw [Engine.makeRoom]
    split
    · exact steady.collectAtThreshold.collect
    · exact steady.collectAtThreshold
  rw [Engine.allocate]
  split
  · exact abandoned steady
  · rename_i closed
    have hopen : (e.makeRoom (headerSize + payload.size)).isClosed = false := by
      rw [isClosed_of_frame (Engine.frame_makeRoom _)]
      exact Bool.eq_false_iff.2 closed
    have placed : Engine.Move ∅ False _ _ := .place hopen fits
    dsimp only
    split
    · exact abandoned (room _)
    · exact placed.steady (room _)

theorem Engine.Steady.sound_passesOfAllocate (steady : e.Steady) (range : e.InRange)
    (payload : Payload) : ∀ H ∈ e.passesOfAllocate payload, H.Sound 0 0 := by
  have onPass {e : Engine} (steady : e.Steady) (range : e.InRange) : ∀ H ∈ e.pass, H.Sound 0 0 := by
    rw [Engine.pass_of_idle steady.idle]
    exact fun H mem => List.mem_singleton.1 mem ▸ steady.sound range
  rw [Engine.passesOfAllocate]
  split
  · exact fun H mem => absurd mem List.not_mem_nil
  · rw [Engine.passesForRoom, Engine.passesAtThreshold, List.forall_mem_append]
    constructor
    · split
      · exact onPass steady range
      · exact fun H mem => absurd mem List.not_mem_nil
    · split
      · exact onPass steady.collectAtThreshold
          ((inRange_of_frame e.frame_collectAtThreshold).2 range)
      · exact fun H mem => absurd mem List.not_mem_nil

/-- As long as no count has left its range, the collections of a course begin on sound heaps. -/
theorem Engine.Course.sound (course : Engine.Course passes e e') (steady : e.Steady)
    (range : e'.InRange) : e'.Steady ∧ ∀ H ∈ passes, H.Sound 0 0 := by
  induction course with
  | refl e => exact ⟨steady, fun H mem => absurd mem List.not_mem_nil⟩
  | calm _ moves pace ih =>
      have calm : Engine.Calm _ _ := ⟨moves, pace⟩
      obtain ⟨before, sound⟩ := ih steady (calm.inRange range)
      exact ⟨before.calm calm, sound⟩
  | attach _ finalizers ih =>
      obtain ⟨before, sound⟩ := ih steady range
      exact ⟨⟨before.idle, before.sound⟩, sound⟩
  | allocate _ fits ih =>
      have range' := (inRange_of_frame (Engine.frame_allocate _ _ _)).1 range
      obtain ⟨before, sound⟩ := ih steady range'
      exact ⟨before.allocate fits,
        List.forall_mem_append.2 ⟨sound, before.sound_passesOfAllocate range' _⟩⟩
  | collect _ ih =>
      have range' := Engine.calm_collect.inRange range
      obtain ⟨before, sound⟩ := ih steady range'
      refine ⟨before.collect, List.forall_mem_append.2 ⟨sound, ?_⟩⟩
      rw [Engine.pass_of_idle before.idle]
      exact fun H mem => List.mem_singleton.1 mem ▸ before.sound range'

theorem Engine.Steady.sound_passes {requests : List Action} (steady : e.Steady)
    (range : (e.run requests).2.InRange) : ∀ H ∈ e.passes requests, H.Sound 0 0 := by
  induction requests generalizing e with
  | nil => exact fun H mem => absurd mem List.not_mem_nil
  | cons a rest ih =>
      have performed : (e.perform a).2.InRange := Engine.inRange_of_run range
      have noted : (if a.arguments.all e.isValid then e else e.stray).Steady := by
        split
        · exact steady
        · exact ⟨steady.idle, steady.sound⟩
      refine List.forall_mem_append.2 ⟨?_, ih (steady.perform a) range⟩
      by_cases sets : ∃ n, a = .setThreshold n
      · obtain ⟨n, rfl⟩ := sets
        exact fun H mem => absurd mem List.not_mem_nil
      · exact ((Engine.course_carryOut fun n same => sets ⟨n, same⟩).sound noted performed).2

end

end CountedHeap
