import CountedHeap.Proofs.Changes

/-!
What a request does to an engine. Every request is carried out in a chain of
moves, each of which is complete in itself: a reference is taken or given back
with all that follows from it, a collection is run to its end. The work that a
move takes up is done when the move is. Taken apart, each move is a chain of
single changes. So whatever every change keeps is kept by every request, and what
is broken on the way has only to be restored by every move. Only three requests write
into a table or an array; all others are chains of moves that do not, which are called
turns.
-/

namespace CountedHeap

/-- One move of an engine, while the host may claim the given objects on the
bridge, and the engine may be closed or not. -/
inductive Engine.Move (claimed : Set Handle) (closes : Prop) : Engine → Engine → Prop
  | aside {e e' : Engine} (heap : e'.heap = e.heap) (made : e'.made = e.made)
      (finalized : e'.finalized = e.finalized) (finalizers : e'.finalizers = e.finalizers)
      (isClosed : e'.isClosed = e.isClosed) (work : e'.work = e.work)
      (countWrapped : e'.breaches.countWrapped = e.breaches.countWrapped) :
      Move claimed closes e e'
  | check {e : Engine} (n : Int) : Move claimed closes e (e.checkCount n)
  | take {e : Engine} (h : Handle) : Move claimed closes e (e.addReference h)
  | give {e : Engine} (h : Handle) : Move claimed closes e (e.releaseReference h)
  | claim {e : Engine} {h : Handle} (mem : h ∈ claimed) :
      Move claimed closes e (e.updateObject h Object.adopt)
  | relinquish {e : Engine} {h : Handle} (mem : h ∈ claimed) :
      Move claimed closes e (e.relinquish (.reference h)).2
  | lengthen {e : Engine} {h : Handle} {o : Object} {f : Payload → Payload} {n : Nat}
      (found : e.heap.object? h = some o) (bare : (f o.payload).bare = o.payload.bare)
      (size : (f o.payload).size = o.payload.size + n) :
      Move claimed closes e ((e.updatePayload (.reference h) f).grow n)
  | shorten {e : Engine} {h : Handle} {o : Object} {f : Payload → Payload} {n : Nat}
      (found : e.heap.object? h = some o) (bare : (f o.payload).bare = o.payload.bare)
      (size : (f o.payload).size + n = o.payload.size) :
      Move claimed closes e ((e.updatePayload (.reference h) f).shrink n)
  | collect {e : Engine} : Move claimed closes e e.collect.2
  | place {e : Engine} {classId : ClassId} {payload : Payload} (hopen : e.isClosed = false)
      (fits : payload.Fits (ObjectClass.ofId classId)) :
      Move claimed closes e (e.place classId payload).2
  | close {e : Engine} (closing : closes) :
      Move claimed closes e { e.clear with diagnostics := #[], isClosed := true }

/-- A chain of moves. -/
def Engine.Moves (claimed : Set Handle) (closes : Prop) : Engine → Engine → Prop :=
  Relation.ReflTransGen (Engine.Move claimed closes)

/-- A move that writes nothing into a table or an array. Where it makes an object, the
object has no properties. -/
inductive Engine.Turn (claimed : Set Handle) (closes : Prop) : Engine → Engine → Prop
  | aside {e e' : Engine} (heap : e'.heap = e.heap) (made : e'.made = e.made)
      (finalized : e'.finalized = e.finalized) (finalizers : e'.finalizers = e.finalizers)
      (isClosed : e'.isClosed = e.isClosed) (work : e'.work = e.work)
      (countWrapped : e'.breaches.countWrapped = e.breaches.countWrapped) :
      Turn claimed closes e e'
  | check {e : Engine} (n : Int) : Turn claimed closes e (e.checkCount n)
  | take {e : Engine} (h : Handle) : Turn claimed closes e (e.addReference h)
  | give {e : Engine} (h : Handle) : Turn claimed closes e (e.releaseReference h)
  | claim {e : Engine} {h : Handle} (mem : h ∈ claimed) :
      Turn claimed closes e (e.updateObject h Object.adopt)
  | relinquish {e : Engine} {h : Handle} (mem : h ∈ claimed) :
      Turn claimed closes e (e.relinquish (.reference h)).2
  | collect {e : Engine} : Turn claimed closes e e.collect.2
  | place {e : Engine} {classId : ClassId} {payload : Payload} (hopen : e.isClosed = false)
      (fits : payload.Fits (ObjectClass.ofId classId)) (unwritten : payload.properties = []) :
      Turn claimed closes e (e.place classId payload).2
  | close {e : Engine} (closing : closes) :
      Turn claimed closes e { e.clear with diagnostics := #[], isClosed := true }

/-- A chain of turns. -/
def Engine.Turns (claimed : Set Handle) (closes : Prop) : Engine → Engine → Prop :=
  Relation.ReflTransGen (Engine.Turn claimed closes)

section

variable {C : Set Handle} {K : Prop} {e e' e'' : Engine} {h : Handle} {v : Value}

/-- A move, taken apart. -/
theorem Engine.Move.changes (move : Engine.Move C K e e') : Engine.Changes C K e e' := by
  cases move with
  | aside heap made finalized finalizers isClosed =>
      exact (Engine.Change.aside heap made finalized finalizers isClosed).single
  | check n => exact Engine.changes_checkCount n
  | take h => exact Engine.changes_addReference
  | give h => exact Engine.changes_releaseReference
  | claim mem => exact (Engine.Change.claim mem fun o => o.count).single
  | relinquish mem => exact Engine.changes_relinquish mem
  | lengthen found bare size => exact (Engine.Change.lengthen found bare size).single
  | shorten found bare size => exact (Engine.Change.shorten found bare size).single
  | collect => exact Engine.changes_collect
  | place hopen fits => exact (Engine.Change.place hopen fits).single
  | close closing => exact (Engine.Change.close closing).single

theorem Engine.Moves.refl (e : Engine) : Engine.Moves C K e e :=
  Relation.ReflTransGen.refl

theorem Engine.Moves.trans (first : Engine.Moves C K e e') (later : Engine.Moves C K e' e'') :
    Engine.Moves C K e e'' :=
  Relation.ReflTransGen.trans first later

theorem Engine.Move.single (move : Engine.Move C K e e') : Engine.Moves C K e e' :=
  Relation.ReflTransGen.single move

/-- Whatever every move keeps is kept by a chain of moves. -/
theorem Engine.Moves.keep {P : Engine → Prop} (moves : Engine.Moves C K e e')
    (step : ∀ {e₁ e₂}, Engine.Move C K e₁ e₂ → P e₁ → P e₂) (start : P e) : P e' := by
  induction moves with
  | refl => exact start
  | tail _ move ih => exact step move ih

theorem Engine.Moves.changes (moves : Engine.Moves C K e e') : Engine.Changes C K e e' := by
  induction moves with
  | refl => exact .refl e
  | tail _ move ih => exact ih.trans move.changes

/-- A turn is a move. -/
theorem Engine.Turn.move (turn : Engine.Turn C K e e') : Engine.Move C K e e' := by
  cases turn with
  | aside heap made finalized finalizers isClosed work countWrapped =>
      exact .aside heap made finalized finalizers isClosed work countWrapped
  | check n => exact .check n
  | take h => exact .take h
  | give h => exact .give h
  | claim mem => exact .claim mem
  | relinquish mem => exact .relinquish mem
  | collect => exact .collect
  | place hopen fits => exact .place hopen fits
  | close closing => exact .close closing

theorem Engine.Turns.refl (e : Engine) : Engine.Turns C K e e :=
  Relation.ReflTransGen.refl

theorem Engine.Turns.trans (first : Engine.Turns C K e e') (later : Engine.Turns C K e' e'') :
    Engine.Turns C K e e'' :=
  Relation.ReflTransGen.trans first later

theorem Engine.Turn.single (turn : Engine.Turn C K e e') : Engine.Turns C K e e' :=
  Relation.ReflTransGen.single turn

theorem Engine.Turns.moves (turns : Engine.Turns C K e e') : Engine.Moves C K e e' := by
  induction turns with
  | refl => exact .refl e
  | tail _ turn ih => exact ih.trans turn.move.single

/-- A turn beside the heap and the notes about it. -/
theorem Engine.turns_aside
    (same : (e'.heap, e'.made, e'.finalized, e'.finalizers, e'.isClosed, e'.work,
        e'.breaches.countWrapped) =
      (e.heap, e.made, e.finalized, e.finalizers, e.isClosed, e.work,
        e.breaches.countWrapped)) : Engine.Turns C K e e' := by
  simp only [Prod.mk.injEq] at same
  obtain ⟨heap, made, finalized, finalizers, isClosed, work, countWrapped⟩ := same
  exact (Engine.Turn.aside heap made finalized finalizers isClosed work countWrapped).single

theorem Engine.turns_record {d : Diagnostic} : Engine.Turns C K e (e.record d) :=
  Engine.turns_aside rfl

theorem Engine.turns_stray : Engine.Turns C K e e.stray :=
  Engine.turns_aside rfl

theorem Engine.turns_updateContext {c : ContextId} {f : Context → Context} :
    Engine.Turns C K e (e.updateContext c f) :=
  Engine.turns_aside rfl

theorem Engine.turns_foldl {α : Type} {f : Engine → α → Engine} (as : List α)
    (step : ∀ e a, Engine.Turns C K e (f e a)) : Engine.Turns C K e (as.foldl f e) := by
  induction as generalizing e with
  | nil => exact .refl e
  | cons a rest ih => exact (step e a).trans ih

/-! ### Counting -/

theorem Engine.turns_retain : Engine.Turns C K e (e.retain v) := by
  rw [Engine.retain]
  split
  · exact (Engine.Turn.take _).single
  · exact .refl e

theorem Engine.turns_release : Engine.Turns C K e (e.release v) := by
  rw [Engine.release]
  split
  · exact (Engine.Turn.give _).single
  · exact .refl e

theorem Engine.turns_releaseAll (vs : List Value) : Engine.Turns C K e (e.releaseAll vs) :=
  Engine.turns_foldl vs fun _ _ => Engine.turns_release

theorem Engine.turns_collectAtThreshold : Engine.Turns C K e e.collectAtThreshold := by
  rw [Engine.collectAtThreshold]
  split
  · exact Engine.Turn.collect.single.trans (Engine.turns_aside rfl)
  · exact .refl e

variable {classId : ClassId} {payload : Payload} {proto : Value} {c : ContextId}

/-- An engine with room made for `size` more bytes, as far as there is any. -/
def Engine.makeRoom (e : Engine) (size : Nat) : Engine :=
  if (e.collectAtThreshold.exceeded? size).isSome then e.collectAtThreshold.collect.2
  else e.collectAtThreshold

theorem Engine.turns_makeRoom (size : Nat) : Engine.Turns C K e (e.makeRoom size) := by
  rw [Engine.makeRoom]
  split
  · exact Engine.turns_collectAtThreshold.trans Engine.Turn.collect.single
  · exact Engine.turns_collectAtThreshold

theorem Engine.frame_makeRoom (size : Nat) : (e.makeRoom size).frame = e.frame := by
  rw [Engine.makeRoom]
  split <;> simp

theorem Engine.turns_allocate (fits : payload.Fits (ObjectClass.ofId classId))
    (unwritten : payload.properties = []) :
    Engine.Turns C K e (e.allocate classId payload).2 := by
  have given (e : Engine) : Engine.Turns C K e (e.abandon payload) :=
    Engine.turns_foldl _ fun _ _ => (Engine.Turn.give _).single
  have room : Engine.Turns C K e (e.makeRoom (headerSize + payload.size)) :=
    Engine.turns_makeRoom _
  rw [Engine.allocate]
  split
  · exact given e
  · rename_i closed
    have hopen : (e.makeRoom (headerSize + payload.size)).isClosed = false := by
      rw [isClosed_of_frame (Engine.frame_makeRoom _)]
      exact Bool.eq_false_iff.2 closed
    dsimp only
    split
    · exact room.trans (given _)
    · exact room.trans (Engine.Turn.place hopen fits unwritten).single

/-! ### Constructors -/

theorem Engine.turns_allocateWithProto (fits : payload.Fits (ObjectClass.ofId classId))
    (unwritten : payload.properties = []) :
    Engine.Turns C K e (e.allocateWithProto proto classId payload).2 :=
  Engine.turns_retain.trans (Engine.turns_allocate fits unwritten)

theorem Engine.turns_makeWithProto :
    Engine.Turns C K e (e.makeWithProto proto classId).2 := by
  rw [Engine.makeWithProto]
  split
  · rename_i payload made
    exact Engine.turns_allocateWithProto (Payload.fits_empty? made)
      (Payload.properties_empty? made)
  · exact .refl e

theorem Engine.turns_makeHost {cookie : UInt64} :
    Engine.Turns C K e (e.makeHost proto classId cookie).2 := by
  rw [Engine.makeHost]
  split
  · rename_i host
    exact Engine.turns_allocateWithProto ((ClassId.isHost_iff classId).1 host) rfl
  · exact .refl e

theorem Engine.turns_makeNumber {d : Binary64} : Engine.Turns C K e (e.makeNumber d).2 := by
  rw [Engine.makeNumber]
  split
  · exact .refl e
  · exact Engine.turns_allocate rfl rfl

theorem Engine.turns_globalOf : Engine.Turns C K e (e.globalOf c).2 := by
  rw [Engine.globalOf]
  split
  · exact Engine.turns_retain
  · exact .refl e

theorem Engine.turns_takeProto : Engine.Turns C K e (e.takeProto c classId).2 := by
  rw [Engine.takeProto]
  split
  · exact Engine.turns_retain
  · exact .refl e

theorem Engine.turns_makeOfClass : Engine.Turns C K e (e.makeOfClass c classId).2 := by
  rw [Engine.makeOfClass]
  split
  · exact Engine.turns_makeWithProto
  · exact .refl e

theorem Engine.turns_makeFunctionIn {name : String} :
    Engine.Turns C K e (e.makeFunctionIn c name).2 := by
  have taken : Engine.Turns C K e (e.takeProto c ClassId.function).2 := Engine.turns_takeProto
  rw [Engine.makeFunctionIn]
  split <;> rename_i step <;> rw [step] at taken
  · exact taken
  · rename_i proto e'
    have made : Engine.Turns C K e' (e'.makeFunction name proto).2 :=
      Engine.turns_allocateWithProto rfl rfl
    exact (taken.trans made).trans Engine.turns_release

/-! ### Properties -/

theorem Engine.turns_fetch {key : String} : Engine.Turns C K e (e.fetch v key).2 := by
  rw [Engine.fetch]
  split
  · exact .refl e
  · split
    · exact .refl e
    · split
      · exact Engine.turns_retain
      · exact .refl e

theorem Engine.turns_makeKeyTable (keys : List String) (made : Array KeyEntry) :
    Engine.Turns C K e (e.makeKeyTable made keys).2 := by
  induction keys generalizing e made with
  | nil => exact .refl e
  | cons key rest ih =>
      have first : Engine.Turns C K e (e.makeString key).2 := Engine.turns_allocate rfl rfl
      rw [Engine.makeKeyTable]
      split <;> rename_i step <;> rw [step] at first
      · exact first.trans (ih _)
      · exact first.trans (Engine.turns_releaseAll _)

theorem Engine.turns_construct {constructor : Value} :
    Engine.Turns C K e (e.construct c constructor classId).2 := by
  have fetched : Engine.Turns C K e (e.fetch constructor "prototype").2 := Engine.turns_fetch
  rw [Engine.construct]
  split
  · exact .refl e
  · split
    · exact Engine.turns_makeOfClass
    · dsimp only
      split
      · exact (fetched.trans Engine.turns_makeWithProto).trans Engine.turns_release
      · exact (fetched.trans Engine.turns_release).trans Engine.turns_makeOfClass

/-! ### The bridge -/

theorem Engine.turns_adopt (mem : ∀ h, v = .reference h → h ∈ C) :
    Engine.Turns C K e (e.adopt v) := by
  cases v with
  | immediate w => exact .refl e
  | reference h => exact (Engine.Turn.claim (mem h rfl)).single.trans (Engine.Turn.take h).single

theorem Engine.turns_relinquish (mem : ∀ h, v = .reference h → h ∈ C) :
    Engine.Turns C K e (e.relinquish v).2 := by
  cases v with
  | immediate w => exact .refl e
  | reference h => exact (Engine.Turn.relinquish (mem h rfl)).single

/-! ### Contexts -/

theorem Engine.turns_register : Engine.Turns C K e (e.register c v).2 := by
  rw [Engine.register]
  split
  · split
    · exact Engine.turns_retain.trans (Engine.turns_aside rfl)
    · exact .refl e
  · exact .refl e
  · exact .refl e

theorem Engine.turns_unregister : Engine.Turns C K e (e.unregister c v).2 := by
  rw [Engine.unregister]
  split
  · exact .refl e
  · split
    · exact .refl e
    · exact Engine.turns_updateContext.trans Engine.turns_release

theorem Engine.turns_makePrototypes (n : Nat) (base : Value) (made : Array Value) :
    Engine.Turns C K e (e.makePrototypes base made n).2 := by
  induction n generalizing e made with
  | zero => exact .refl e
  | succ n ih =>
      have first : Engine.Turns C K e (e.makePlain base).2 := Engine.turns_makeWithProto
      rw [Engine.makePrototypes]
      split <;> rename_i step <;> rw [step] at first
      · exact first.trans (ih _)
      · exact first.trans (Engine.turns_releaseAll _)

theorem Engine.turns_makeContext {base : Value} {prototypes : Array Value} :
    Engine.Turns C K e (e.makeContext base prototypes).2 := by
  have first : Engine.Turns C K e (e.allocateWithProto base ClassId.global (.plain base [])).2 :=
    Engine.turns_allocateWithProto (.inr rfl) rfl
  rw [Engine.makeContext]
  split <;> rename_i step <;> rw [step] at first
  · exact first.trans (Engine.turns_releaseAll _)
  · exact first.trans (Engine.turns_aside rfl)

theorem Engine.turns_openContext {slots : Nat} :
    Engine.Turns C K e (e.openContext slots).2 := by
  have plain : Engine.Turns C K e (e.makePlain Value.null).2 := Engine.turns_makeWithProto
  rw [Engine.openContext]
  split
  · exact .refl e
  · split <;> rename_i first <;> rw [first] at plain
    · exact plain
    · rename_i base e₁
      have more : Engine.Turns C K e₁
          (e₁.makePrototypes base #[base] (prototypeSlots slots - 1)).2 :=
        Engine.turns_makePrototypes _ _ _
      split <;> rename_i second <;> rw [second] at more
      · exact plain.trans more
      · exact (plain.trans more).trans Engine.turns_makeContext

theorem Engine.turns_shareContext : Engine.Turns C K e (e.shareContext c) := by
  rw [Engine.shareContext]
  split
  · exact (Engine.Turn.check _).single.trans (Engine.turns_aside rfl)
  · exact Engine.turns_aside rfl

theorem Engine.turns_releaseRegistered : Engine.Turns C K e (e.releaseRegistered v) := by
  rw [Engine.releaseRegistered]
  split
  · exact Engine.turns_release
  · rw [Engine.leaveBehind]
    split
    · exact Engine.turns_aside rfl
    · exact .refl e

theorem Engine.turns_tearDown : Engine.Turns C K e (e.tearDown c) := by
  rw [Engine.tearDown]
  split
  · exact .refl e
  · rename_i ctx found
    split
    · have emptied : Engine.Turns C K e (e.updateContext c Context.emptied) :=
        Engine.turns_updateContext
      have registered (e : Engine) : Engine.Turns C K e
          (ctx.registered.foldl Engine.releaseRegistered e) := by
        rw [← Array.foldl_toList]
        exact Engine.turns_foldl _ fun _ _ => Engine.turns_releaseRegistered
      have vacated := ((emptied.trans (registered _)).trans
        (Engine.turns_release (v := ctx.global))).trans
          (Engine.turns_releaseAll ctx.prototypes.toList)
      exact vacated.trans (Engine.turns_aside rfl)
    · exact .refl e

theorem Engine.turns_leaveContext : Engine.Turns C K e (e.leaveContext c).2 := by
  rw [Engine.leaveContext]
  split
  · exact Engine.turns_aside rfl
  · rename_i ctx active
    have left : Engine.Turns C K e ((e.checkCount (ctx.count - 1)).updateContext c fun ctx' =>
        { ctx' with count := wrapCount (ctx.count - 1) }) :=
      (Engine.Turn.check (ctx.count - 1)).single.trans (Engine.turns_aside rfl)
    dsimp only
    refine left.trans ?_
    generalize Decision.make c (wrapCount (ctx.count - 1)) .release = decision
    cases decision with
    | proceed => exact Engine.turns_tearDown
    | defer => exact .refl _
    | tolerate d => exact Engine.turns_record.trans Engine.turns_tearDown

theorem Engine.turns_shutdown (closing : K) : Engine.Turns C K e e.shutdown.2 := by
  rw [Engine.shutdown]
  split
  · exact .refl e
  · have collected : Engine.Turns C K e (e.openContexts.foldl Engine.tearDown e).collect.2 :=
      (Engine.turns_foldl _ fun _ _ => Engine.turns_tearDown).trans Engine.Turn.collect.single
    rcases step : (e.openContexts.foldl Engine.tearDown e).collect with ⟨n, e'⟩
    rw [step] at collected
    have reported (residual : List Residual) : Engine.Turns C K e
        (if residual.isEmpty then e' else e'.record (.leftBehind residual)) := by
      split
      · exact collected
      · exact collected.trans (Engine.turns_aside rfl)
    simp only [step]
    exact (reported _).trans (Engine.Turn.close closing).single

/-! ### Writing -/

theorem Engine.object?_eq_some {o : Object} :
    e.object? v = some o ↔ ∃ h, v = .reference h ∧ e.heap.object? h = some o := by
  cases v <;> simp [Engine.object?, Value.handle?]

theorem Engine.moves_store {key : String} {target : Value} :
    Engine.Moves C K e (e.store target key v).2 := by
  rw [Engine.store]
  split
  · exact Engine.turns_release.moves
  · rename_i old placed
    obtain ⟨o, found, place⟩ := Option.bind_eq_some_iff.1 placed
    obtain ⟨h, rfl, header⟩ := Engine.object?_eq_some.1 found
    have stored : Engine.Moves C K e
        ((e.updatePayload (.reference h) (Payload.store key v)).grow 0) :=
      (Engine.Move.lengthen header Payload.bare_store (Payload.size_store place)).single
    have same : (e.updatePayload (.reference h) (Payload.store key v)).grow 0 =
      e.updatePayload (.reference h) (Payload.store key v) := rfl
    rw [same] at stored
    exact stored.trans Engine.turns_release.moves
  · rename_i n placed
    obtain ⟨o, found, place⟩ := Option.bind_eq_some_iff.1 placed
    obtain ⟨h, rfl, header⟩ := Engine.object?_eq_some.1 found
    exact (Engine.Move.lengthen header Payload.bare_store (Payload.size_store place)).single

theorem Engine.moves_erase {key : String} : Engine.Moves C K e (e.erase v key).2 := by
  rw [Engine.erase]
  split
  · exact .refl e
  · rename_i old placed
    obtain ⟨o, found, place⟩ := Option.bind_eq_some_iff.1 placed
    obtain ⟨h, rfl, header⟩ := Engine.object?_eq_some.1 found
    have erased : Engine.Moves C K e ((e.updatePayload (.reference h) fun p =>
        p.setProperties (eraseKey key p.properties)).shrink (propertySize key)) :=
      Engine.Move.single (.shorten (f := fun p => p.setProperties (eraseKey key p.properties))
        header (Payload.bare_setProperties _) (Payload.size_erase place))
    exact erased.trans Engine.turns_release.moves

theorem Engine.moves_append {target : Value} : Engine.Moves C K e (e.append target v).2 := by
  rw [Engine.append]
  split
  · rename_i array
    obtain ⟨o, found, isArray⟩ := (Option.any_eq_true _ _).1 array
    obtain ⟨h, rfl, header⟩ := Engine.object?_eq_some.1 found
    exact (Engine.Move.lengthen header Payload.bare_append (Payload.size_append isArray)).single
  · exact Engine.turns_release.moves

/-! ### Requests -/

/-- The objects that a request claims for the host on the bridge. -/
def Action.claimed : Action → Set Handle
  | .adopt v => {h | v = .reference h}
  | .hold v => {h | v = .reference h}
  | .relinquish v => {h | v = .reference h}
  | .letGo held => {h | held.value = .reference h}
  | _ => ∅

/-- Whether a request may close the engine. -/
def Action.Closes (a : Action) : Prop :=
  a = .shutdown

/-- Whether a request writes into a table or an array. -/
def Action.writes : Action → Bool
  | .store .. => true
  | .erase .. => true
  | .append .. => true
  | _ => false

theorem Engine.turns_answered {α : Type} {answer : α → Answer} {r : Except Refusal α × Engine}
    (turns : Engine.Turns C K e r.2) : Engine.Turns C K e (answered answer r).2 := by
  rw [snd_answered]
  exact turns

/-- A request that writes nothing is carried out in a chain of turns, unless it sets a
finalizer. -/
theorem Engine.turns_carryOut {a : Action} (quiet : a.writes = false)
    (sets : ∀ classId f, a ≠ .setFinalizer classId f) :
    Engine.Turns a.claimed a.Closes e (e.carryOut a).2 := by
  cases a with
  | openContext slots => exact Engine.turns_answered Engine.turns_openContext
  | shareContext c => exact Engine.turns_shareContext
  | leaveContext c => exact Engine.turns_leaveContext
  | context c => exact Engine.turns_answered (r := (e.activeContext c, e)) (.refl e)
  | globalOf c => exact Engine.turns_answered Engine.turns_globalOf
  | takeProto c classId => exact Engine.turns_answered Engine.turns_takeProto
  | makeObjectIn c => exact Engine.turns_answered Engine.turns_makeOfClass
  | makeArrayIn c => exact Engine.turns_answered Engine.turns_makeOfClass
  | makeOfClass c classId => exact Engine.turns_answered Engine.turns_makeOfClass
  | makeWithProto proto classId => exact Engine.turns_answered Engine.turns_makeWithProto
  | construct c constructor classId => exact Engine.turns_answered Engine.turns_construct
  | makePlain proto => exact Engine.turns_answered Engine.turns_makeWithProto
  | makeArray proto items =>
      exact Engine.turns_answered (Engine.turns_allocateWithProto rfl rfl)
  | makeFunction name proto =>
      exact Engine.turns_answered (Engine.turns_allocateWithProto rfl rfl)
  | makeFunctionIn c name => exact Engine.turns_answered Engine.turns_makeFunctionIn
  | makeHost proto classId cookie => exact Engine.turns_answered Engine.turns_makeHost
  | makeString text => exact Engine.turns_answered (Engine.turns_allocate rfl rfl)
  | boxNumber d => exact Engine.turns_answered (Engine.turns_allocate rfl rfl)
  | makeNumber d => exact Engine.turns_answered Engine.turns_makeNumber
  | store target key v => cases quiet
  | fetch target key => exact Engine.turns_fetch
  | erase target key => cases quiet
  | append target v => cases quiet
  | keyTableOf target => exact Engine.turns_makeKeyTable _ _
  | dropKeyTable table => exact Engine.turns_releaseAll _
  | retain v => exact Engine.turns_retain
  | release v => exact Engine.turns_release
  | adopt v => exact Engine.turns_adopt fun h same => same
  | relinquish v => exact Engine.turns_relinquish fun h same => same
  | hold v => exact Engine.turns_adopt fun h same => same
  | letGo held => exact Engine.turns_relinquish fun h same => same
  | register c v => exact Engine.turns_answered Engine.turns_register
  | unregister c v => exact Engine.turns_unregister
  | collect => exact Engine.Turn.collect.single
  | limitMemory limit => exact Engine.turns_aside rfl
  | setThreshold threshold => exact Engine.turns_aside rfl
  | setFinalizer classId f => exact absurd rfl (sets classId f)
  | flushDiagnostics => exact Engine.turns_aside rfl
  | shutdown => exact Engine.turns_shutdown rfl
  | _ => exact .refl e

/-- A request is carried out in a chain of moves, unless it sets a finalizer. -/
theorem Engine.moves_carryOut {a : Action} (sets : ∀ classId f, a ≠ .setFinalizer classId f) :
    Engine.Moves a.claimed a.Closes e (e.carryOut a).2 := by
  cases a with
  | store target key v =>
      rw [Engine.carryOut, snd_answered]
      exact Engine.moves_store
  | erase target key => exact Engine.moves_erase
  | append target v =>
      rw [Engine.carryOut, snd_answered]
      exact Engine.moves_append
  | _ => exact (Engine.turns_carryOut rfl sets).moves

/-- Setting a finalizer touches nothing else. -/
theorem Engine.setFinalizer_eq (e : Engine) (classId : ClassId) (f : Option Finalizer) :
    ∃ finalizers,
      (e.carryOut (.setFinalizer classId f)).2 = { e with finalizers := finalizers } := by
  rw [Engine.carryOut, Engine.setFinalizer]
  split
  · exact ⟨_, rfl⟩
  · exact ⟨e.finalizers, rfl⟩

/-! ### Runs -/

/-- A request is carried out by the engine itself, or by the one that has noted the
broken promise. -/
theorem Engine.perform_cases (e : Engine) (a : Action) :
    ∃ e', e'.heap = e.heap ∧ Engine.Turns a.claimed a.Closes e e' ∧
      e.perform a = e'.carryOut a := by
  rw [Engine.perform]
  split
  · exact ⟨e, rfl, .refl e, rfl⟩
  · exact ⟨e.stray, rfl, Engine.turns_stray, rfl⟩

/-- A request that writes nothing is performed in a chain of turns, after which the
finalizers may be others. -/
theorem Engine.turns_perform {a : Action} (quiet : a.writes = false) : ∃ e' finalizers,
    Engine.Turns a.claimed a.Closes e e' ∧
      (e.perform a).2 = { e' with finalizers := finalizers } := by
  obtain ⟨e₁, -, noted, result⟩ := e.perform_cases a
  rw [result]
  by_cases sets : ∃ classId f, a = .setFinalizer classId f
  · obtain ⟨classId, f, rfl⟩ := sets
    obtain ⟨finalizers, set⟩ := e₁.setFinalizer_eq classId f
    exact ⟨e₁, finalizers, noted, set⟩
  · exact ⟨(e₁.carryOut a).2, (e₁.carryOut a).2.finalizers,
      noted.trans (Engine.turns_carryOut quiet fun classId f same => sets ⟨classId, f, same⟩), rfl⟩

/-- A request is performed in a chain of moves, after which the finalizers may be
others. -/
theorem Engine.moves_perform (e : Engine) (a : Action) : ∃ e' finalizers,
    Engine.Moves a.claimed a.Closes e e' ∧
      (e.perform a).2 = { e' with finalizers := finalizers } := by
  cases quiet : a.writes with
  | false =>
      obtain ⟨e', finalizers, turns, result⟩ := Engine.turns_perform (e := e) quiet
      exact ⟨e', finalizers, turns.moves, result⟩
  | true =>
      obtain ⟨e₁, -, noted, result⟩ := e.perform_cases a
      have sets (classId : ClassId) (f : Option Finalizer) : a ≠ .setFinalizer classId f := by
        rintro rfl
        cases quiet
      rw [result]
      exact ⟨_, _, noted.moves.trans (Engine.moves_carryOut sets), rfl⟩

theorem Engine.changes_perform (e : Engine) (a : Action) : ∃ e' finalizers,
    Engine.Changes a.claimed a.Closes e e' ∧
      (e.perform a).2 = { e' with finalizers := finalizers } := by
  obtain ⟨e', finalizers, moves, result⟩ := e.moves_perform a
  exact ⟨e', finalizers, moves.changes, result⟩

/-- Whatever every request keeps is kept by every run. -/
theorem Engine.run_keep {P : Engine → Prop} (step : ∀ (e : Engine) a, P e → P (e.perform a).2)
    (start : P e) (requests : List Action) : P (e.run requests).2 := by
  induction requests generalizing e with
  | nil => exact start
  | cons a rest ih => exact ih (step e a start)

theorem Engine.run_append (e : Engine) (first later : List Action) :
    (e.run (first ++ later)).2 = ((e.run first).2.run later).2 := by
  induction first generalizing e with
  | nil => rfl
  | cons a rest ih => exact ih (e.perform a).2

/-- Whatever every change keeps, and does not depend on the finalizers, is kept by
every request. -/
theorem Engine.perform_keep {P : Engine → Prop}
    (step : ∀ {C K e₁ e₂}, Engine.Change C K e₁ e₂ → P e₁ → P e₂)
    (attach : ∀ (e : Engine) finalizers, P e → P { e with finalizers := finalizers })
    (e : Engine) (a : Action) (start : P e) : P (e.perform a).2 := by
  obtain ⟨e', finalizers, changes, result⟩ := e.changes_perform a
  rw [result]
  exact attach e' finalizers (changes.keep step start)

end

end CountedHeap
