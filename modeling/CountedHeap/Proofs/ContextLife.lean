import CountedHeap.Proofs.Apart
import CountedHeap.Proofs.CleanShutdown

/-!
The life of a context. What a request makes of a context depends on the context and
on the request alone, and not on the heap: the number of references on it and the
values registered on it are moved as the request says, and nothing that happens to
the objects it owns changes it. So the contexts of an engine can be followed by
themselves, from one request to the next.
-/

namespace CountedHeap

/-! ### One context -/

/-- One more reference on a context. -/
def Context.share (ctx : Context) : Context :=
  if ctx.phase = .active then { ctx with count := wrapCount (ctx.count + 1) } else ctx

/-- One reference less on a context, which is closed if none is left. -/
def Context.leave (ctx : Context) : Context :=
  if ctx.phase = .active then
    if 0 < wrapCount (ctx.count - 1) then { ctx with count := wrapCount (ctx.count - 1) }
    else Context.closed { ctx with count := wrapCount (ctx.count - 1) }
  else ctx

/-- One more registration. -/
def Context.register (v : Value) (ctx : Context) : Context :=
  if ctx.phase = .active ∧ v.isReference = true then
    { ctx with registered := ctx.registered.push v }
  else ctx

/-- One registration less, if there is one. -/
def Context.unregister (v : Value) (ctx : Context) : Context :=
  if ctx.phase = .active then
    match lastPlace? ctx.registered v with
    | some i => { ctx with registered := removeSwap ctx.registered i }
    | none => ctx
  else ctx

/-- What a request makes of the context at a place, which a shutdown closes or not. -/
def Action.onContext (a : Action) (closes : Bool) (k : Nat) (ctx : Context) : Context :=
  match a with
  | .shareContext c => if c.toNat = k then ctx.share else ctx
  | .leaveContext c => if c.toNat = k then ctx.leave else ctx
  | .register c v => if c.toNat = k then ctx.register v else ctx
  | .unregister c v => if c.toNat = k then ctx.unregister v else ctx
  | .shutdown => if closes then ctx.shut else ctx
  | _ => ctx

/-- Whether a shutdown closes the context at a place: the engine is open, and the id
that leads there is the id of an open context. -/
def Engine.closes (e : Engine) (k : Nat) : Bool :=
  !e.isClosed && decide (k ∈ e.openContexts.map UInt32.toNat)

/-- A request to shut the engine down. -/
def Action.isShutdown : Action → Bool
  | .shutdown => true
  | _ => false

section

variable {e e' : Engine} {v : Value} {c : ContextId} {k : Nat} {ctx : Context} {a : Action}

/-! ### Opening -/

theorem Engine.apart_makePrototypes (n : Nat) (base : Value) (made : Array Value) :
    e.Apart (e.makePrototypes base made n).2 := by
  induction n generalizing e made with
  | zero => exact .refl e
  | succ n ih =>
      have first : e.Apart (e.makePlain base).2 := Engine.apart_makeWithProto
      rw [Engine.makePrototypes]
      split <;> rename_i step <;> rw [step] at first
      · exact first.trans (ih _)
      · exact first.trans (Engine.apart_releaseAll _)

theorem Engine.size_makePrototypes {n : Nat} {base : Value} {made protos : Array Value}
    (all : (e.makePrototypes base made n).1 = .ok protos) : protos.size = made.size + n := by
  induction n generalizing e made with
  | zero =>
      cases all
      rfl
  | succ n ih =>
      rw [Engine.makePrototypes] at all
      split at all
      · rw [ih all, Array.size_push]
        omega
      · cases all

/-- The context that a request opened, among those there were before. -/
structure Engine.Opens (e : Engine) (slots : Nat) (e' : Engine) : Prop where
  hopen : e.isClosed = false
  contexts : ∃ global prototypes, prototypes.size = prototypeSlots slots ∧
    e'.contexts = e.contexts.push ⟨.ofNat e.contexts.size, .active, 1, global, prototypes, #[]⟩
  isClosed : e'.isClosed = e.isClosed
  strayed : e.breaches.strayAccess = true → e'.breaches.strayAccess = true

theorem prototypeSlots_bounds (requested : Nat) :
    builtinClassCount ≤ prototypeSlots requested ∧
      prototypeSlots requested ≤ prototypeSlotLimit := by
  simp only [prototypeSlots, builtinClassCount, prototypeSlotLimit]
  omega

/-- A context is opened and gets the next number, or nothing is. -/
theorem Engine.openContext_cases (e : Engine) (slots : Nat) :
    (∃ refusal, (e.openContext slots).1 = .error refusal ∧ e.Apart (e.openContext slots).2) ∨
      (e.openContext slots).1 = .ok (.ofNat e.contexts.size) ∧
        e.Opens slots (e.openContext slots).2 := by
  have plain : e.Apart (e.makePlain Value.null).2 := Engine.apart_makeWithProto
  rw [Engine.openContext]
  split
  · exact .inl ⟨_, rfl, .refl e⟩
  · rename_i hopen
    split <;> rename_i first <;> rw [first] at plain
    · exact .inl ⟨_, rfl, plain⟩
    · rename_i base e₁
      have more : e₁.Apart (e₁.makePrototypes base #[base] (prototypeSlots slots - 1)).2 :=
        Engine.apart_makePrototypes _ _ _
      have size {protos : Array Value} :
          (e₁.makePrototypes base #[base] (prototypeSlots slots - 1)).1 = .ok protos →
            protos.size = 1 + (prototypeSlots slots - 1) := Engine.size_makePrototypes
      split <;> rename_i second <;> rw [second] at more size
      · exact .inl ⟨_, rfl, plain.trans more⟩
      · rename_i protos e₂
        have made : e₂.Apart
            (e₂.allocateWithProto base ClassId.global (.plain base [])).2 :=
          Engine.apart_allocateWithProto
        rw [Engine.makeContext]
        split <;> rename_i third <;> rw [third] at made
        · exact .inl ⟨_, rfl, ((plain.trans more).trans made).trans (Engine.apart_releaseAll _)⟩
        · rename_i global e₃
          have apart := (plain.trans more).trans made
          obtain ⟨slots_pos, -⟩ := prototypeSlots_bounds slots
          have all : protos.size = prototypeSlots slots := by
            rw [size rfl]
            rw [builtinClassCount] at slots_pos
            omega
          refine .inr ⟨?_, Bool.eq_false_iff.2 hopen, ⟨global, protos, all, ?_⟩, apart.isClosed,
            apart.strayed⟩
          · rw [← apart.contexts]
          · rw [← apart.contexts]

/-! ### Sharing, leaving and registering -/

theorem Engine.activeContext_of_active (found : e.contexts[c.toNat]? = some ctx)
    (active : ctx.phase = .active) : e.activeContext c = .ok ctx := by
  rw [Engine.activeContext, found]
  exact if_pos active

theorem Engine.activeContext_of_not_active
    (idle : ∀ ctx, e.contexts[c.toNat]? = some ctx → ctx.phase ≠ .active) :
    e.activeContext c = .error (.contextFreed c) := by
  rw [Engine.activeContext]
  split
  · rename_i ctx found
    exact if_neg (idle ctx found)
  · rfl

/-- An operation on one context leaves the others as they are, and that one too if it
is not active. -/
theorem Engine.contexts_of_active {f : Context → Context}
    (idle : ∀ ctx, ctx.phase ≠ .active → f ctx = ctx)
    (missed : e.activeContext c = .error (.contextFreed c) → e'.contexts = e.contexts)
    (hit : ∀ ctx, e.contexts[c.toNat]? = some ctx → ctx.phase = .active →
      e'.contexts[k]? = if k = c.toNat then e.contexts[k]?.map f else e.contexts[k]?) :
    e'.contexts[k]? = e.contexts[k]?.map fun ctx => if c.toNat = k then f ctx else ctx := by
  by_cases same : k = c.toNat
  · subst same
    simp only [if_true] at hit ⊢
    cases found : e.contexts[c.toNat]? with
    | none =>
        have gone : e.activeContext c = .error (.contextFreed c) := by
          refine Engine.activeContext_of_not_active fun ctx here => ?_
          rw [found] at here
          cases here
        rw [missed gone, found]
        rfl
    | some ctx =>
        by_cases active : ctx.phase = .active
        · rw [hit ctx found active, found]
        · have gone : e.activeContext c = .error (.contextFreed c) := by
            refine Engine.activeContext_of_not_active fun other here => ?_
            rw [found] at here
            cases here
            exact active
          rw [missed gone, found, Option.map_some, idle ctx active]
  · simp only [if_neg same, if_neg (Ne.symm same), Option.map_id'] at hit ⊢
    cases active : e.activeContext c with
    | ok other =>
        obtain ⟨here, phase⟩ := Engine.activeContext_eq_ok active
        exact hit other here phase
    | error refusal =>
        have gone : e.activeContext c = .error (.contextFreed c) := by
          refine Engine.activeContext_of_not_active fun other here phase => ?_
          rw [Engine.activeContext_of_active here phase] at active
          cases active
        rw [missed gone]

theorem Engine.contexts_shareContext : (e.shareContext c).contexts[k]? =
    e.contexts[k]?.map fun ctx => if c.toNat = k then ctx.share else ctx := by
  refine Engine.contexts_of_active (fun ctx idle => if_neg idle) ?_ ?_
  · intro gone
    rw [Engine.shareContext, gone]
    rfl
  · intro ctx found active
    rw [Engine.shareContext, Engine.activeContext_of_active found active]
    dsimp only
    rw [Engine.contexts_updateContext, Engine.contexts_checkCount]
    by_cases same : k = c.toNat
    · subst same
      rw [if_pos rfl, if_pos rfl, found, Option.map_some, Option.map_some, Context.share,
        if_pos active]
    · rw [if_neg same, if_neg same]

theorem Decision.proceeds_make (c : ContextId) (count : Int) :
    (Decision.make c count .release).proceeds = !decide (0 < count) := by
  rw [Decision.make]
  split
  · rename_i more
    rw [decide_eq_true more]
    rfl
  · rename_i none
    rw [decide_eq_false none]
    split
    · rfl
    · rfl

theorem Engine.contexts_settle (d : Decision) : (e.settle c d).contexts[k]? =
    if k = c.toNat ∧ d.proceeds = true then e.contexts[k]?.map Context.shut
    else e.contexts[k]? := by
  cases d with
  | defer => exact (if_neg fun both => Bool.noConfusion both.2).symm
  | proceed =>
      rw [Engine.settle, Engine.contexts_tearDown]
      simp only [Decision.proceeds, and_true]
  | tolerate d =>
      rw [Engine.settle, Engine.contexts_tearDown]
      simp only [Decision.proceeds, and_true]
      rfl

theorem Engine.contexts_leaveContext : (e.leaveContext c).2.contexts[k]? =
    e.contexts[k]?.map fun ctx => if c.toNat = k then ctx.leave else ctx := by
  refine Engine.contexts_of_active (fun ctx idle => if_neg idle) ?_ ?_
  · intro gone
    rw [Engine.leaveContext, gone]
    rfl
  · intro ctx found active
    rw [Engine.leaveContext, Engine.activeContext_of_active found active]
    dsimp only
    rw [Engine.contexts_settle, Decision.proceeds_make, Engine.contexts_updateContext,
      Engine.contexts_checkCount]
    by_cases same : k = c.toNat
    · subst same
      by_cases more : 0 < wrapCount (ctx.count - 1)
      · simp [found, Context.leave, active, more]
      · have hopen : Context.isOpen { ctx with count := wrapCount (ctx.count - 1) } = true :=
          Context.isOpen_of_active active
        rw [active] at hopen
        simp [found, Context.leave, active, more, Context.shut, hopen]
    · rw [if_neg same, if_neg fun both => same both.1, if_neg same]

theorem Engine.contexts_register : (e.register c v).2.contexts[k]? =
    e.contexts[k]?.map fun ctx => if c.toNat = k then ctx.register v else ctx := by
  refine Engine.contexts_of_active (fun ctx idle => if_neg fun both => idle both.1) ?_ ?_
  · intro gone
    rw [Engine.register]
    split
    · rename_i phase
      obtain ⟨ctx, found, active⟩ := Option.map_eq_some_iff.1 phase
      rw [Engine.activeContext_of_active found active] at gone
      cases gone
    · rfl
    · rfl
  · intro ctx found active
    have phase : e.contextPhase? c = some .active := by
      rw [Engine.contextPhase?, found, Option.map_some, active]
    rw [Engine.register, phase]
    dsimp only
    by_cases reference : v.isReference = true
    · rw [if_pos reference]
      dsimp only
      rw [Engine.contexts_updateContext, Engine.contexts_retain]
      by_cases same : k = c.toNat
      · subst same
        simp only [if_true, found, Option.map_some, Context.register, active, reference, and_self]
      · rw [if_neg same, if_neg same]
    · rw [if_neg reference]
      by_cases same : k = c.toNat
      · subst same
        rw [if_pos rfl, found, Option.map_some, Context.register,
          if_neg fun both => reference both.2]
      · rw [if_neg same]

theorem Engine.contexts_unregister : (e.unregister c v).2.contexts[k]? =
    e.contexts[k]?.map fun ctx => if c.toNat = k then ctx.unregister v else ctx := by
  refine Engine.contexts_of_active (fun ctx idle => if_neg idle) ?_ ?_
  · intro gone
    rw [Engine.unregister, gone]
  · intro ctx found active
    rw [Engine.unregister, Engine.activeContext_of_active found active]
    dsimp only
    split
    · rename_i absent
      by_cases same : k = c.toNat
      · subst same
        simp only [if_true, found, Option.map_some, Context.unregister, active, absent]
      · rw [if_neg same]
    · rename_i i place
      dsimp only
      rw [contexts_of_frame (Engine.frame_release _ _), Engine.contexts_updateContext]
      by_cases same : k = c.toNat
      · subst same
        simp only [if_true, found, Option.map_some, Context.unregister, active, place]
      · rw [if_neg same, if_neg same]

/-! ### Shutting down -/

theorem Engine.contexts_shutdown : e.shutdown.2.contexts[k]? =
    e.contexts[k]?.map fun ctx => if e.closes k then ctx.shut else ctx := by
  by_cases closed : e.isClosed = true
  · simp only [Engine.shutdown, Engine.closes, closed, if_true, Bool.not_true, Bool.false_and,
      Bool.false_eq_true, if_false, Option.map_id']
  · rw [Bool.not_eq_true] at closed
    obtain ⟨finalized, cleared⟩ := e.reported.clear_eq
    rw [Engine.shutdown_eq closed, cleared]
    show e.reported.contexts[k]? = _
    rw [Engine.contexts_reported, Engine.closeAll, Engine.contexts_foldl_tearDown]
    simp only [Engine.closes, closed, Bool.not_false, Bool.true_and, decide_eq_true_eq]
    split
    · rfl
    · exact Option.map_id'.symm

/-- A shutdown of an open engine closes every open context that has an id of its own. -/
theorem Engine.closes_of_isOpen (addressed : Addressed e.contexts e.isClosed)
    (found : e.contexts[c.toNat]? = some ctx) (hopen : ctx.isOpen = true) :
    e.closes c.toNat = true := by
  have still := addressed.eq_false_of_isOpen found hopen
  have listed := Engine.mem_openContexts (Array.mem_of_getElem? found) hopen
  rw [addressed.id_eq c.toNat ctx found, UInt32.ofNat_toNat] at listed
  rw [Engine.closes, still, Bool.not_false, Bool.true_and, decide_eq_true_eq]
  exact List.mem_map_of_mem listed

theorem Engine.isClosed_shutdown : e.shutdown.2.isClosed = true := by
  by_cases closed : e.isClosed = true
  · rw [Engine.shutdown, if_pos closed]
    exact closed
  · rw [Bool.not_eq_true] at closed
    rw [Engine.shutdown_eq closed]

/-! ### Closing the engine -/

/-- Nothing but closing an engine closes it. -/
theorem Engine.Change.isClosed_eq {C : Set Handle} {K : Prop} (change : Engine.Change C K e e')
    (stays : ¬ K) : e'.isClosed = e.isClosed := by
  cases change with
  | aside _ _ _ _ isClosed => exact isClosed
  | recount h g => rfl
  | claim mem g => rfl
  | lengthen found bare size => rfl
  | shorten found bare size => rfl
  | dispose h => exact isClosed_of_frame (e.frame_dispose h)
  | sweep => exact isClosed_of_frame (Engine.frame_foldl_discard _ _)
  | place hopen fits => rfl
  | close closing => exact absurd closing stays

theorem Engine.isClosed_perform : (e.perform a).2.isClosed = (e.isClosed || a.isShutdown) := by
  by_cases closes : a = .shutdown
  · subst closes
    exact Engine.isClosed_shutdown.trans (Bool.or_true _).symm
  · have other : a.isShutdown = false := by
      cases a with
      | shutdown => exact absurd rfl closes
      | _ => rfl
    obtain ⟨e', finalizers, changes, result⟩ := e.changes_perform a
    rw [result, other, Bool.or_false]
    exact changes.keep (P := fun e' => e'.isClosed = e.isClosed)
      (fun change same => (change.isClosed_eq closes).trans same) rfl

/-! ### Requests -/

/-- The number of the context that an answer hands over. -/
def Answer.opened? : Answer → Option ContextId
  | .contextId c => some c
  | _ => none

theorem opened?_answered {α : Type} {answer : α → Answer} {r : Except Refusal α × Engine}
    (other : ∀ a, (answer a).opened? = none) : (answered answer r).1.opened? = none := by
  rcases r with ⟨refusal | a, e⟩
  · rfl
  · exact other a

/-- A request moves every context by itself, and may open one more under the next
number. -/
structure Engine.Moved (e : Engine) (a : Action) (answer : Answer) (e' : Engine) : Prop where
  contexts : ∀ k ctx, e.contexts[k]? = some ctx →
    e'.contexts[k]? = some (a.onContext (e.closes k) k ctx)
  opened : (answer.opened? = none ∧ e'.contexts.size = e.contexts.size) ∨
    answer.opened? = some (.ofNat e.contexts.size) ∧ e'.isClosed = false ∧
      e'.contexts.size = e.contexts.size + 1 ∧
      ∃ global prototypes slots, prototypes.size = prototypeSlots slots ∧
        e'.contexts[e.contexts.size]? =
          some ⟨.ofNat e.contexts.size, .active, 1, global, prototypes, #[]⟩

/-- A context after a request was there before it, or has just been opened. -/
theorem Engine.Moved.context_cases {answer : Answer} (moved : e.Moved a answer e')
    (found : e'.contexts[k]? = some ctx) :
    (∃ old, e.contexts[k]? = some old ∧ ctx = a.onContext (e.closes k) k old) ∨
      e.contexts[k]? = none ∧ e'.isClosed = false ∧
        ∃ global prototypes slots, prototypes.size = prototypeSlots slots ∧
          ctx = ⟨.ofNat k, .active, 1, global, prototypes, #[]⟩ := by
  cases before : e.contexts[k]? with
  | some old =>
      have same := moved.contexts k old before
      rw [found] at same
      exact .inl ⟨old, rfl, Option.some.inj same⟩
  | none =>
      have outside := Array.getElem?_eq_none_iff.1 before
      obtain ⟨inside, -⟩ := Array.getElem?_eq_some_iff.1 found
      obtain ⟨-, size⟩ | ⟨-, hopen, size, global, prototypes, slots, all, last⟩ := moved.opened
      · omega
      · have next : k = e.contexts.size := Nat.le_antisymm (by omega) outside
        rw [next, last] at found
        rw [next]
        exact .inr ⟨rfl, hopen, global, prototypes, slots, all, (Option.some.inj found).symm⟩

theorem Engine.Moved.of_map {answer : Answer} (none : answer.opened? = none)
    (same : ∀ k, e'.contexts[k]? = e.contexts[k]?.map (a.onContext (e.closes k) k)) :
    e.Moved a answer e' := by
  refine ⟨fun k ctx found => ?_, .inl ⟨none, size_eq_of_getElem? same⟩⟩
  rw [same, found, Option.map_some]

theorem Action.onContext_eq_self (other : a.concernsContexts = false) (closes : Bool) :
    a.onContext closes k ctx = ctx := by
  cases a with
  | shareContext c => cases other
  | leaveContext c => cases other
  | register c v => cases other
  | unregister c v => cases other
  | shutdown => cases other
  | _ => rfl

theorem Context.isOpen_of_freed (freed : ctx.phase = .freed) : ctx.isOpen = false := by
  rw [Context.isOpen, freed]
  rfl

/-- A request leaves a context that is not active as it is, unless it closes it. -/
theorem Action.onContext_of_idle {closes : Bool} (idle : ctx.phase ≠ .active) :
    a.onContext closes k ctx = ctx ∨ a.onContext closes k ctx = ctx.shut := by
  cases a with
  | shareContext c =>
      have kept : ctx.share = ctx := if_neg idle
      left
      show (if c.toNat = k then ctx.share else ctx) = ctx
      rw [kept, ite_self]
  | leaveContext c =>
      have kept : ctx.leave = ctx := if_neg idle
      left
      show (if c.toNat = k then ctx.leave else ctx) = ctx
      rw [kept, ite_self]
  | register c v =>
      have kept : ctx.register v = ctx := if_neg fun both => idle both.1
      left
      show (if c.toNat = k then ctx.register v else ctx) = ctx
      rw [kept, ite_self]
  | unregister c v =>
      have kept : ctx.unregister v = ctx := if_neg idle
      left
      show (if c.toNat = k then ctx.unregister v else ctx) = ctx
      rw [kept, ite_self]
  | shutdown =>
      cases closes
      · exact .inl rfl
      · exact .inr rfl
  | _ => exact .inl rfl

/-- A request leaves a context that is freed as it is. -/
theorem Action.onContext_of_freed {closes : Bool} (freed : ctx.phase = .freed) :
    a.onContext closes k ctx = ctx := by
  have idle : ctx.phase ≠ .active := by
    rw [freed]
    decide
  rcases Action.onContext_of_idle (a := a) (k := k) idle with same | same
  · exact same
  · exact same.trans (if_neg (Bool.eq_false_iff.1 (Context.isOpen_of_freed freed)))

/-- A context that is not active does not become so. -/
theorem Action.active_of_onContext {closes : Bool}
    (active : (a.onContext closes k ctx).phase = .active) : ctx.phase = .active := by
  by_contra idle
  rcases Action.onContext_of_idle (a := a) (k := k) idle with same | same
  · exact idle (same ▸ active)
  · have hopen := Context.isOpen_of_active (same ▸ active)
    rw [Context.isOpen_shut] at hopen
    cases hopen

/-- Only a request for a context is answered with the number of one. -/
theorem Engine.opened?_carryOut (other : ∀ slots, a ≠ .openContext slots) :
    (e.carryOut a).1.opened? = none := by
  cases a with
  | openContext slots => exact absurd rfl (other slots)
  | context c => exact opened?_answered (r := (e.activeContext c, e)) fun _ => rfl
  | globalOf c => exact opened?_answered fun _ => rfl
  | takeProto c classId => exact opened?_answered fun _ => rfl
  | makeObjectIn c => exact opened?_answered fun _ => rfl
  | makeArrayIn c => exact opened?_answered fun _ => rfl
  | makeOfClass c classId => exact opened?_answered fun _ => rfl
  | makeWithProto proto classId => exact opened?_answered fun _ => rfl
  | construct c constructor classId => exact opened?_answered fun _ => rfl
  | makePlain proto => exact opened?_answered fun _ => rfl
  | makeArray proto items => exact opened?_answered fun _ => rfl
  | makeFunction name proto => exact opened?_answered fun _ => rfl
  | makeFunctionIn c name => exact opened?_answered fun _ => rfl
  | makeHost proto classId cookie => exact opened?_answered fun _ => rfl
  | makeString text => exact opened?_answered fun _ => rfl
  | boxNumber d => exact opened?_answered fun _ => rfl
  | makeNumber d => exact opened?_answered fun _ => rfl
  | store target key v => exact opened?_answered fun _ => rfl
  | append target v => exact opened?_answered fun _ => rfl
  | register c v => exact opened?_answered fun _ => rfl
  | setFinalizer classId f => exact opened?_answered fun _ => rfl
  | _ => rfl

theorem Engine.moved_openContext (e : Engine) (slots : Nat) :
    e.Moved (.openContext slots) (e.carryOut (.openContext slots)).1
      (e.carryOut (.openContext slots)).2 := by
  have outcome := e.openContext_cases slots
  rw [Engine.carryOut]
  rcases step : e.openContext slots with ⟨refusal | c, e'⟩ <;> rw [step] at outcome
  · obtain ⟨-, -, apart⟩ | ⟨refused, -⟩ := outcome
    · refine .of_map rfl fun k => ?_
      show e'.contexts[k]? = e.contexts[k]?.map id
      rw [apart.contexts, Option.map_id]
      rfl
    · cases refused
  · obtain ⟨refusal, refused, -⟩ | ⟨next, opens⟩ := outcome
    · cases refused
    · obtain ⟨global, prototypes, size, contexts⟩ := opens.contexts
      cases next
      have hopen : e'.isClosed = false := opens.isClosed.trans opens.hopen
      refine ⟨fun k ctx found => ?_, .inr ⟨rfl, hopen, ?_, global, prototypes, slots, size, ?_⟩⟩
      · obtain ⟨inside, -⟩ := Array.getElem?_eq_some_iff.1 found
        show e'.contexts[k]? = some ctx
        rw [contexts, Array.getElem?_push, if_neg (Nat.ne_of_lt inside), found]
      · show e'.contexts.size = _
        rw [contexts, Array.size_push]
      · show e'.contexts[_]? = _
        rw [contexts, Array.getElem?_push, if_pos rfl]

theorem Engine.moved_carryOut (e : Engine) (a : Action) :
    e.Moved a (e.carryOut a).1 (e.carryOut a).2 := by
  by_cases other : a.concernsContexts = false
  · have apart := e.apart_carryOut other
    refine .of_map (Engine.opened?_carryOut ?_) fun k => ?_
    · rintro slots rfl
      cases other
    · have still : a.onContext (e.closes k) k = id := by
        funext ctx
        exact Action.onContext_eq_self other _
      rw [apart.contexts, still, Option.map_id]
      rfl
  · cases a with
    | openContext slots => exact e.moved_openContext slots
    | shareContext c => exact .of_map rfl fun k => Engine.contexts_shareContext
    | leaveContext c => exact .of_map rfl fun k => Engine.contexts_leaveContext
    | register c v =>
        refine .of_map (opened?_answered fun _ => rfl) fun k => ?_
        rw [Engine.carryOut, snd_answered]
        exact Engine.contexts_register
    | unregister c v => exact .of_map rfl fun k => Engine.contexts_unregister
    | shutdown => exact .of_map rfl fun k => Engine.contexts_shutdown
    | _ => exact absurd rfl other

theorem Engine.moved_perform (e : Engine) (a : Action) :
    e.Moved a (e.perform a).1 (e.perform a).2 := by
  obtain ⟨e₁, apart, -, result⟩ := e.perform_eq_carryOut a
  have moved := e₁.moved_carryOut a
  rw [result]
  refine ⟨?_, ?_⟩
  · have same : e₁.closes = e.closes := by
      funext k
      rw [Engine.closes, Engine.closes, Engine.openContexts, Engine.openContexts, apart.contexts,
        apart.isClosed]
    rw [← same, ← apart.contexts]
    exact moved.contexts
  · rw [← apart.contexts]
    exact moved.opened

/-! ### Ids -/

theorem Action.id_onContext {closes : Bool} : (a.onContext closes k ctx).id = ctx.id := by
  cases a with
  | shareContext c =>
      simp only [Action.onContext, Context.share]
      split <;> (try split) <;> rfl
  | leaveContext c =>
      simp only [Action.onContext, Context.leave]
      split <;> (try split) <;> (try split) <;> rfl
  | register c v =>
      simp only [Action.onContext, Context.register]
      split <;> (try split) <;> rfl
  | unregister c v =>
      simp only [Action.onContext, Context.unregister]
      split <;> (try split) <;> (try split) <;> rfl
  | shutdown =>
      simp only [Action.onContext, Context.shut]
      split <;> (try split) <;> rfl
  | _ => rfl

theorem Context.phase_of_isOpen (shut : ctx.isOpen = false) : ctx.phase = .freed := by
  simpa [Context.isOpen] using shut

/-- Contexts stay under the ids under which they were opened, and a shutdown leaves no id
that leads to an open context. -/
theorem Addressed.perform (addressed : Addressed e.contexts e.isClosed) (a : Action) :
    Addressed (e.perform a).2.contexts (e.perform a).2.isClosed where
  id_eq p ctx found := by
    obtain ⟨old, before, rfl⟩ | ⟨-, -, global, prototypes, slots, -, rfl⟩ :=
      (e.moved_perform a).context_cases found
    · exact Action.id_onContext.trans (addressed.id_eq p old before)
    · rfl
  shut closed c ctx found := by
    obtain ⟨old, before, rfl⟩ | ⟨-, hopen, -⟩ := (e.moved_perform a).context_cases found
    · by_cases hopen : old.isOpen = true
      · -- Only a shutdown closes the engine, and then the context too.
        have still := addressed.eq_false_of_isOpen before hopen
        rw [Engine.isClosed_perform, still, Bool.false_or] at closed
        cases a with
        | shutdown =>
            rw [Engine.closes_of_isOpen addressed before hopen]
            exact old.isOpen_shut
        | _ => cases closed
      · rw [Bool.not_eq_true] at hopen
        rw [Action.onContext_of_freed (Context.phase_of_isOpen hopen)]
        exact hopen
    · rw [hopen] at closed
      cases closed

theorem Addressed.run (addressed : Addressed e.contexts e.isClosed) (requests : List Action) :
    Addressed (e.run requests).2.contexts (e.run requests).2.isClosed :=
  Engine.run_keep (P := fun e => Addressed e.contexts e.isClosed)
    (fun _ a addressed => addressed.perform a) addressed requests

/-! ### Strayed accesses -/

theorem Engine.apart_releaseRegistered : e.Apart (e.releaseRegistered v) := by
  rw [Engine.releaseRegistered]
  split
  · exact Engine.apart_release
  · rw [Engine.leaveBehind]
    split
    · exact Engine.apart_aside rfl
    · exact .refl e

theorem Engine.apart_vacated : (e.updateContext c Context.emptied).Apart (e.vacated c ctx) :=
  ((Engine.heapWork_apart.slotWork.foldl (fun _ _ => Engine.apart_releaseRegistered) _ _).trans
    Engine.apart_release).trans (Engine.apart_releaseAll _)

theorem Engine.strayed_tearDown (strayed : e.breaches.strayAccess = true) :
    (e.tearDown c).breaches.strayAccess = true := by
  cases found : e.contexts[c.toNat]? with
  | none => simpa [Engine.tearDown, found] using strayed
  | some ctx =>
      by_cases hopen : ctx.isOpen = true
      · rw [Engine.tearDown_eq found hopen]
        exact Engine.apart_vacated.strayed strayed
      · simpa [Engine.tearDown, found, hopen] using strayed

theorem Engine.strayed_shareContext (strayed : e.breaches.strayAccess = true) :
    (e.shareContext c).breaches.strayAccess = true := by
  rw [Engine.shareContext]
  split
  · exact (Engine.apart_checkCount _).strayed strayed
  · exact strayed

theorem Engine.strayed_leaveContext (strayed : e.breaches.strayAccess = true) :
    (e.leaveContext c).2.breaches.strayAccess = true := by
  rw [Engine.leaveContext]
  split
  · exact strayed
  · rename_i ctx active
    have checked : (e.checkCount (ctx.count - 1)).breaches.strayAccess = true :=
      (Engine.apart_checkCount _).strayed strayed
    dsimp only
    generalize Decision.make c (wrapCount (ctx.count - 1)) .release = decision
    cases decision with
    | defer => exact checked
    | proceed => exact Engine.strayed_tearDown checked
    | tolerate d => exact Engine.strayed_tearDown checked

theorem Engine.strayed_register (strayed : e.breaches.strayAccess = true) :
    (e.register c v).2.breaches.strayAccess = true := by
  rw [Engine.register]
  split
  · split
    · exact Engine.apart_retain.strayed strayed
    · exact strayed
  · exact strayed
  · exact strayed

theorem Engine.strayed_unregister (strayed : e.breaches.strayAccess = true) :
    (e.unregister c v).2.breaches.strayAccess = true := by
  rw [Engine.unregister]
  split
  · exact strayed
  · split
    · exact strayed
    · exact Engine.apart_release.strayed strayed

theorem Engine.strayed_shutdown (strayed : e.breaches.strayAccess = true) :
    e.shutdown.2.breaches.strayAccess = true := by
  have closed (cs : List ContextId) (e : Engine) (strayed : e.breaches.strayAccess = true) :
      (cs.foldl Engine.tearDown e).breaches.strayAccess = true := by
    induction cs generalizing e with
    | nil => exact strayed
    | cons c rest ih => exact ih _ (Engine.strayed_tearDown strayed)
  by_cases hopen : e.isClosed = false
  · have collected := Engine.apart_collect.strayed (closed e.openContexts e strayed)
    have reported : e.reported.breaches.strayAccess = true := by
      rw [Engine.reported]
      split
      · exact collected
      · exact collected
    obtain ⟨finalized, cleared⟩ := e.reported.clear_eq
    rw [Engine.shutdown_eq hopen, cleared]
    exact reported
  · rw [Engine.shutdown, if_pos (Bool.eq_true_of_not_eq_false hopen)]
    exact strayed

/-- A strayed access is never forgotten. -/
theorem Engine.strayed_perform (strayed : e.breaches.strayAccess = true) :
    (e.perform a).2.breaches.strayAccess = true := by
  obtain ⟨e₁, apart, -, result⟩ := e.perform_eq_carryOut a
  have strayed := apart.strayed strayed
  rw [result]
  by_cases other : a.concernsContexts = false
  · exact (e₁.apart_carryOut other).strayed strayed
  · cases a with
    | openContext slots =>
        rw [Engine.carryOut, snd_answered]
        obtain ⟨-, -, apart⟩ | ⟨-, opens⟩ := e₁.openContext_cases slots
        · exact apart.strayed strayed
        · exact opens.strayed strayed
    | shareContext c => exact Engine.strayed_shareContext strayed
    | leaveContext c => exact Engine.strayed_leaveContext strayed
    | register c v =>
        rw [Engine.carryOut, snd_answered]
        exact Engine.strayed_register strayed
    | unregister c v => exact Engine.strayed_unregister strayed
    | shutdown => exact Engine.strayed_shutdown strayed
    | _ => exact absurd rfl other

end

end CountedHeap
