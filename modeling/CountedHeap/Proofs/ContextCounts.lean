import CountedHeap.Proofs.ContextLife
import CountedHeap.Proofs.CountRange

/-!
How long a context is active. A context is opened with one reference on it, and is
active for as long as no more references were given back than were taken on it while
it was active, and the engine is not closed. So the number of references on it can be
told from the requests alone. It never gets to zero on an active context, so that one
request more to leave it either closes it or leaves it to those who share it, and
nobody is ever blamed for a context below zero. What is closed stays closed.

All this is told by ids, and an id is a word of 32 bits. The contexts are numbered from
zero until there is no other id to give out; the next one is given the id of the first,
which leads to the first, freed or not.

To speak of the requests made so far, they are counted along the run: a reference is
taken on a context by a request made while the context is active, and one is given
back by a request made after the context was opened, be it active or not.
-/

namespace CountedHeap

/-! ### Counting requests -/

/-- A request for one more reference on some context. -/
def Action.isShare : Action → Bool
  | .shareContext _ => true
  | _ => false

/-- A request for one more reference on context `c`. -/
def Action.shares (c : ContextId) : Action → Bool
  | .shareContext k => k == c
  | _ => false

/-- A request to give back one reference on context `c`. -/
def Action.leaves (c : ContextId) : Action → Bool
  | .leaveContext k => k == c
  | _ => false

/-- The references on context `c` that a request takes, if the context is active. -/
def Engine.sharing (e : Engine) (c : ContextId) (a : Action) : Nat :=
  if a.shares c ∧ e.contextPhase? c = some .active then 1 else 0

/-- The references on context `c` that a request gives back, if there is such a context. -/
def Engine.leaving (e : Engine) (c : ContextId) (a : Action) : Nat :=
  if a.leaves c ∧ (e.contextPhase? c).isSome then 1 else 0

/-- The references on context `c` that requests take while it is active. -/
def Engine.sharings (e : Engine) (c : ContextId) : List Action → Nat
  | [] => 0
  | a :: rest => e.sharing c a + (e.perform a).2.sharings c rest

/-- The references on context `c` that requests give back once it is there. -/
def Engine.leavings (e : Engine) (c : ContextId) : List Action → Nat
  | [] => 0
  | a :: rest => e.leaving c a + (e.perform a).2.leavings c rest

/-! ### One context -/

/-- A context of an engine that is closed or not, when `shared` references were taken
on it and `left` were given back. -/
structure Context.Tallied (ctx : Context) (closed : Bool) (shared left : Nat) : Prop where
  active_iff : ctx.phase = .active ↔ closed = false ∧ left ≤ shared
  count : ctx.phase = .active → ctx.count = 1 + ((shared : Int) - left)
  slots : ctx.phase = .active → builtinClassCount ≤ ctx.prototypes.size ∧
    ctx.prototypes.size ≤ prototypeSlotLimit
  freed : ctx.phase ≠ .active → ctx.closed = ctx

section

variable {e : Engine} {a : Action} {c : ContextId} {ctx : Context} {closed closes : Bool}
  {shared left : Nat}

theorem Context.Tallied.freed_eq (tallied : ctx.Tallied closed shared left)
    (idle : ctx.phase ≠ .active) : ctx.phase = .freed := by
  rw [← tallied.freed idle]
  rfl

/-- A context that has just been opened. -/
theorem Context.tallied_new {global : Value} {prototypes : Array Value} {slots : Nat}
    (size : prototypes.size = prototypeSlots slots) :
    Context.Tallied ⟨c, .active, 1, global, prototypes, #[]⟩ false 0 0 := by
  refine ⟨?_, fun _ => rfl, fun _ => ?_, fun idle => absurd rfl idle⟩
  · exact ⟨fun _ => ⟨rfl, Nat.le_refl 0⟩, fun _ => rfl⟩
  · show _ ≤ prototypes.size ∧ prototypes.size ≤ _
    rw [size]
    exact prototypeSlots_bounds slots

theorem Context.tallied_closed (spent : ¬ (closed = false ∧ left ≤ shared)) :
    ctx.closed.Tallied closed shared left := by
  refine ⟨⟨fun active => ?_, fun more => absurd more spent⟩, fun active => ?_, fun active => ?_,
    fun _ => rfl⟩
  · cases active
  · cases active
  · cases active

theorem Context.Tallied.share (tallied : ctx.Tallied closed shared left)
    (active : ctx.phase = .active) (few : shared + 1 < 0x7fffffff) :
    ctx.share.Tallied closed (shared + 1) left := by
  have count := tallied.count active
  have within := tallied.active_iff.1 active
  have fits : wrapCount (ctx.count + 1) = ctx.count + 1 := by
    refine wrapCount_of_inRange ?_
    simp only [CountInRange]
    omega
  rw [Context.share, if_pos active, fits]
  refine ⟨?_, fun _ => ?_, fun _ => tallied.slots active, fun idle => absurd active idle⟩
  · exact ⟨fun _ => ⟨within.1, Nat.le_succ_of_le within.2⟩, fun _ => active⟩
  · show ctx.count + 1 = _
    omega

/-- Giving back a reference on an active context takes its count to zero at worst. -/
theorem Context.Tallied.wrapCount_eq (tallied : ctx.Tallied closed shared left)
    (few : shared < 0x7fffffff) (active : ctx.phase = .active) :
    wrapCount (ctx.count - 1) = ctx.count - 1 := by
  have count := tallied.count active
  have within := tallied.active_iff.1 active
  refine wrapCount_of_inRange ?_
  simp only [CountInRange]
  omega

theorem Context.Tallied.leave (tallied : ctx.Tallied closed shared left)
    (few : shared < 0x7fffffff) : ctx.leave.Tallied closed shared (left + 1) := by
  by_cases active : ctx.phase = .active
  · have count := tallied.count active
    have within := tallied.active_iff.1 active
    rw [Context.leave, if_pos active, tallied.wrapCount_eq few active]
    split
    · rename_i more
      refine ⟨?_, fun _ => ?_, fun _ => tallied.slots active, fun idle => absurd active idle⟩
      · exact ⟨fun _ => ⟨within.1, by omega⟩, fun _ => active⟩
      · show ctx.count - 1 = _
        omega
    · rename_i last
      refine Context.tallied_closed ?_
      rintro ⟨-, more⟩
      omega
  · rw [Context.leave, if_neg active, ← tallied.freed active]
    refine Context.tallied_closed ?_
    rintro ⟨hopen, more⟩
    exact active (tallied.active_iff.2 ⟨hopen, Nat.le_of_succ_le more⟩)

theorem Context.Tallied.register {v : Value} (tallied : ctx.Tallied closed shared left) :
    (ctx.register v).Tallied closed shared left := by
  rw [Context.register]
  split
  · exact ⟨tallied.active_iff, tallied.count, tallied.slots, fun idle => absurd ‹_ ∧ _›.1 idle⟩
  · exact tallied

theorem Context.Tallied.unregister {v : Value} (tallied : ctx.Tallied closed shared left) :
    (ctx.unregister v).Tallied closed shared left := by
  rw [Context.unregister]
  split
  · rename_i active
    split
    · exact ⟨tallied.active_iff, tallied.count, tallied.slots, fun idle => absurd active idle⟩
    · exact tallied
  · exact tallied

theorem Context.Tallied.shut (tallied : ctx.Tallied closed shared left)
    (meets : ctx.isOpen = true → closes = true) :
    (if closes then ctx.shut else ctx).Tallied true shared left := by
  have spent : ¬ (true = false ∧ left ≤ shared) := fun both => Bool.noConfusion both.1
  by_cases hopen : ctx.isOpen = true
  · rw [if_pos (meets hopen), Context.shut, if_pos hopen]
    exact Context.tallied_closed spent
  · have idle : ctx.phase ≠ .active := fun active => hopen (Context.isOpen_of_active active)
    rw [Context.shut, if_neg hopen, ite_self, ← tallied.freed idle]
    exact Context.tallied_closed spent

/-- What a request adds to the count of references taken on a context. -/
theorem Context.Tallied.onContext (tallied : ctx.Tallied closed shared left)
    (few : shared + (if a.isShare then 1 else 0) < 0x7fffffff)
    (meets : ctx.isOpen = true → closes = true) :
    (a.onContext closes c.toNat ctx).Tallied (closed || a.isShutdown)
      (shared + if a.shares c ∧ ctx.phase = .active then 1 else 0)
      (left + if a.leaves c then 1 else 0) := by
  have still : ctx.Tallied (closed || false) shared left := by
    rw [Bool.or_false]
    exact tallied
  cases a with
  | shareContext k =>
      simp only [Action.isShare, if_true] at few
      show (if k.toNat = c.toNat then ctx.share else ctx).Tallied (closed || false)
        (shared + if (k == c) = true ∧ ctx.phase = .active then 1 else 0) left
      rw [Bool.or_false]
      simp only [UInt32.toNat_inj, beq_iff_eq]
      by_cases same : k = c
      · by_cases active : ctx.phase = .active
        · rw [if_pos same, if_pos ⟨same, active⟩]
          exact tallied.share active few
        · rw [if_pos same, if_neg fun both => active both.2, Context.share, if_neg active]
          exact tallied
      · rw [if_neg same, if_neg fun both => same both.1]
        exact tallied
  | leaveContext k =>
      show (if k.toNat = c.toNat then ctx.leave else ctx).Tallied (closed || false)
        shared (left + if (k == c) = true then 1 else 0)
      rw [Bool.or_false]
      simp only [UInt32.toNat_inj, beq_iff_eq]
      by_cases same : k = c
      · rw [if_pos same, if_pos same]
        exact tallied.leave (Nat.lt_of_le_of_lt (Nat.le_add_right _ _) few)
      · rw [if_neg same, if_neg same]
        exact tallied
  | register k v =>
      show (if k.toNat = c.toNat then ctx.register v else ctx).Tallied (closed || false) shared left
      rw [Bool.or_false]
      split
      · exact tallied.register
      · exact tallied
  | unregister k v =>
      show (if k.toNat = c.toNat then ctx.unregister v else ctx).Tallied (closed || false) shared
        left
      rw [Bool.or_false]
      split
      · exact tallied.unregister
      · exact tallied
  | shutdown =>
      show (if closes then ctx.shut else ctx).Tallied (closed || true) shared left
      rw [Bool.or_true]
      exact tallied.shut meets
  | _ => exact still

/-! ### The contexts of an engine -/

/-- Every context of an engine, when the given numbers of references were taken on each
and given back. -/
structure Engine.Tallied (e : Engine) (shared left : ContextId → Nat) : Prop where
  context : ∀ (c : ContextId) (ctx : Context), e.contexts[c.toNat]? = some ctx →
    ctx.Tallied e.isClosed (shared c) (left c)
  absent : ∀ c : ContextId, e.contexts[c.toNat]? = none → shared c = 0 ∧ left c = 0
  addressed : Addressed e.contexts e.isClosed

theorem Engine.tallied_new (limits : Limits) :
    (Engine.new limits).Tallied (fun _ => 0) (fun _ => 0) := by
  refine ⟨fun c ctx found => ?_, fun c _ => ⟨rfl, rfl⟩, .empty⟩
  have absent : (Engine.new limits).contexts[c.toNat]? = none := rfl
  rw [absent] at found
  cases found

theorem Engine.contextPhase?_eq (found : e.contexts[c.toNat]? = some ctx) :
    e.contextPhase? c = some ctx.phase := by
  rw [Engine.contextPhase?, found, Option.map_some]

theorem Engine.contextPhase?_eq_none (absent : e.contexts[c.toNat]? = none) :
    e.contextPhase? c = none := by
  rw [Engine.contextPhase?, absent, Option.map_none]

theorem Engine.Tallied.onContext {shared left : ContextId → Nat}
    (tallied : e.Tallied shared left)
    (few : ∀ c, shared c + (if a.isShare then 1 else 0) < 0x7fffffff)
    (found : e.contexts[c.toNat]? = some ctx) :
    (a.onContext (e.closes c.toNat) c.toNat ctx).Tallied (e.perform a).2.isClosed
      (shared c + e.sharing c a) (left c + e.leaving c a) := by
  have stepped := (tallied.context c ctx found).onContext (a := a) (c := c) (few c)
    (Engine.closes_of_isOpen tallied.addressed found)
  simpa only [Engine.sharing, Engine.leaving, Engine.isClosed_perform,
    Engine.contextPhase?_eq found, Option.some_inj, Option.isSome_some, and_true] using stepped

/-- One request. -/
theorem Engine.Tallied.perform {shared left : ContextId → Nat} (tallied : e.Tallied shared left)
    (few : ∀ c, shared c + (if a.isShare then 1 else 0) < 0x7fffffff) :
    (e.perform a).2.Tallied (fun c => shared c + e.sharing c a)
      (fun c => left c + e.leaving c a) := by
  have moved := e.moved_perform a
  -- Of a context that was not there before, nothing is on record yet.
  have fresh : ∀ c : ContextId, e.contexts[c.toNat]? = none →
      shared c + e.sharing c a = 0 ∧ left c + e.leaving c a = 0 := by
    intro c absent
    obtain ⟨shared, left⟩ := tallied.absent c absent
    simp [shared, left, Engine.sharing, Engine.leaving, Engine.contextPhase?_eq_none absent]
  refine ⟨fun c ctx found => ?_, fun c absent => ?_, tallied.addressed.perform a⟩
  · obtain ⟨old, before, rfl⟩ | ⟨before, hopen, global, prototypes, slots, size, rfl⟩ :=
      moved.context_cases found
    · exact tallied.onContext few before
    · obtain ⟨shared, left⟩ := fresh c before
      rw [shared, left, hopen]
      exact Context.tallied_new size
  · refine fresh c ?_
    have outside := Array.getElem?_eq_none_iff.1 absent
    refine Array.getElem?_eq_none_iff.2 ?_
    obtain ⟨-, size⟩ | ⟨-, -, size, -⟩ := moved.opened
    · omega
    · omega

theorem Engine.sharing_le (e : Engine) (c : ContextId) (a : Action) :
    e.sharing c a ≤ if a.isShare then 1 else 0 := by
  cases a with
  | shareContext k =>
      rw [Engine.sharing]
      split
      · exact Nat.le_refl 1
      · exact Nat.zero_le 1
  | _ => exact Nat.le_refl 0

/-- A whole run. -/
theorem Engine.Tallied.run {shared left : ContextId → Nat} (tallied : e.Tallied shared left)
    (requests : List Action)
    (few : ∀ c, shared c + requests.countP Action.isShare < 0x7fffffff) :
    (e.run requests).2.Tallied (fun c => shared c + e.sharings c requests)
      (fun c => left c + e.leavings c requests) := by
  induction requests generalizing e shared left with
  | nil => exact tallied
  | cons a rest ih =>
      simp only [List.countP_cons] at few
      have first := tallied.perform (a := a) fun c => by
        have bound := few c
        omega
      have later := ih first fun c => by
        have bound := few c
        have step := e.sharing_le c a
        omega
      simp only [Nat.add_assoc] at later
      exact later

theorem Engine.sharings_le (e : Engine) (c : ContextId) (requests : List Action) :
    e.sharings c requests ≤ requests.countP Action.isShare := by
  induction requests generalizing e with
  | nil => exact Nat.le_refl 0
  | cons a rest ih =>
      have first := e.sharing_le c a
      have later := ih (e.perform a).2
      rw [Engine.sharings, List.countP_cons]
      omega

/-- A context that is freed is as it is for good. -/
theorem Engine.contexts_run_of_freed (found : e.contexts[c.toNat]? = some ctx)
    (freed : ctx.phase = .freed) (later : List Action) :
    (e.run later).2.contexts[c.toNat]? = some ctx := by
  have kept (e : Engine) (a : Action) (found : e.contexts[c.toNat]? = some ctx) :
      (e.perform a).2.contexts[c.toNat]? = some ctx := by
    rw [(e.moved_perform a).contexts c.toNat ctx found, Action.onContext_of_freed freed]
  exact Engine.run_keep (P := fun e => e.contexts[c.toNat]? = some ctx) kept found later

/-- Contexts get their ids in order, and from the start again when all are given out. -/
theorem Engine.opened_run (e : Engine) (requests : List Action) :
    (List.range e.contexts.size).map UInt32.ofNat ++
        (e.run requests).1.filterMap Answer.opened? =
      (List.range (e.run requests).2.contexts.size).map UInt32.ofNat := by
  induction requests generalizing e with
  | nil => exact List.append_nil _
  | cons a rest ih =>
      have later := ih (e.perform a).2
      show (List.range e.contexts.size).map UInt32.ofNat ++
        ((e.perform a).1 :: ((e.perform a).2.run rest).1).filterMap Answer.opened? = _
      rw [List.filterMap_cons]
      obtain ⟨answer, size⟩ | ⟨answer, -, size, -⟩ := (e.moved_perform a).opened
      · rw [answer, ← size]
        exact later
      · rw [size, List.range_succ, List.map_append, List.append_assoc] at later
        rw [answer]
        exact later

theorem Engine.opened_run_new (limits : Limits) (requests : List Action) :
    ((Engine.new limits).run requests).1.filterMap Answer.opened? =
      (List.range ((Engine.new limits).run requests).2.contexts.size).map UInt32.ofNat :=
  (Engine.new limits).opened_run requests

/-! ### What a context answers -/

/-- Whoever leaves a context that is not active is told so. -/
theorem Engine.leaveContext_of_not_active
    (idle : ∀ ctx, e.contexts[c.toNat]? = some ctx → ctx.phase ≠ .active) :
    (e.perform (.leaveContext c)).1 = .decision (.tolerate (.contextGone c)) := by
  show Answer.decision (e.leaveContext c).1 = _
  rw [Engine.leaveContext, Engine.activeContext_of_not_active idle]

/-- Whoever leaves an active context closes it or leaves it to others. -/
theorem Context.Tallied.leaveContext (tallied : ctx.Tallied e.isClosed shared left)
    (few : shared < 0x7fffffff) (found : e.contexts[c.toNat]? = some ctx)
    (active : ctx.phase = .active) :
    (e.leaveContext c).1 = if left < shared then .defer else .proceed := by
  have count := tallied.count active
  have within := tallied.active_iff.1 active
  rw [Engine.leaveContext, Engine.activeContext_of_active found active]
  dsimp only
  rw [Decision.make, tallied.wrapCount_eq few active]
  by_cases more : left < shared
  · rw [if_pos more]
    exact if_pos (by omega)
  · rw [if_neg more, if_neg (by omega), if_pos (by omega)]

/-- An active context has a prototype for every class of the engine's own. -/
theorem Context.Tallied.takeProto (tallied : ctx.Tallied e.isClosed shared left)
    (found : e.contexts[c.toNat]? = some ctx) (active : ctx.phase = .active) (classId : ClassId) :
    ∃ proto, (e.takeProto c classId).1 = .ok proto := by
  obtain ⟨enough, -⟩ := tallied.slots active
  have proto : ∃ proto, e.protoFor c classId = .ok proto := by
    rw [Engine.protoFor, Engine.activeContext_of_active found active]
    dsimp only
    cases slot : ctx.prototypes[classId.toNat]? with
    | some proto => exact ⟨proto, rfl⟩
    | none =>
        have past : classId.isHost = true := by
          have outside := Array.getElem?_eq_none_iff.1 slot
          rw [ClassId.isHost, decide_eq_true_eq]
          omega
        dsimp only
        rw [if_pos past]
        exact ⟨_, rfl⟩
  obtain ⟨proto, held⟩ := proto
  rw [Engine.takeProto, held]
  exact ⟨proto, rfl⟩

/-! ### Runs -/

/-- Context `c` of an engine, when `shared` references were taken on it while it was
active and `left` were given back since it was opened. -/
structure Engine.Manages (e : Engine) (c : ContextId) (ctx : Context) (shared left : Nat) :
    Prop where
  between : ctx.phase ≠ .closing
  active_iff : ctx.phase = .active ↔ e.isClosed = false ∧ left ≤ shared
  count : ctx.phase = .active → ctx.count = 1 + ((shared : Int) - left) ∧ 1 ≤ ctx.count
  slots : ctx.phase = .active → 6 ≤ ctx.prototypes.size ∧ ctx.prototypes.size ≤ 256
  empty : ctx.phase = .freed →
    ctx.global = Value.null ∧ ctx.prototypes = #[] ∧ ctx.registered = #[]
  lasting : ctx.phase = .freed → ∀ later, (e.run later).2.contexts[c.toNat]? = some ctx
  left : ctx.phase = .active → (e.perform (.leaveContext c)).1 =
    .decision (if left < shared then .defer else .proceed)
  gone : ctx.phase = .freed →
    (e.perform (.leaveContext c)).1 = .decision (.tolerate (.contextGone c))
  proto : ctx.phase = .active → ∀ classId id,
    (e.perform (.takeProto c classId)).1 ≠ .refused (.invalidClass id)

theorem Context.Tallied.manages (tallied : ctx.Tallied e.isClosed shared left)
    (few : shared < 0x7fffffff) (found : e.contexts[c.toNat]? = some ctx) :
    e.Manages c ctx shared left where
  between := by
    intro closing
    have freed := tallied.freed_eq (by rw [closing]; decide)
    rw [closing] at freed
    cases freed
  active_iff := tallied.active_iff
  count := by
    intro active
    have count := tallied.count active
    obtain ⟨-, within⟩ := tallied.active_iff.1 active
    exact ⟨count, by omega⟩
  slots := tallied.slots
  empty := by
    intro freed
    rw [← tallied.freed (by rw [freed]; decide)]
    exact ⟨rfl, rfl, rfl⟩
  lasting := Engine.contexts_run_of_freed found
  left := by
    intro active
    rw [← tallied.leaveContext few found active]
    rfl
  gone := by
    intro freed
    refine Engine.leaveContext_of_not_active fun other here => ?_
    rw [found] at here
    cases here
    rw [freed]
    decide
  proto := by
    intro active classId id refused
    obtain ⟨proto, taken⟩ := tallied.takeProto found active classId
    have given : (e.perform (.takeProto c classId)).1 =
        (answered .value (e.takeProto c classId)).1 := rfl
    rcases step : e.takeProto c classId with ⟨refusal | v, e'⟩ <;> rw [step] at taken given
    · cases taken
    · rw [given] at refused
      cases refused

end

/-- The contexts of an engine after any run of requests. They are numbered from zero in the
order in which they were opened, modulo the number of ids, so that no id is given out twice
as long as there are no more contexts than ids. An id leads to the context that was first
opened under it. This is active for as long as the engine is not closed and no more
references were given back than were taken while it was active, and is freed for good after
that. Leaving it is answered accordingly, as it is for a number that no context has. -/
theorem Engine.contexts_of_run (limits : Limits) (requests : List Action)
    (few : requests.countP Action.isShare < 0x7fffffff) :
    ((Engine.new limits).run requests).1.filterMap Answer.opened? =
        (List.range ((Engine.new limits).run requests).2.contexts.size).map UInt32.ofNat ∧
      (((Engine.new limits).run requests).2.contexts.size ≤ 0x100000000 →
        (((Engine.new limits).run requests).1.filterMap Answer.opened?).map UInt32.toNat =
          List.range ((Engine.new limits).run requests).2.contexts.size) ∧
      (∀ (c : ContextId) (ctx : Context),
        ((Engine.new limits).run requests).2.contexts[c.toNat]? = some ctx →
          ctx.id = c ∧ ((Engine.new limits).run requests).2.Manages c ctx
            ((Engine.new limits).sharings c requests) ((Engine.new limits).leavings c requests)) ∧
      ∀ c : ContextId, ((Engine.new limits).run requests).2.contexts.size ≤ c.toNat →
        (((Engine.new limits).run requests).2.perform (.leaveContext c)).1 =
          .decision (.tolerate (.contextGone c)) := by
  have opened := Engine.opened_run_new limits requests
  have tallied := (Engine.tallied_new limits).run requests fun _ => by
    rw [Nat.zero_add]
    exact few
  simp only [Nat.zero_add] at tallied
  refine ⟨opened, fun ids => ?_, fun c ctx found => ⟨?_, ?_⟩, fun c outside => ?_⟩
  · rw [opened, List.map_map]
    refine (List.map_congr_left fun p inside => ?_).trans (List.map_id _)
    exact UInt32.toNat_ofNat_of_lt' ((List.mem_range.1 inside).trans_le ids)
  · rw [tallied.addressed.id_eq c.toNat ctx found, UInt32.ofNat_toNat]
  · refine (tallied.context c ctx found).manages ?_ found
    exact Nat.lt_of_le_of_lt (Engine.sharings_le _ c requests) few
  · refine Engine.leaveContext_of_not_active fun ctx found => ?_
    rw [Array.getElem?_eq_none_iff.2 outside] at found
    cases found

/-- A host that leaves a context once more than it may, opens another, and shares and
leaves that one too. -/
def leftTooOften : List Action :=
  [.openContext 0, .shareContext 0, .leaveContext 0, .leaveContext 0, .leaveContext 0,
    .openContext 9, .shareContext 0, .shareContext 1, .leaveContext 7, .leaveContext 1]

/-- The first context is freed, and sharing it then counts for nothing. The second is
active, and the next request to leave it closes it. -/
theorem contexts_of_run_leftTooOften : ∃ e, e = ((Engine.new {}).run leftTooOften).2 ∧
    (((Engine.new {}).run leftTooOften).1.filterMap Answer.opened?).map UInt32.toNat = [0, 1] ∧
      (∃ ctx, e.contexts[0]? = some ctx ∧ e.Manages 0 ctx 1 3 ∧ ctx.phase = .freed) ∧
      (∃ ctx, e.contexts[1]? = some ctx ∧ e.Manages 1 ctx 1 1 ∧ ctx.phase = .active ∧
        ctx.prototypes.size = 9) ∧
      (e.perform (.leaveContext 2)).1 = .decision (.tolerate (.contextGone 2)) := by
  have facts : leftTooOften.countP Action.isShare < 0x7fffffff ∧
      ((Engine.new {}).run leftTooOften).2.contexts.size = 2 ∧
      (((Engine.new {}).run leftTooOften).2.contexts[0]?.map (·.phase)) = some .freed ∧
      (((Engine.new {}).run leftTooOften).2.contexts[1]?.map fun ctx =>
        (ctx.phase, ctx.prototypes.size)) = some (.active, 9) ∧
      (Engine.new {}).sharings 0 leftTooOften = 1 ∧ (Engine.new {}).leavings 0 leftTooOften = 3 ∧
      (Engine.new {}).sharings 1 leftTooOften = 1 ∧
      (Engine.new {}).leavings 1 leftTooOften = 1 := by
    decide +kernel
  obtain ⟨few, size, first, second, shared₀, left₀, shared₁, left₁⟩ := facts
  obtain ⟨-, opened, keeps, gone⟩ := Engine.contexts_of_run {} leftTooOften few
  -- Of the run, only these facts are needed from here on.
  generalize (Engine.new {}).run leftTooOften = run at *
  obtain ⟨ctx₀, found₀, phase₀⟩ := Option.map_eq_some_iff.1 first
  obtain ⟨ctx₁, found₁, facts₁⟩ := Option.map_eq_some_iff.1 second
  obtain ⟨phase₁, slots₁⟩ := Prod.mk.inj facts₁
  obtain ⟨-, kept₀⟩ := keeps 0 ctx₀ found₀
  obtain ⟨-, kept₁⟩ := keeps 1 ctx₁ found₁
  rw [shared₀, left₀] at kept₀
  rw [shared₁, left₁] at kept₁
  refine ⟨_, rfl, ?_, ⟨ctx₀, found₀, kept₀, phase₀⟩, ⟨ctx₁, found₁, kept₁, phase₁, slots₁⟩, ?_⟩
  · rw [opened (by omega), size]
    rfl
  · exact gone 2 (Nat.le_of_eq size)

/-! ### Where the ids end

An engine without a memory limit opens as many contexts as it is asked for. -/

section

variable {e : Engine} {n : Nat} {v : Value}

/-- An engine that refuses no object. -/
structure Engine.Unlimited (e : Engine) : Prop where
  hopen : e.isClosed = false
  memory : e.limits.memory = none

theorem Engine.Unlimited.retain (unlimited : e.Unlimited) : (e.retain v).Unlimited := by
  rw [Engine.retain]
  split
  · rw [Engine.addReference]
    split
    · rw [Engine.checkCount]
      split <;> exact ⟨unlimited.hopen, unlimited.memory⟩
    · exact ⟨unlimited.hopen, unlimited.memory⟩
  · exact unlimited

theorem Engine.Unlimited.allocate (unlimited : e.Unlimited) (classId : ClassId)
    (payload : Payload) : ∃ v e', e.allocate classId payload = (.ok v, e') ∧ e'.Unlimited := by
  have made := Engine.allocate_of_unlimited classId payload unlimited.hopen unlimited.memory
  have frame := e.frame_allocate classId payload
  rw [made] at frame
  refine ⟨_, _, made, (isClosed_of_frame frame).trans unlimited.hopen, ?_⟩
  exact (congrArg (fun f => f.limits.memory) frame).trans unlimited.memory

theorem Engine.Unlimited.makePlain (unlimited : e.Unlimited) (proto : Value) :
    ∃ v e', e.makePlain proto = (.ok v, e') ∧ e'.Unlimited :=
  unlimited.retain.allocate ClassId.object (.plain proto [])

theorem Engine.Unlimited.makePrototypes (unlimited : e.Unlimited) (base : Value)
    (made : Array Value) (n : Nat) :
    ∃ protos e', e.makePrototypes base made n = (.ok protos, e') ∧ e'.Unlimited := by
  induction n generalizing e made with
  | zero => exact ⟨made, e, rfl, unlimited⟩
  | succ n ih =>
      obtain ⟨proto, e', first, unlimited'⟩ := unlimited.makePlain base
      rw [Engine.makePrototypes, first]
      exact ih unlimited' _

theorem Engine.Unlimited.openContext (unlimited : e.Unlimited) (slots : Nat) :
    ∃ c e', e.openContext slots = (.ok c, e') ∧ e'.Unlimited := by
  obtain ⟨base, e₁, first, unlimited₁⟩ := unlimited.makePlain Value.null
  obtain ⟨protos, e₂, second, unlimited₂⟩ :=
    unlimited₁.makePrototypes base #[base] (prototypeSlots slots - 1)
  obtain ⟨global, e₃, third, unlimited₃⟩ :=
    (unlimited₂.retain (v := base)).allocate ClassId.global (.plain base [])
  rw [Engine.openContext, if_neg (Bool.eq_false_iff.1 unlimited.hopen), first]
  dsimp only
  rw [second]
  dsimp only
  rw [Engine.makeContext, Engine.allocateWithProto, third]
  exact ⟨_, _, rfl, unlimited₃.hopen, unlimited₃.memory⟩

/-- An engine between two requests whose counts leave room for what another context takes,
when no more than `n` references were given back on contexts. -/
structure Engine.Opening (n : Nat) (e : Engine) : Prop where
  unlimited : e.Unlimited
  settled : e.Settled ∅ 0
  within : e.Within (fun _ => prototypeSlotLimit + 1) 1 n

/-- One more context is opened. -/
theorem Engine.Opening.openContext (opening : e.Opening n) (few : n ≤ 0x80000000) (slots : Nat) :
    (e.perform (.openContext slots)).2.Opening n ∧
      (e.perform (.openContext slots)).2.contexts.size = e.contexts.size + 1 := by
  have performed : e.perform (.openContext slots) =
      answered .contextId (e.openContext slots) :=
    Engine.perform_of_valid fun v passed => absurd passed List.not_mem_nil
  obtain ⟨c, e', step, unlimited⟩ := opening.unlimited.openContext slots
  have outcome := e.openContext_cases slots
  have within : (e.openContext slots).2.Within _ 1 n :=
    opening.within.openContext (fun _ => Nat.le_refl _) (fun _ => by decide) few (Nat.le_refl 1)
  have settled := opening.settled.openContext within.inRange
  rw [step] at outcome within settled
  rw [performed, step]
  obtain ⟨refusal, refused, -⟩ | ⟨-, opens⟩ := outcome
  · cases refused
  · obtain ⟨global, protos, -, contexts⟩ := opens.contexts
    refine ⟨⟨unlimited, settled, within⟩, ?_⟩
    show e'.contexts.size = _
    rw [contexts, Array.size_push]

/-- And so are as many as are asked for. -/
theorem Engine.Opening.run_opens (opening : e.Opening n) (few : n ≤ 0x80000000) (slots k : Nat) :
    (e.run (List.replicate k (.openContext slots))).2.Opening n ∧
      (e.run (List.replicate k (.openContext slots))).2.contexts.size = e.contexts.size + k := by
  induction k generalizing e with
  | zero => exact ⟨opening, rfl⟩
  | succ k ih =>
      obtain ⟨first, size⟩ := opening.openContext few slots
      obtain ⟨later, total⟩ := ih first
      refine ⟨later, ?_⟩
      show ((e.perform (.openContext slots)).2.run _).2.contexts.size = _
      rw [total, size]
      omega

end

/-- A host that opens a context and leaves it, and then opens `k` others. -/
def reopening (k : Nat) : List Action :=
  .openContext 0 :: .leaveContext 0 :: List.replicate k (.openContext 0)

theorem Engine.run_openContext_leaveContext (e : Engine) :
    (e.run [.openContext 0, .leaveContext 0]).2 =
      ((e.perform (.openContext 0)).2.leaveContext 0).2 :=
  rfl

/-- What the others are opened after. -/
theorem opening_firstLeft : ∃ e, e = ((Engine.new {}).run [.openContext 0, .leaveContext 0]).2 ∧
    e.Opening 1 ∧ e.contexts.size = 1 ∧
      ∃ ctx, e.contexts[0]? = some ctx ∧ ctx.phase = .freed := by
  have start : (Engine.new {}).Opening 0 :=
    ⟨⟨rfl, rfl⟩, Engine.settled_new {}, Engine.within_new {} _ _⟩
  obtain ⟨first, -⟩ := start.openContext (Nat.zero_le _) 0
  have facts : ((Engine.new {}).run [.openContext 0, .leaveContext 0]).2.isClosed = false ∧
      ((Engine.new {}).run [.openContext 0, .leaveContext 0]).2.limits.memory = none ∧
      ((Engine.new {}).run [.openContext 0, .leaveContext 0]).2.contexts.size = 1 ∧
      (((Engine.new {}).run [.openContext 0, .leaveContext 0]).2.contexts[0]?.map (·.phase)) =
        some .freed := by
    decide +kernel
  have settled := first.settled.leaveContext (c := 0)
  have within := first.within.leaveContext (c := 0) (by decide) (by decide)
  rw [← Engine.run_openContext_leaveContext] at settled within
  generalize ((Engine.new {}).run [.openContext 0, .leaveContext 0]).2 = e at *
  obtain ⟨hopen, memory, size, phase⟩ := facts
  exact ⟨e, rfl, ⟨⟨hopen, memory⟩, settled, within⟩, size, Option.map_eq_some_iff.1 phase⟩

/-- The last of them gets the next id, if there is one, and the first context stays freed. -/
theorem run_reopening (k : Nat) : ∃ e, e = ((Engine.new {}).run (reopening k)).2 ∧
    e.Opening 1 ∧ e.contextPhase? 0 = some .freed ∧
      ((Engine.new {}).run (reopening k)).1.filterMap Answer.opened? =
        (List.range k).map UInt32.ofNat ++ [.ofNat k] := by
  obtain ⟨e, is, left, size, ctx, found, freed⟩ := opening_firstLeft
  obtain ⟨later, total⟩ := left.run_opens (by decide) 0 k
  have kept := Engine.contexts_run_of_freed (c := 0) found freed (List.replicate k (.openContext 0))
  have whole : ((Engine.new {}).run (reopening k)).2 =
      (e.run (List.replicate k (.openContext 0))).2 := by
    rw [is]
    exact (Engine.new {}).run_append [.openContext 0, .leaveContext 0] _
  have opened := Engine.opened_run_new {} (reopening k)
  rw [whole, total, size, Nat.add_comm, List.range_succ, List.map_append] at opened
  refine ⟨_, rfl, ?_, ?_, opened⟩
  · rw [whole]
    exact later
  · rw [whole, Engine.contextPhase?_eq kept, freed]

theorem countP_reopening (k : Nat) : (reopening k).countP Action.isShare = 0 := by
  rw [reopening, List.countP_cons, List.countP_cons, List.countP_replicate]
  rfl

/-- When every id has been given out, the next context gets the id of the first, which is
freed. Nobody has read a header that was gone. -/
theorem id_reissued : ∃ ids e, e = ((Engine.new {}).run (reopening 0x100000000)).2 ∧
    (reopening 0x100000000).countP Action.isShare = 0 ∧ e.breaches.strayAccess = false ∧
      e.InRange ∧ e.isClosed = false ∧
      ((Engine.new {}).run (reopening 0x100000000)).1.filterMap Answer.opened? = ids ++ [0] ∧
        0 ∈ ids ∧ e.contextPhase? 0 = some .freed := by
  obtain ⟨e, is, opening, freed, opened⟩ := run_reopening 0x100000000
  have first (k : Nat) (pos : 0 < k) : 0 ∈ (List.range k).map UInt32.ofNat :=
    List.mem_map.2 ⟨0, List.mem_range.2 pos, rfl⟩
  exact ⟨_, e, is, countP_reopening _, opening.settled.blameless.unstrayed,
    opening.within.inRange, opening.unlimited.hopen, opened, first _ (by omega), freed⟩

end CountedHeap
