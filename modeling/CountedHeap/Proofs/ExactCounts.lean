import CountedHeap.Proofs.CountRange
import CountedHeap.Proofs.Passes

/-!
Which counts are exact. A run in which fewer references are taken than the range of a count
allows for is exact in all its counts, however long it is, and its collections go by the
counts as they are. The bound matters: where a host takes one reference more than a count can
hold, the count is negative, and the object is garbage however many own it.
-/

namespace CountedHeap

/-- Whether a request may leave one more reference on something that was there before. -/
def Action.takes : Action → Bool
  | .shareContext _ => true
  | .globalOf _ => true
  | .takeProto _ _ => true
  | .makeObjectIn _ => true
  | .makeArrayIn _ => true
  | .makeOfClass _ _ => true
  | .makeWithProto _ _ => true
  | .construct _ _ _ => true
  | .makePlain _ => true
  | .makeArray _ _ => true
  | .makeFunction _ _ => true
  | .makeFunctionIn _ _ => true
  | .makeHost _ _ _ => true
  | .fetch _ _ => true
  | .retain _ => true
  | .adopt _ => true
  | .hold _ => true
  | .register _ _ => true
  | _ => false

/-- Whether a request gives a reference back without a look at what is left. -/
def Action.surrenders : Action → Bool
  | .relinquish _ => true
  | .letGo _ => true
  | .leaveContext _ => true
  | _ => false

section

variable {e : Engine} {m t n : Nat} {a : Action}

theorem Engine.Within.answered {α : Type} {answer : α → Answer} {r : Except Refusal α × Engine}
    {β : Handle → Nat} (within : r.2.Within β t n) : (answered answer r).2.Within β t n := by
  rw [snd_answered]
  exact within

/-- One request moves the bounds by no more than it says. -/
theorem Engine.Within.carryOut (within : e.Within (fun _ => m) t n)
    (wide : prototypeSlotLimit + 1 ≤ m) (one : 1 ≤ t) (below : t ≤ m)
    (room : m + 2 < 0x80000000) (few : n < 0x80000000) (a : Action) :
    (e.carryOut a).2.Within (fun _ => m + a.takes.toNat) (t + a.takes.toNat)
      (n + a.surrenders.toNat) := by
  have few' : n ≤ 0x80000000 := Nat.le_of_lt few
  have room₁ : ∀ _ : Handle, m + 1 < 0x80000000 := fun _ => Nat.lt_of_succ_lt room
  have pos : ∀ _ : Handle, 1 ≤ m := fun _ => one.trans below
  -- Whatever takes a reference on an object may as well have taken one on a context.
  cases a with
  | openContext slots => exact (within.openContext (fun _ => wide) room₁ few' one).answered
  | shareContext c => exact (within.shareContext (by omega) few').raise
  | leaveContext c => exact within.leaveContext (by omega) few
  | context c =>
      rw [Engine.carryOut, snd_answered]
      exact within
  | globalOf c => exact (within.globalOf room₁ few').raiseTop.answered
  | takeProto c classId => exact (within.takeProto room₁ few').raiseTop.answered
  | makeObjectIn c => exact (within.makeOfClass pos room₁ few').raiseTop.answered
  | makeArrayIn c => exact (within.makeOfClass pos room₁ few').raiseTop.answered
  | makeOfClass c classId => exact (within.makeOfClass pos room₁ few').raiseTop.answered
  | makeWithProto proto classId =>
      exact (within.makeWithProto pos room₁ few').oneMore.raiseTop.answered
  | construct c constructor classId =>
      exact (within.construct pos (fun _ => room) few').raiseTop.answered
  | makePlain proto => exact (within.makeWithProto pos room₁ few').oneMore.raiseTop.answered
  | makeArray proto items =>
      exact (within.allocateWithProto pos room₁ few').oneMore.raiseTop.answered
  | makeFunction name proto =>
      exact (within.allocateWithProto pos room₁ few').oneMore.raiseTop.answered
  | makeFunctionIn c name =>
      exact (within.makeFunctionIn pos (fun _ => room) few').raiseTop.answered
  | makeHost proto classId cookie => exact (within.makeHost pos room₁ few').raiseTop.answered
  | makeString text => exact (within.allocate pos).answered
  | boxNumber d => exact (within.allocate pos).answered
  | makeNumber d => exact (within.makeNumber pos).answered
  | store target key v => exact (within.lowers (Engine.lowers_store e target key v)).answered
  | fetch target key => exact (within.fetch room₁ few').raiseTop
  | erase target key => exact within.lowers (Engine.lowers_erase e target key)
  | append target v => exact (within.lowers (Engine.lowers_append e target v)).answered
  | keyTableOf target => exact within.makeKeyTable pos _ _
  | dropKeyTable table => exact within.lowers (Engine.lowers_releaseAll e _)
  | retain v => exact (within.retain room₁ few').oneMore.raiseTop
  | release v => exact within.lowers (Engine.lowers_release e v)
  | adopt v => exact (within.adopt room₁ few').raiseTop
  | relinquish v => exact within.relinquish (fun _ => by omega) few
  | hold v => exact (within.adopt room₁ few').raiseTop
  | letGo held => exact within.relinquish (fun _ => by omega) few
  | register c v => exact (within.register room₁ few').raiseTop.answered
  | unregister c v => exact within.lowers (Engine.lowers_unregister e c v)
  | collect => exact within.lowers (Engine.lowers_collect e)
  | limitMemory limit => exact within.lowers (Engine.lowers_aside rfl)
  | setThreshold threshold => exact within.lowers (Engine.lowers_aside rfl)
  | setFinalizer classId f =>
      obtain ⟨finalizers, set⟩ := e.setFinalizer_eq classId f
      rw [set]
      exact within.lowers (Engine.lowers_aside rfl)
  | flushDiagnostics => exact within.lowers (Engine.lowers_aside rfl)
  | shutdown => exact within.lowers (Engine.lowers_shutdown e)
  | _ => exact within

theorem Engine.Within.perform (within : e.Within (fun _ => m) t n)
    (wide : prototypeSlotLimit + 1 ≤ m) (one : 1 ≤ t) (below : t ≤ m)
    (room : m + 2 < 0x80000000) (few : n < 0x80000000) (a : Action) :
    (e.perform a).2.Within (fun _ => m + a.takes.toNat) (t + a.takes.toNat)
      (n + a.surrenders.toNat) := by
  rw [Engine.perform]
  split
  · exact within.carryOut wide one below room few a
  · have noted : e.Lowers e.stray := Engine.lowers_aside rfl
    exact (within.lowers noted).carryOut wide one below room few a

theorem Engine.Within.run {requests : List Action} (within : e.Within (fun _ => m) t n)
    (wide : prototypeSlotLimit + 1 ≤ m) (one : 1 ≤ t) (below : t ≤ m)
    (room : m + requests.countP Action.takes + 2 < 0x80000000)
    (few : n + requests.countP Action.surrenders < 0x80000000) :
    (e.run requests).2.Within (fun _ => m + requests.countP Action.takes)
      (t + requests.countP Action.takes) (n + requests.countP Action.surrenders) := by
  -- Each request moves the bounds, so the induction is over them too.
  induction requests generalizing e m t n with
  | nil => exact within
  | cons a rest ih =>
      have more (p : Action → Bool) : (a :: rest).countP p = (p a).toNat + rest.countP p := by
        rw [List.countP_cons, Nat.add_comm]
        cases p a <;> rfl
      rw [more] at room few
      have first := within.perform wide one below (by omega) (by omega) a
      rw [more, more, ← Nat.add_assoc, ← Nat.add_assoc, ← Nat.add_assoc]
      exact ih first (Nat.le_add_right_of_le wide) (Nat.le_add_right_of_le one)
        (Nat.add_le_add_right below _) (by omega) (by omega)

end

/-! ### What exact counts come to -/

/-- No count has ever left its range. An object has no more than `t` references above those
that a new context may leave its object prototype with, a context no more than `t` above its
first, neither is more than `n` below zero, and whatever is done to a count next has the
result that it has for integers. -/
structure Engine.CountsExactly (t n : Nat) (e : Engine) : Prop where
  inRange : e.InRange
  objects : ∀ h o, e.heap.object? h = some o →
    -(n : Int) ≤ o.count ∧ o.count ≤ prototypeSlotLimit + 1 + t
  contexts : ∀ (p : Nat) (ctx : Context), e.contexts[p]? = some ctx →
    -(n : Int) ≤ ctx.count ∧ ctx.count ≤ 1 + t
  retains : ∀ h o, e.heap.object? h = some o →
    (e.addReference h).heap.object? h = some { o with count := o.count + 1 }
  relinquishes : ∀ h o, e.heap.object? h = some o →
    (e.relinquish (.reference h)).1 = o.count - 1
  shares : ∀ (c : ContextId) (ctx : Context), e.activeContext c = .ok ctx →
    (e.shareContext c).contexts[c.toNat]? = some { ctx with count := ctx.count + 1 }
  leaves : ∀ (c : ContextId) (ctx : Context), e.activeContext c = .ok ctx →
    (e.leaveContext c).1 = Decision.make c (ctx.count - 1) .release

/-- The scan goes by the counts as they are, and what it finds to be garbage is what nobody
outside the heap has a reference to and nothing that is owned from there leads to. -/
structure Heap.ScansExactly (H : Heap) : Prop where
  scratch : ∀ h o, H.slot h = .live o → ((H.slot h).scratch : Int) = o.count
  garbage : ∀ h, h ∈ H.enlist.scan.dismiss.garbage.map (·.1) ↔ H.isLive h = true ∧ ¬ H.Kept h

section

variable {H : Heap} {e : Engine} {h : Handle} {o : Object} {c : ContextId} {ctx : Context}
  {t n : Nat}

theorem Engine.object?_addReference (found : e.heap.object? h = some o)
    (fits : CountInRange (o.count + 1)) :
    (e.addReference h).heap.object? h = some { o with count := o.count + 1 } := by
  simp only [Engine.addReference, found]
  rw [Engine.checkCount_of_inRange fits, Engine.heap_updateObject, Heap.object?_update,
    if_pos rfl, found, Option.map_some, wrapCount_of_inRange fits]

theorem Engine.fst_relinquish (found : e.heap.object? h = some o)
    (fits : CountInRange (o.count - 1)) : (e.relinquish (.reference h)).1 = o.count - 1 := by
  simp only [Engine.relinquish, Value.handle?, found]
  exact wrapCount_of_inRange fits

theorem Engine.contexts_shareContext_self (active : e.activeContext c = .ok ctx)
    (fits : CountInRange (ctx.count + 1)) :
    (e.shareContext c).contexts[c.toNat]? = some { ctx with count := ctx.count + 1 } := by
  rw [Engine.shareContext, active]
  dsimp only
  rw [Engine.checkCount_of_inRange fits, Engine.contexts_updateContext, if_pos rfl,
    (Engine.activeContext_eq_ok active).1, Option.map_some, wrapCount_of_inRange fits]

theorem Engine.fst_leaveContext (active : e.activeContext c = .ok ctx)
    (fits : CountInRange (ctx.count - 1)) :
    (e.leaveContext c).1 = Decision.make c (ctx.count - 1) .release := by
  rw [Engine.leaveContext, active]
  dsimp only
  rw [wrapCount_of_inRange fits]

theorem Engine.Within.countsExactly
    (within : e.Within (fun _ => prototypeSlotLimit + 1 + t) (1 + t) n)
    (room : t + 259 < 0x80000000) (few : n < 0x80000000) : e.CountsExactly t n := by
  have objects (h : Handle) (o : Object) (found : e.heap.object? h = some o) :
      -(n : Int) ≤ o.count ∧ o.count ≤ prototypeSlotLimit + 1 + t := by
    have bound := within.counts h o.count (Heap.count?_of_object? found)
    push_cast at bound
    exact bound
  have contexts (p : Nat) (ctx : Context) (found : e.contexts[p]? = some ctx) :
      -(n : Int) ≤ ctx.count ∧ ctx.count ≤ 1 + t := by
    have bound := within.contexts p ctx found
    push_cast at bound
    exact bound
  have near {k : Int} (low : -(n : Int) ≤ k) (high : k ≤ 257 + t) :
      CountInRange (k + 1) ∧ CountInRange (k - 1) := by
    simp only [CountInRange]
    omega
  have object {h : Handle} {o : Object} (found : e.heap.object? h = some o) :=
    near (objects h o found).1 (objects h o found).2
  have context {c : ContextId} {ctx : Context} (active : e.activeContext c = .ok ctx) :=
    have found := (Engine.activeContext_eq_ok active).1
    near (contexts _ ctx found).1 ((contexts _ ctx found).2.trans (by omega))
  exact
    { inRange := within.inRange
      objects := objects
      contexts := contexts
      retains := fun h o found => Engine.object?_addReference found (object found).1
      relinquishes := fun h o found => Engine.fst_relinquish found (object found).2
      shares := fun c ctx active => Engine.contexts_shareContext_self active (context active).1
      leaves := fun c ctx active => Engine.fst_leaveContext active (context active).2 }

theorem Heap.Sound.scansExactly (sound : H.Sound 0 0) : H.ScansExactly := by
  classical
  refine ⟨fun h o slot => ?_, fun h => ?_⟩
  · have positive := (sound.live slot).2.2
    rw [slot]
    exact Int.toNat_of_nonneg (Int.le_of_lt positive)
  · obtain ⟨S, kept, result⟩ := Heap.scan_eq sound
    have listed : h ∈ H.listed.map (·.1) ↔ H.isLive h = true := by
      rw [List.mem_map, Heap.isLive_iff]
      constructor
      · rintro ⟨⟨_, o⟩, mem, rfl⟩
        exact ⟨o, Heap.mem_listed.1 mem⟩
      · rintro ⟨o, slot⟩
        exact ⟨(h, o), Heap.mem_listed.2 slot, rfl⟩
    rw [result, Heap.map_fst_garbage_stain kept, Heap.going, List.mem_filter, listed,
      decide_eq_true_iff]

end

/-- In a run of any length in which the host makes fewer than 2^31 - 259 requests that take a
reference, and fewer than 2^31 that give one back unseen, no count leaves its range. All
counts are exact at the end of it, and so after each of its requests, and each collection
goes by them. Of the 259, a new context may leave 257 on its object prototype, and a
constructor takes two in passing. -/
theorem Engine.counts_exact_run (limits : Limits) (requests : List Action)
    (taken : requests.countP Action.takes + 259 < 0x80000000)
    (given : requests.countP Action.surrenders < 0x80000000) :
    ((Engine.new limits).run requests).2.CountsExactly (requests.countP Action.takes)
        (requests.countP Action.surrenders) ∧
      ∀ H ∈ (Engine.new limits).passes requests, H.ScansExactly := by
  have within : ((Engine.new limits).run requests).2.Within _ _ _ :=
    (Engine.within_new limits (prototypeSlotLimit + 1) 1).run (Nat.le_refl _) (Nat.le_refl 1)
      (by decide) (by simp only [prototypeSlotLimit]; omega) (by omega)
  rw [Nat.zero_add] at within
  exact ⟨within.countsExactly taken given, fun H mem =>
    ((Engine.steady_new limits).sound_passes within.inRange H mem).scansExactly⟩

/-- A host that takes references on a context and on objects, gives some back and collects. -/
def takenAndGivenBack : List Action :=
  [.openContext 0, .shareContext 0, .makeString "s", .retain (.reference 8),
    .makeArray (.reference 0) #[.reference 8], .relinquish (.reference 8), .leaveContext 0,
    .collect]

/-- Three references are taken and two are given back, and the collection finds no garbage. -/
theorem counts_exact_takenAndGivenBack :
    takenAndGivenBack.countP Action.takes = 3 ∧ takenAndGivenBack.countP Action.surrenders = 2 ∧
      ((Engine.new {}).run takenAndGivenBack).2.CountsExactly 3 2 ∧
      ((Engine.new {}).passes takenAndGivenBack).length = 1 ∧
      ∀ H ∈ (Engine.new {}).passes takenAndGivenBack, H.ScansExactly := by
  obtain ⟨counts, scans⟩ :=
    Engine.counts_exact_run {} takenAndGivenBack (by decide) (by decide)
  exact ⟨by decide, by decide, counts, by decide +kernel, scans⟩

/-! ### Where it ends

A count that is taken beyond its range comes out at the other end. -/

section

variable {e : Engine} {h : Handle} {o : Object} {c : ContextId} {ctx : Context} {k : Nat}

theorem Engine.perform_retain (found : e.heap.object? h = some o) (range : e.InRange)
    (fits : CountInRange (o.count + 1)) : (e.perform (.retain (.reference h))).2 =
      e.updateObject h fun o => { o with count := o.count + 1 } := by
  have named : e.Names (.reference h) := Engine.names_reference.2 ⟨o, found⟩
  have retained : (e.retain (.reference h)).InRange := by
    simp only [Engine.retain, Value.handle?, Engine.addReference, found]
    exact Engine.inRange_checkCount.2 ⟨fits, range⟩
  rw [Engine.perform_of_valid fun v mem => List.mem_singleton.1 mem ▸ Engine.isValid_iff.2 named]
  exact Engine.retain_eq_credit named retained

/-- References that are taken one after the other add up as long as the count is in range. -/
theorem Engine.run_retains (found : e.heap.object? h = some o) (range : e.InRange)
    (low : -0x80000000 ≤ o.count) (high : o.count + k < 0x80000000) :
    (e.run (List.replicate k (.retain (.reference h)))).2 =
      e.updateObject h fun o => { o with count := o.count + k } := by
  induction k generalizing e o with
  | zero =>
      rw [Engine.updateObject, Heap.update_eq_self fun o => by simp]
      rfl
  | succ k ih =>
      have first := Engine.perform_retain found range ⟨by omega, by omega⟩
      have found' : (e.updateObject h fun o => { o with count := o.count + 1 }).heap.object? h =
          some { o with count := o.count + 1 } := by
        rw [Engine.heap_updateObject, Heap.object?_update, if_pos rfl, found]
        rfl
      have rest := ih found' range (by dsimp only; omega) (by dsimp only; omega)
      show ((e.perform (.retain (.reference h))).2.run _).2 = _
      rw [first, rest]
      simp only [Engine.updateObject, Heap.update_update, Function.comp_def, Int.add_assoc,
        Nat.cast_add, Nat.cast_one, Int.add_comm 1]

theorem Engine.perform_shareContext (active : e.activeContext c = .ok ctx)
    (fits : CountInRange (ctx.count + 1)) : (e.perform (.shareContext c)).2 =
      e.updateContext c fun ctx => { ctx with count := ctx.count + 1 } := by
  have found := (Engine.activeContext_eq_ok active).1
  have shared : (e.perform (.shareContext c)).2 = e.shareContext c := rfl
  rw [shared, Engine.shareContext, active]
  dsimp only
  rw [Engine.checkCount_of_inRange fits, Engine.updateContext, Engine.updateContext,
    modify_congr fun ctx' found' => ?_]
  obtain rfl : ctx = ctx' := Option.some.inj (found.symm.trans found')
  rw [wrapCount_of_inRange fits]

/-- So do references on a context. -/
theorem Engine.run_shares (active : e.activeContext c = .ok ctx) (low : -0x80000000 ≤ ctx.count)
    (high : ctx.count + k < 0x80000000) :
    (e.run (List.replicate k (.shareContext c))).2 =
      e.updateContext c fun ctx => { ctx with count := ctx.count + k } := by
  induction k generalizing e ctx with
  | zero =>
      rw [Engine.updateContext, modify_eq_self fun ctx => by simp]
      rfl
  | succ k ih =>
      have first := Engine.perform_shareContext active ⟨by omega, by omega⟩
      obtain ⟨found, phase⟩ := Engine.activeContext_eq_ok active
      have active' : Engine.activeContext
          (e.updateContext c fun ctx => { ctx with count := ctx.count + 1 }) c =
            .ok { ctx with count := ctx.count + 1 } := by
        rw [Engine.activeContext, Engine.contexts_updateContext, if_pos rfl, found]
        exact if_pos phase
      have rest := ih active' (by dsimp only; omega) (by dsimp only; omega)
      show ((e.perform (.shareContext c)).2.run _).2 = _
      rw [first, rest]
      simp only [Engine.updateContext, modify_modify, Function.comp_def, Int.add_assoc,
        Nat.cast_add, Nat.cast_one, Int.add_comm 1]

end

/-- A host that takes as many references on a string as make the count leave its range. -/
def retainedTooOften : List Action :=
  .makeString "s" :: List.replicate 0x7fffffff (.retain (.reference 0))

/-- A host that takes one reference more than that on a context. -/
def sharedTooOften : List Action :=
  .openContext 0 :: List.replicate 0x80000000 (.shareContext 0)

/-- All references but the last are in range and add up. -/
theorem run_retainedTooOften : ((Engine.new {}).run retainedTooOften).2 =
    ((((Engine.new {}).run [.makeString "s"]).2.updateObject 0 fun o =>
      { o with count := o.count + (0x7ffffffe : ℕ) }).run [.retain (.reference 0)]).2 := by
  have parts : retainedTooOften = [.makeString "s"] ++
      (List.replicate 0x7ffffffe (.retain (.reference 0)) ++
        List.replicate 1 (.retain (.reference 0))) :=
    congrArg (_ :: ·) (List.replicate_add 0x7ffffffe 1 (Action.retain (.reference 0)))
  have made : ((Engine.new {}).run [.makeString "s"]).2.heap.object? 0 =
      some (Object.new ClassId.string (.string "s")) := by decide +kernel
  rw [parts, Engine.run_append, Engine.run_append,
    Engine.run_retains (k := 0x7ffffffe) made (by decide +kernel) (by decide) (by decide)]
  rfl

theorem run_sharedTooOften : ((Engine.new {}).run sharedTooOften).2 =
    ((((Engine.new {}).run [.openContext 0]).2.updateContext 0 fun ctx =>
      { ctx with count := ctx.count + (0x7ffffffe : ℕ) }).run
        [.shareContext 0, .shareContext 0]).2 := by
  have parts : sharedTooOften = [.openContext 0] ++
      (List.replicate 0x7ffffffe (.shareContext 0) ++ List.replicate 2 (.shareContext 0)) :=
    congrArg (_ :: ·) (List.replicate_add 0x7ffffffe 2 (Action.shareContext 0))
  obtain ⟨ctx, opened, one⟩ : ∃ ctx,
      ((Engine.new {}).run [.openContext 0]).2.activeContext 0 = .ok ctx ∧ ctx.count = 1 :=
    ⟨_, rfl, rfl⟩
  rw [parts, Engine.run_append, Engine.run_append,
    Engine.run_shares (k := 0x7ffffffe) opened (by omega) (by omega)]
  rfl

/-- The string has 2^31 owners and a count of -2^31, and the next collection ends it. The
context has 2^31 + 1 owners, and when one of them leaves it, it is closed for having been left
too often. Nobody has read a header that was gone. -/
theorem counts_wrap :
    (∃ e, e = ((Engine.new {}).run retainedTooOften).2 ∧ e.breaches.strayAccess = false ∧
      ¬ e.InRange ∧ e.countOf (.reference 0) = -0x80000000 ∧ e.heap.isLive 0 = true ∧
        e.collect.2.breaches.strayAccess = false ∧ e.collect.2.heap.isLive 0 = false) ∧
    ∃ e, e = ((Engine.new {}).run sharedTooOften).2 ∧ e.breaches.strayAccess = false ∧
      ¬ e.InRange ∧ (e.contexts[0]?.map fun ctx => (ctx.phase, ctx.count)) =
        some (.active, -0x7fffffff) ∧
      (e.leaveContext 0).1 = .tolerate ⟨.hostOverRelease, .contextBelowZero 0 (-0x80000000)⟩ ∧
        ((e.leaveContext 0).2.contexts[0]?.map (·.phase)) = some .freed := by
  rw [run_retainedTooOften, run_sharedTooOften]
  exact ⟨⟨_, rfl, by decide +kernel⟩, ⟨_, rfl, by decide +kernel⟩⟩

end CountedHeap
