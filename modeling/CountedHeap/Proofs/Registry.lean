import CountedHeap.Proofs.Blame
import CountedHeap.Proofs.ContextLife
import CountedHeap.Proofs.Exactness
import CountedHeap.Proofs.Exhaustion

/-!
The values that a host registers on a context. A value may be registered more than once,
and whichever of its entries is struck out, the others and those of all other values stay;
so how often a value is registered can be told from the requests and their answers alone.

When the context closes, its entries are gone through one after the other, and whether an
entry gives its reference back depends on the count that those before it have left. What
comes of it does not depend on their order: each live object loses as many references as
it is registered, but never its last one.
-/

namespace CountedHeap

/-- The registered objects, each as often as it is registered. -/
def Context.registrations (ctx : Context) : Multiset Handle :=
  refsOf ctx.registered.toList

/-! ### Requests and answers -/

/-- An object was registered on context `c`. -/
def Action.enters (c : ContextId) (h : Handle) : Action → Answer → Bool
  | .register k v, .done => k == c && v == .reference h
  | _, _ => false

/-- A registration of an object on context `c` was taken back. -/
def Action.strikes (c : ContextId) (h : Handle) : Action → Answer → Bool
  | .unregister k v, .flag true => k == c && v == .reference h
  | _, _ => false

/-- The number of requests of a run for which `p` holds, with the answers to them. -/
def Engine.tally (e : Engine) (p : Action → Answer → Bool) (requests : List Action) : Nat :=
  (requests.zip (e.run requests).1).countP fun asked => p asked.1 asked.2

/-- The registrations on context `c`, if there is one. -/
def Engine.registrations (e : Engine) (c : ContextId) : Multiset Handle :=
  (e.contexts[c.toNat]?.map Context.registrations).getD 0

/-! ### Closing -/

/-- Each live object loses as many references as it has occurrences in `R`, but keeps
one. -/
def Heap.spare (H : Heap) (R : Multiset Handle) : Heap :=
  H.mapLiveIdx fun h o => { o with count := max 1 (o.count - (R.count h : ℕ)) }

/-- What is noted of a registration whose reference is not given back. A live object is
down to its last reference then. -/
def Heap.leftover (H : Heap) (h : Handle) : Leftover :=
  ⟨h, H.isLive h, if H.isLive h then 1 else (H.header h).count⟩

/-- The registrations in `R` whose references are not given back: those of objects that
are not live, and of the live ones those that would have taken the last reference. -/
def Heap.leftBehind (H : Heap) (R : Multiset Handle) : Multiset Leftover :=
  excess (fun h => if H.isLive h then ((H.header h).count - 1).toNat else 0) H.leftover R

/-- An engine in the middle of a teardown, when the registrations have been gone through
and the rest has not been given up yet. -/
def Engine.deregistered (e : Engine) (c : ContextId) (ctx : Context) : Engine :=
  ctx.registered.toList.foldl Engine.releaseRegistered (e.updateContext c Context.emptied)

/-- How context `c` is closed. Going through its registrations lowers the counts of live
objects and notes what is left behind, and that is all that it does. With the same
registrations in another order the same comes of it, but for the order of these notes. -/
structure Engine.Closes (e : Engine) (c : ContextId) (ctx : Context) : Prop where
  deregistered : ∃ leftovers : Array Leftover,
    (leftovers.toList : Multiset Leftover) =
        e.heap.leftBehind ctx.registrations + ↑e.leftovers.toList ∧
      e.deregistered c ctx = { e.updateContext c Context.emptied with
        heap := e.heap.spare ctx.registrations
        leftovers := leftovers }
  tearDown : e.tearDown c =
    (((e.deregistered c ctx).release ctx.global).releaseAll ctx.prototypes.toList).updateContext c
      fun ctx => { ctx with phase := .freed }
  unordered : ∀ registered : Array Value, registered.toList.Perm ctx.registered.toList →
    ∃ leftovers : Array Leftover, leftovers.toList.Perm (e.tearDown c).leftovers.toList ∧
      (e.updateContext c fun ctx => { ctx with registered := registered }).tearDown c =
        { e.tearDown c with leftovers := leftovers }

/-- An engine after the last reference on a context was given back, when the context is
still open. -/
def Engine.deserted (e : Engine) (c : ContextId) (ctx : Context) : Engine :=
  (e.checkCount (ctx.count - 1)).updateContext c fun ctx => { ctx with count := 0 }

/-- The registry of an active context, when each object has been registered `entered`
times on it and `struck` registrations have been taken back. -/
structure Engine.KeepsRegistry (e : Engine) (c : ContextId) (ctx : Context)
    (entered struck : Handle → Nat) : Prop where
  counted : ∀ h, ctx.registrations.count h + struck h = entered h
  enters : ∀ h, (e.perform (.register c (.reference h))).1 = .done
  strikes : ∀ h, (e.perform (.unregister c (.reference h))).1 =
    .flag (decide (0 < ctx.registrations.count h))
  struck : ∀ h, e.isValid (.reference h) = true → 0 < ctx.registrations.count h →
    ∃ registered : Array Value,
      (.reference h :: registered.toList).Perm ctx.registered.toList ∧
        (e.perform (.unregister c (.reference h))).2 =
          { (e.perform (.release (.reference h))).2 with
            contexts := e.contexts.setIfInBounds c.toNat { ctx with registered := registered } }
  missed : ∀ h, e.isValid (.reference h) = true → ctx.registrations.count h = 0 →
    (e.perform (.unregister c (.reference h))).2 = e
  closes : e.Closes c ctx
  left : (e.perform (.leaveContext c)).1 = .decision .proceed →
    (e.perform (.leaveContext c)).2 = (e.deserted c ctx).tearDown c ∧
      (e.deserted c ctx).Closes c { ctx with count := 0 }
  shut : ∀ others : List ContextId, c ∉ others →
    (others.foldl Engine.tearDown e).Closes c ctx

section

variable {H : Heap} {e : Engine} {R : Multiset Handle} {h k : Handle} {o : Object} {v : Value}
  {c : ContextId} {ctx : Context} {a : Action} {M : Finset Handle} {X : Multiset Handle}

/-! ### One context -/

theorem Value.count_refs : v.refs.count h = if v = .reference h then 1 else 0 := by
  cases v with
  | immediate w => simp
  | reference k => simp [Multiset.count_singleton, eq_comm]

theorem lastPlace?_eq_none {xs : Array Value} : lastPlace? xs v = none ↔ v ∉ xs.toList := by
  rw [← Array.mem_def, ← Array.mem_reverse, ← Array.finIdxOf?_eq_none_iff]
  cases first : xs.reverse.finIdxOf? v <;> simp [lastPlace?, first]

theorem Context.count_registrations_pos :
    0 < ctx.registrations.count h ↔ Value.reference h ∈ ctx.registered.toList :=
  Multiset.count_pos.trans mem_refsOf

theorem Context.registrations_register (active : ctx.phase = .active) :
    (ctx.register v).registrations = v.refs + ctx.registrations := by
  cases v with
  | immediate w =>
      rw [Context.register, if_neg fun both => Bool.false_ne_true both.2, Value.refs_immediate,
        zero_add]
  | reference h =>
      rw [Context.register, if_pos ⟨active, rfl⟩, Context.registrations, Array.toList_push,
        refsOf_append, refsOf_cons, refsOf_nil, add_zero, add_comm]
      rfl

theorem Context.registrations_unregister (active : ctx.phase = .active) :
    (ctx.unregister v).registrations + (if v ∈ ctx.registered.toList then v.refs else 0) =
      ctx.registrations := by
  rw [Context.unregister, if_pos active]
  split
  · rename_i i place
    have here := lastPlace?_eq_some place
    have mem : v ∈ ctx.registered.toList := (Array.mem_of_getElem? here).val
    rw [if_pos mem]
    exact refsOf_removeSwap here
  · rename_i absent
    rw [if_neg (lastPlace?_eq_none.1 absent), add_zero]

/-! ### One request -/

theorem Engine.updateContext_eq {f : Context → Context} (found : e.contexts[c.toNat]? = some ctx) :
    e.updateContext c f = { e with contexts := e.contexts.setIfInBounds c.toNat (f ctx) } := by
  rw [Engine.updateContext]
  congr 1
  refine Array.ext_getElem? fun k => ?_
  rw [Array.getElem?_modify, Array.getElem?_setIfInBounds]
  by_cases same : c.toNat = k
  · subst k
    obtain ⟨inside, -⟩ := Array.getElem?_eq_some_iff.1 found
    rw [if_pos rfl, if_pos rfl, if_pos inside, found, Option.map_some]
  · rw [if_neg same, if_neg same]

theorem Engine.register_of_active (found : e.contexts[c.toNat]? = some ctx)
    (active : ctx.phase = .active) : (e.register c v).1 = .ok () := by
  have phase : e.contextPhase? c = some .active := by
    rw [Engine.contextPhase?, found, Option.map_some, active]
  rw [Engine.register, phase]
  dsimp only
  split <;> rfl

theorem Engine.unregister_of_mem (found : e.contexts[c.toNat]? = some ctx)
    (active : ctx.phase = .active) (mem : v ∈ ctx.registered.toList) :
    ∃ registered : Array Value, (v :: registered.toList).Perm ctx.registered.toList ∧
      e.unregister c v = (true, Engine.release
        { e with contexts :=
            e.contexts.setIfInBounds c.toNat { ctx with registered := registered } } v) := by
  obtain ⟨i, place⟩ : ∃ i, lastPlace? ctx.registered v = some i := by
    rw [← Option.isSome_iff_exists, Option.isSome_iff_ne_none]
    exact fun absent => lastPlace?_eq_none.1 absent mem
  refine ⟨removeSwap ctx.registered i, perm_removeSwap (lastPlace?_eq_some place), ?_⟩
  rw [Engine.unregister, Engine.activeContext_of_active found active]
  dsimp only
  rw [place]
  dsimp only
  rw [Engine.updateContext_eq found]

theorem Engine.unregister_of_not_mem (found : e.contexts[c.toNat]? = some ctx)
    (active : ctx.phase = .active) (absent : v ∉ ctx.registered.toList) :
    e.unregister c v = (false, e) := by
  rw [Engine.unregister, Engine.activeContext_of_active found active]
  dsimp only
  rw [lastPlace?_eq_none.2 absent]

/-- A request that passes objects which are gone is carried out all the same. -/
theorem Engine.fst_perform_register (found : e.contexts[c.toNat]? = some ctx)
    (active : ctx.phase = .active) : (e.perform (.register c v)).1 = .done := by
  have found' : (if (Action.register c v).arguments.all e.isValid then e
      else e.stray).contexts[c.toNat]? = some ctx := by
    split <;> exact found
  have registered := Engine.register_of_active (v := v) found' active
  rw [Engine.perform, Engine.carryOut]
  generalize Engine.register _ c v = r at registered ⊢
  obtain ⟨answer, e'⟩ := r
  obtain rfl : answer = .ok () := registered
  rfl

theorem Engine.fst_perform_unregister (found : e.contexts[c.toNat]? = some ctx)
    (active : ctx.phase = .active) : (e.perform (.unregister c v)).1 =
      .flag (decide (v ∈ ctx.registered.toList)) := by
  have found' : (if (Action.unregister c v).arguments.all e.isValid then e
      else e.stray).contexts[c.toNat]? = some ctx := by
    split <;> exact found
  rw [Engine.perform, Engine.carryOut]
  by_cases mem : v ∈ ctx.registered.toList
  · obtain ⟨registered, -, struck⟩ := Engine.unregister_of_mem found' active mem
    rw [struck, decide_eq_true mem]
    rfl
  · rw [Engine.unregister_of_not_mem found' active mem, decide_eq_false mem]
    rfl

theorem Action.enters_eq_false {answer : Answer} (other : ∀ v, a ≠ .register c v) :
    a.enters c h answer = false := by
  unfold Action.enters
  split
  · rename_i k v
    rw [Bool.and_eq_false_iff, beq_eq_false_iff_ne]
    exact .inl fun same => other v (same ▸ rfl)
  · rfl

theorem Action.strikes_eq_false {answer : Answer} (other : ∀ v, a ≠ .unregister c v) :
    a.strikes c h answer = false := by
  unfold Action.strikes
  split
  · rename_i k v
    rw [Bool.and_eq_false_iff, beq_eq_false_iff_ne]
    exact .inl fun same => other v (same ▸ rfl)
  · rfl

theorem Context.registered_leave (active : ctx.leave.phase = .active) :
    ctx.leave.registered = ctx.registered := by
  rw [Context.leave] at active ⊢
  by_cases before : ctx.phase = .active
  · rw [if_pos before] at active ⊢
    split
    · rfl
    · rename_i last
      rw [if_neg last] at active
      cases active
  · rw [if_neg before]

theorem Context.registered_shut (active : ctx.shut.phase = .active) :
    ctx.shut.registered = ctx.registered := by
  rw [Context.shut] at active ⊢
  by_cases hopen : ctx.isOpen = true
  · rw [if_pos hopen] at active
    cases active
  · rw [if_neg hopen]

/-- Other requests leave the registry of a context that stays active as it is. -/
theorem Action.registered_onContext {closes : Bool} (entering : ∀ v, a ≠ .register c v)
    (striking : ∀ v, a ≠ .unregister c v)
    (active : (a.onContext closes c.toNat ctx).phase = .active) :
    (a.onContext closes c.toNat ctx).registered = ctx.registered := by
  cases a with
  | register k v =>
      have other : ¬ k.toNat = c.toNat := fun same => entering v (UInt32.toNat_inj.1 same ▸ rfl)
      exact congrArg Context.registered (if_neg other)
  | unregister k v =>
      have other : ¬ k.toNat = c.toNat := fun same => striking v (UInt32.toNat_inj.1 same ▸ rfl)
      exact congrArg Context.registered (if_neg other)
  | shareContext k =>
      simp only [Action.onContext, Context.share]
      split
      · split <;> rfl
      · rfl
  | leaveContext k =>
      by_cases same : k.toNat = c.toNat
      · simp only [Action.onContext, if_pos same] at active ⊢
        exact Context.registered_leave active
      · exact congrArg Context.registered (if_neg same)
  | shutdown =>
      cases closes
      · rfl
      · exact Context.registered_shut active
  | _ => rfl

/-- One request on the registry of a context that is active and stays so. -/
theorem Engine.registrations_onContext {closes : Bool} (found : e.contexts[c.toNat]? = some ctx)
    (active : ctx.phase = .active) (stays : (a.onContext closes c.toNat ctx).phase = .active) :
    (a.onContext closes c.toNat ctx).registrations.count h +
        (if a.strikes c h (e.perform a).1 then 1 else 0) =
      ctx.registrations.count h + if a.enters c h (e.perform a).1 then 1 else 0 := by
  by_cases entering : ∃ v, a = .register c v
  · obtain ⟨v, rfl⟩ := entering
    have none : (Action.register c v).strikes c h (e.perform (.register c v)).1 = false :=
      Action.strikes_eq_false (by simp)
    have same : (Action.register c v).onContext closes c.toNat ctx = ctx.register v := if_pos rfl
    rw [none, same, Engine.fst_perform_register found active, Context.registrations_register active,
      Multiset.count_add, Value.count_refs]
    simp only [Action.enters, beq_self_eq_true, Bool.true_and, beq_iff_eq, Bool.false_eq_true,
      if_false]
    omega
  by_cases striking : ∃ v, a = .unregister c v
  · obtain ⟨v, rfl⟩ := striking
    have none : (Action.unregister c v).enters c h (e.perform (.unregister c v)).1 = false :=
      Action.enters_eq_false (by simp)
    have same : (Action.unregister c v).onContext closes c.toNat ctx = ctx.unregister v :=
      if_pos rfl
    have split := congrArg (Multiset.count h) (Context.registrations_unregister (v := v) active)
    rw [none, same, Engine.fst_perform_unregister found active, ← split, Multiset.count_add]
    by_cases mem : v ∈ ctx.registered.toList
    · rw [if_pos mem, decide_eq_true mem, Value.count_refs]
      simp only [Action.strikes, beq_self_eq_true, Bool.true_and, beq_iff_eq, Bool.false_eq_true,
        if_false]
      omega
    · rw [if_neg mem, decide_eq_false mem]
      rfl
  rw [not_exists] at entering striking
  rw [Action.enters_eq_false entering, Action.strikes_eq_false striking, Context.registrations,
    Action.registered_onContext entering striking stays]
  rfl

/-! ### Runs -/

theorem Engine.tally_cons (e : Engine) (p : Action → Answer → Bool) (a : Action)
    (rest : List Action) : e.tally p (a :: rest) =
      (if p a (e.perform a).1 then 1 else 0) + (e.perform a).2.tally p rest := by
  have first : (e.run (a :: rest)).1 = (e.perform a).1 :: ((e.perform a).2.run rest).1 := rfl
  rw [Engine.tally, first, List.zip_cons_cons, List.countP_cons, add_comm]
  rfl

theorem Engine.registrations_eq (found : e.contexts[c.toNat]? = some ctx) :
    e.registrations c = ctx.registrations := by
  rw [Engine.registrations, found, Option.map_some, Option.getD_some]

theorem Engine.registrations_eq_zero (absent : e.contexts[c.toNat]? = none) :
    e.registrations c = 0 := by
  rw [Engine.registrations, absent, Option.map_none, Option.getD_none]

/-- Nothing is registered on a context that is not there. -/
theorem Engine.enters_of_absent (absent : e.contexts[c.toNat]? = none) :
    a.enters c h (e.perform a).1 = false := by
  by_cases entering : ∃ v, a = .register c v
  · obtain ⟨v, rfl⟩ := entering
    have absent' : (if (Action.register c v).arguments.all e.isValid then e
        else e.stray).contexts[c.toNat]? = none := by
      split <;> exact absent
    rw [Engine.perform, Engine.carryOut, Engine.register, Engine.contextPhase?, absent']
    rfl
  · exact Action.enters_eq_false (not_exists.1 entering)

/-- Nothing is taken back from a context that is not there. -/
theorem Engine.strikes_of_absent (absent : e.contexts[c.toNat]? = none) :
    a.strikes c h (e.perform a).1 = false := by
  by_cases striking : ∃ v, a = .unregister c v
  · obtain ⟨v, rfl⟩ := striking
    have absent' : (if (Action.unregister c v).arguments.all e.isValid then e
        else e.stray).contexts[c.toNat]? = none := by
      split <;> exact absent
    rw [Engine.perform, Engine.carryOut, Engine.unregister, Engine.activeContext, absent']
    rfl
  · exact Action.strikes_eq_false (not_exists.1 striking)

/-- A context that is active after a run was so before it, if it was there. -/
theorem Engine.active_of_run (requests : List Action) {after : Context}
    (found : (e.run requests).2.contexts[c.toNat]? = some after) (active : after.phase = .active)
    (before : e.contexts[c.toNat]? = some ctx) : ctx.phase = .active := by
  by_contra idle
  have kept : ∃ ctx, (e.run requests).2.contexts[c.toNat]? = some ctx ∧ ctx.phase ≠ .active := by
    refine Engine.run_keep
      (P := fun e => ∃ ctx, e.contexts[c.toNat]? = some ctx ∧ ctx.phase ≠ .active)
      ?_ ⟨ctx, before, idle⟩ requests
    rintro e a ⟨ctx, here, idle⟩
    exact ⟨_, (e.moved_perform a).contexts c.toNat ctx here, fun active =>
      idle (Action.active_of_onContext active)⟩
  obtain ⟨ctx', found', idle'⟩ := kept
  obtain rfl := Option.some.inj (found.symm.trans found')
  exact idle' active

/-- One request on the registry of a context that is there afterwards and is active, or has
not been opened yet. -/
theorem Engine.registrations_perform
    (active : ∀ ctx, (e.perform a).2.contexts[c.toNat]? = some ctx → ctx.phase = .active) :
    ((e.perform a).2.registrations c).count h +
        (if a.strikes c h (e.perform a).1 then 1 else 0) =
      (e.registrations c).count h + if a.enters c h (e.perform a).1 then 1 else 0 := by
  cases before : e.contexts[c.toNat]? with
  | some ctx =>
      have after := (e.moved_perform a).contexts c.toNat ctx before
      have stays := active _ after
      rw [Engine.registrations_eq after, Engine.registrations_eq before]
      exact Engine.registrations_onContext before (Action.active_of_onContext stays) stays
  | none =>
      have fresh : (e.perform a).2.registrations c = 0 := by
        cases after : (e.perform a).2.contexts[c.toNat]? with
        | none => exact Engine.registrations_eq_zero after
        | some ctx =>
            obtain ⟨old, there, -⟩ | ⟨-, -, global, prototypes, slots, -, rfl⟩ :=
              (e.moved_perform a).context_cases after
            · cases before.symm.trans there
            · rw [Engine.registrations_eq after]
              rfl
      rw [fresh, Engine.registrations_eq_zero before, Engine.enters_of_absent before,
        Engine.strikes_of_absent before]

/-- Each object is registered as many times more than before as its registrations exceed
those taken back. -/
theorem Engine.registrations_run (requests : List Action)
    (found : (e.run requests).2.contexts[c.toNat]? = some ctx) (active : ctx.phase = .active) :
    ctx.registrations.count h + e.tally (Action.strikes c h) requests =
      (e.registrations c).count h + e.tally (Action.enters c h) requests := by
  induction requests generalizing e with
  | nil =>
      rw [← Engine.registrations_eq found]
      rfl
  | cons a rest ih =>
      have first := Engine.registrations_perform (e := e) (a := a) (c := c) (h := h)
        fun _ here => Engine.active_of_run rest found active here
      have later := ih (e := (e.perform a).2) found
      rw [Engine.tally_cons, Engine.tally_cons]
      omega

/-! ### Going through the registrations -/

theorem Heap.slot_spare (R : Multiset Handle) (k : Handle) : (H.spare R).slot k =
    (H.slot k).mapLive fun o => { o with count := max 1 (o.count - (R.count k : ℕ)) } :=
  H.slot_mapLiveIdx _ k

theorem Heap.isLive_spare (k : Handle) : (H.spare R).isLive k = H.isLive k := by
  rw [Heap.isLive, Heap.slot_spare, Heap.isLive]
  cases H.slot k <;> rfl

theorem Heap.spare_zero (counted : ∀ h o, H.slot h = .live o → 0 < o.count) : H.spare 0 = H := by
  refine Heap.ext_slot (by simp [Heap.spare, Heap.mapLiveIdx]) (fun k => ?_) rfl rfl rfl rfl
  rw [Heap.slot_spare]
  cases slot : H.slot k with
  | live o =>
      have same : max 1 (o.count - ((0 : Multiset Handle).count k : ℕ)) = o.count := by
        have := counted k o slot
        rw [Multiset.count_zero]
        omega
      rw [Slot.mapLive, same]
  | parked o => rfl
  | reclaimed => rfl

/-- An object that has more than one reference left loses one. -/
theorem Heap.spare_cons_of_lt (slot : H.slot h = .live o) (more : (R.count h : Int) + 1 < o.count) :
    (H.spare R).update h (fun o => { o with count := o.count - 1 }) = H.spare (h ::ₘ R) := by
  refine Heap.ext_slot ?_ (fun k => ?_) rfl rfl rfl rfl
  · rw [Heap.size_update]
    simp [Heap.spare, Heap.mapLiveIdx]
  · rw [Heap.slot_update, Heap.slot_spare, Heap.slot_spare]
    by_cases same : k = h
    · subst k
      have lower : max 1 (o.count - (R.count h : ℕ)) - 1 =
          max 1 (o.count - ((h ::ₘ R).count h : ℕ)) := by
        rw [Multiset.count_cons_self]
        omega
      rw [if_pos rfl, slot, Slot.mapLive, Slot.mapLive, Slot.map, lower]
    · rw [if_neg same, Multiset.count_cons_of_ne same]

/-- An object that is down to its last reference keeps it. -/
theorem Heap.spare_cons_of_le
    (spent : ∀ o, H.slot h = .live o → o.count ≤ (R.count h : ℕ) + 1) :
    H.spare (h ::ₘ R) = H.spare R := by
  refine Heap.mapLiveIdx_congr fun k o slot => ?_
  by_cases same : k = h
  · subst k
    have last : max 1 (o.count - ((h ::ₘ R).count h : ℕ)) = max 1 (o.count - (R.count h : ℕ)) := by
      have := spent o slot
      rw [Multiset.count_cons_self]
      omega
    rw [last]
  · rw [Multiset.count_cons_of_ne same]

theorem Heap.leftBehind_cons_of_lt (slot : H.slot h = .live o)
    (more : (R.count h : Int) + 1 < o.count) : H.leftBehind (h ::ₘ R) = H.leftBehind R := by
  have live : H.isLive h = true := Heap.isLive_iff.2 ⟨o, slot⟩
  have header := Heap.header_of_object? (Heap.object?_of_live slot)
  have within : ¬ (o.count - 1).toNat ≤ R.count h := by omega
  rw [Heap.leftBehind, excess_cons, live, header, if_pos rfl, if_neg within, zero_add,
    Heap.leftBehind]

theorem Heap.leftBehind_cons_of_le
    (spent : ∀ o, H.slot h = .live o → o.count ≤ (R.count h : ℕ) + 1) :
    H.leftBehind (h ::ₘ R) = {H.leftover h} + H.leftBehind R := by
  have beyond : (if H.isLive h then ((H.header h).count - 1).toNat else 0) ≤ R.count h := by
    split
    · rename_i live
      obtain ⟨o, slot⟩ := Heap.isLive_iff.1 live
      have := spent o slot
      rw [Heap.header_of_object? (Heap.object?_of_live slot)]
      omega
    · exact Nat.zero_le _
  rw [Heap.leftBehind, excess_cons, if_pos beyond, Heap.leftBehind]

theorem Heap.leftover_spare : (H.spare R).leftover h = H.leftover h := by
  by_cases live : H.isLive h = true
  · rw [Heap.leftover, Heap.leftover, Heap.isLive_spare, if_pos live, if_pos live]
  · have same : (H.spare R).slot h = H.slot h := by
      rw [Heap.slot_spare]
      cases slot : H.slot h with
      | live o => exact absurd (Heap.isLive_iff.2 ⟨o, slot⟩) live
      | parked o => rfl
      | reclaimed => rfl
    have header : (H.spare R).header h = H.header h := by
      rw [Heap.header, Heap.object?, same]
      rfl
    rw [Heap.leftover, Heap.leftover, Heap.isLive_spare, header]

theorem Engine.countOf_eq_header (e : Engine) (h : Handle) :
    e.countOf (.reference h) = (e.heap.header h).count := by
  cases found : e.heap.object? h with
  | some o => rw [Engine.countOf_of_object? found, Heap.header_of_object? found]
  | none =>
      have same : e.object? (.reference h) = none := found
      rw [Engine.countOf, same, Heap.header, found]
      rfl

theorem Engine.releaseRegistered_of_lt (rested : e.Rested) (slot : e.heap.slot h = .live o)
    (more : 1 < o.count) : e.releaseRegistered (.reference h) =
      { e with heap := e.heap.update h fun o => { o with count := o.count - 1 } } := by
  have found := Heap.object?_of_live slot
  have live : e.isLive (.reference h) = true := Heap.isLive_iff.2 ⟨o, slot⟩
  rw [Engine.releaseRegistered, live, Engine.countOf_of_object? found, decide_eq_true more]
  exact Engine.releaseReference_eq rested found (by omega) (by omega)

theorem Engine.releaseRegistered_of_last (last : ∀ o, e.heap.slot h = .live o → o.count = 1) :
    e.releaseRegistered (.reference h) =
      { e with leftovers := e.leftovers.push (e.heap.leftover h) } := by
  have count : e.heap.isLive h = true → (e.heap.header h).count = 1 := by
    intro live
    obtain ⟨o, slot⟩ := Heap.isLive_iff.1 live
    rw [Heap.header_of_object? (Heap.object?_of_live slot), last o slot]
  have note : e.heap.leftover h = ⟨h, e.isLive (.reference h), e.countOf (.reference h)⟩ := by
    rw [Heap.leftover, Engine.countOf_eq_header]
    split
    · rename_i live
      rw [count live]
      rfl
    · rfl
  have kept : (e.isLive (.reference h) && decide (1 < e.countOf (.reference h))) = false := by
    rw [Bool.and_eq_false_imp, decide_eq_false_iff_not, Engine.countOf_eq_header]
    intro live
    rw [count live]
    omega
  rw [Engine.releaseRegistered, kept, note]
  rfl

/-- One more registration, when the references of those in `R` have been given back as far
as they could be spared. -/
theorem Engine.releaseRegistered_spare (rested : e.Rested) {before : Array Leftover}
    (notes : (before.toList : Multiset Leftover) = e.heap.leftBehind R + ↑e.leftovers.toList)
    (h : Handle) : ∃ leftovers : Array Leftover, (leftovers.toList : Multiset Leftover) =
        e.heap.leftBehind (h ::ₘ R) + ↑e.leftovers.toList ∧
      Engine.releaseRegistered { e with heap := e.heap.spare R, leftovers := before }
          (.reference h) =
        { e with heap := e.heap.spare (h ::ₘ R), leftovers := leftovers } := by
  by_cases more : ∃ o, e.heap.slot h = .live o ∧ (R.count h : Int) + 1 < o.count
  · obtain ⟨o, slot, more⟩ := more
    have slot' : (e.heap.spare R).slot h =
        .live { o with count := max 1 (o.count - (R.count h : ℕ)) } := by
      rw [Heap.slot_spare, slot]
      rfl
    have spares : 1 < max 1 (o.count - (R.count h : ℕ)) := by omega
    refine ⟨before, ?_, ?_⟩
    · rw [Heap.leftBehind_cons_of_lt slot more, notes]
    · rw [← Heap.spare_cons_of_lt slot more]
      exact Engine.releaseRegistered_of_lt (e := { e with heap := _, leftovers := _ }) rested slot'
        spares
  · have spent : ∀ o, e.heap.slot h = .live o → o.count ≤ (R.count h : ℕ) + 1 := by
      intro o slot
      by_contra beyond
      exact more ⟨o, slot, by omega⟩
    have last : ∀ o, (e.heap.spare R).slot h = .live o → o.count = 1 := by
      intro o' slot'
      obtain ⟨o, slot⟩ := Heap.isLive_iff.1 (e.heap.isLive_spare h ▸ Heap.isLive_iff.2 ⟨o', slot'⟩)
      have := spent o slot
      rw [Heap.slot_spare, slot, Slot.mapLive, Slot.live.injEq] at slot'
      rw [← slot']
      show max 1 _ = _
      omega
    refine ⟨before.push (e.heap.leftover h), ?_, ?_⟩
    · rw [Heap.leftBehind_cons_of_le spent, add_assoc, ← notes, Multiset.singleton_add,
        Multiset.cons_coe, Multiset.coe_eq_coe, Array.toList_push]
      exact List.perm_append_singleton _ _
    · rw [Engine.releaseRegistered_of_last last, Heap.spare_cons_of_le spent, Heap.leftover_spare]

/-- What comes of going through some registrations depends on how often each object is
registered, and on nothing else. -/
theorem Engine.foldl_releaseRegistered_eq (rested : e.Rested)
    (counted : ∀ h o, e.heap.slot h = .live o → 0 < o.count) (vs : List Value) :
    ∃ leftovers : Array Leftover, (leftovers.toList : Multiset Leftover) =
        e.heap.leftBehind (refsOf vs) + ↑e.leftovers.toList ∧
      vs.foldl Engine.releaseRegistered e =
        { e with heap := e.heap.spare (refsOf vs), leftovers := leftovers } := by
  -- The last entry meets the counts that all others have left.
  induction vs using List.reverseRecOn with
  | nil =>
      refine ⟨e.leftovers, ?_, ?_⟩
      · rw [refsOf_nil, Heap.leftBehind, excess_zero, zero_add]
      · rw [refsOf_nil, Heap.spare_zero counted]
        rfl
  | append_singleton vs v ih =>
      obtain ⟨before, notes, drained⟩ := ih
      rw [List.foldl_append, drained, refsOf_append, refsOf_cons, refsOf_nil, add_zero]
      cases v with
      | immediate w =>
          rw [Value.refs_immediate, add_zero]
          exact ⟨before, notes, rfl⟩
      | reference h =>
          rw [Value.refs_reference, add_comm (refsOf vs), Multiset.singleton_add]
          exact Engine.releaseRegistered_spare rested notes h

/-! ### Closing -/

theorem Engine.aside_leftovers (leftovers : Array Leftover) :
    Engine.Aside fun e => { e with leftovers := leftovers } :=
  ⟨fun _ => rfl, fun _ => rfl, fun _ _ _ => rfl, fun _ _ _ _ => rfl, fun _ _ => rfl,
    fun _ _ => rfl, fun _ => rfl⟩

theorem Engine.aside_contexts (contexts : Array Context) :
    Engine.Aside fun e => { e with contexts := contexts } :=
  ⟨fun _ => rfl, fun _ => rfl, fun _ _ _ => rfl, fun _ _ _ _ => rfl, fun _ _ => rfl,
    fun _ _ => rfl, fun _ => rfl⟩

/-- The registrations in another order. What else is given up when the context closes does
not depend on what was left behind of them. -/
theorem Engine.tearDown_reordered (rested : e.Rested)
    (counted : ∀ h o, e.heap.slot h = .live o → 0 < o.count)
    (found : e.contexts[c.toNat]? = some ctx) (hopen : ctx.isOpen = true) {registered : Array Value}
    (perm : registered.toList.Perm ctx.registered.toList) :
    ∃ leftovers : Array Leftover, leftovers.toList.Perm (e.tearDown c).leftovers.toList ∧
      (e.updateContext c fun ctx => { ctx with registered := registered }).tearDown c =
        { e.tearDown c with leftovers := leftovers } := by
  have replaced := Engine.updateContext_eq (f := fun ctx => { ctx with registered := registered })
    found
  have found' :
      (e.updateContext c fun ctx => { ctx with registered := registered }).contexts[c.toNat]? =
        some { ctx with registered := registered } := by
    rw [Engine.contexts_updateContext, if_pos rfl, found, Option.map_some]
  have emptied : (e.updateContext c fun ctx => { ctx with registered := registered }).updateContext
      c Context.emptied = e.updateContext c Context.emptied := by
    rw [Engine.updateContext_eq found', replaced, Engine.updateContext_eq found]
    exact congrArg (fun contexts => { e with contexts := contexts })
      (Array.setIfInBounds_setIfInBounds ..)
  have drained := Engine.foldl_releaseRegistered_eq
    (e := e.updateContext c Context.emptied) rested counted
  obtain ⟨leftovers, notes, drain⟩ := drained ctx.registered.toList
  obtain ⟨leftovers', notes', drain'⟩ := drained registered.toList
  rw [refsOf_perm perm] at notes' drain'
  have aside := Engine.aside_leftovers leftovers'
  have moved : registered.toList.foldl Engine.releaseRegistered
      (e.updateContext c Context.emptied) =
        { ctx.registered.toList.foldl Engine.releaseRegistered
            (e.updateContext c Context.emptied) with leftovers := leftovers' } := by
    rw [drain, drain']
  have resting : (ctx.registered.toList.foldl Engine.releaseRegistered
      (e.updateContext c Context.emptied)).Rested := by
    rw [drain]
    exact rested
  refine ⟨leftovers', ?_, ?_⟩
  · rw [Engine.tearDown_eq found hopen]
    show leftovers'.toList.Perm (e.vacated c ctx).leftovers.toList
    rw [Engine.vacated, leftovers_of_frame (Engine.frame_releaseAll _ _),
      leftovers_of_frame (Engine.frame_release _ _), drain, ← Multiset.coe_eq_coe, notes, notes']
  · rw [Engine.tearDown_eq found' hopen, Engine.tearDown_eq found hopen, Engine.vacated, emptied,
      moved, Engine.vacated]
    rw [aside.release resting resting, aside.releaseAll (Engine.rested_release resting)
      (Engine.rested_release resting)]
    rfl

theorem Engine.Settled.closes (hs : e.Settled M X) (found : e.contexts[c.toNat]? = some ctx)
    (hopen : ctx.isOpen = true) : e.Closes c ctx where
  deregistered := Engine.foldl_releaseRegistered_eq
    (Engine.Balanced.rested (hs.emptied found hopen)) (fun _ _ slot => (hs.sound.live slot).2.2) _
  tearDown := Engine.tearDown_eq found hopen
  unordered _ perm := Engine.tearDown_reordered (Engine.Balanced.rested hs)
    (fun _ _ slot => (hs.sound.live slot).2.2) found hopen perm

/-- Leaving a context that nobody else shares closes it. -/
theorem Engine.leaveContext_of_proceed (found : e.contexts[c.toNat]? = some ctx)
    (active : ctx.phase = .active) (last : (e.leaveContext c).1 = .proceed) :
    (e.leaveContext c).2 = (e.deserted c ctx).tearDown c := by
  rw [Engine.leaveContext, Engine.activeContext_of_active found active] at last ⊢
  dsimp only at last ⊢
  rw [last]
  have zero : wrapCount (ctx.count - 1) = 0 := by
    rw [Decision.make] at last
    split at last
    · cases last
    · split at last
      · assumption
      · cases last
  rw [zero]
  rfl

theorem Engine.Settled.keepsRegistry {entered struck : Handle → Nat} (hs : e.Settled M X)
    (found : e.contexts[c.toNat]? = some ctx) (active : ctx.phase = .active)
    (counted : ∀ h, ctx.registrations.count h + struck h = entered h) :
    e.KeepsRegistry c ctx entered struck where
  counted := counted
  enters _ := Engine.fst_perform_register found active
  strikes h := by
    rw [Engine.fst_perform_unregister found active]
    simp only [Context.count_registrations_pos]
  struck h valid entered := by
    obtain ⟨registered, perm, result⟩ :=
      Engine.unregister_of_mem found active (Context.count_registrations_pos.1 entered)
    have rested : e.Rested := Engine.Balanced.rested hs
    have aside := Engine.aside_contexts
      (e.contexts.setIfInBounds c.toNat { ctx with registered := registered })
    have passed : ∀ v ∈ [Value.reference h], e.isValid v = true := by simpa using valid
    refine ⟨registered, perm, ?_⟩
    rw [Engine.perform_of_valid (a := .unregister c _) passed,
      Engine.perform_of_valid (a := .release _) passed]
    show (e.unregister c (.reference h)).2 = _
    rw [result]
    exact aside.release rested rested (.reference h)
  missed h valid zero := by
    have absent : Value.reference h ∉ ctx.registered.toList := fun mem =>
      absurd (Context.count_registrations_pos.2 mem) (by omega)
    have passed : ∀ v ∈ [Value.reference h], e.isValid v = true := by simpa using valid
    rw [Engine.perform_of_valid (a := .unregister c _) passed]
    show (e.unregister c (.reference h)).2 = e
    rw [Engine.unregister_of_not_mem found active absent]
  closes := hs.closes found (Context.isOpen_of_active active)
  left last := by
    have found' : (e.checkCount (ctx.count - 1)).contexts[c.toNat]? = some ctx := by
      rw [Engine.contexts_checkCount, found]
    have proceeds : (e.leaveContext c).1 = .proceed := Answer.decision.inj last
    have deserted : (e.deserted c ctx).contexts[c.toNat]? = some { ctx with count := 0 } := by
      rw [Engine.deserted, Engine.contexts_updateContext, if_pos rfl, found', Option.map_some]
    have hopen := Context.isOpen_of_active active
    have settled : (e.deserted c ctx).Settled M X :=
      (hs.checkCount _).updateContext found' hopen rfl rfl
    exact ⟨Engine.leaveContext_of_proceed found active proceeds, settled.closes deserted hopen⟩
  shut others absent := by
    have absent' : c.toNat ∉ others.map UInt32.toNat := by
      intro mem
      obtain ⟨k, listed, same⟩ := List.mem_map.1 mem
      exact absent (UInt32.toNat_inj.1 same ▸ listed)
    have kept : (others.foldl Engine.tearDown e).contexts[c.toNat]? = some ctx := by
      rw [Engine.contexts_foldl_tearDown, if_neg absent', found]
    exact hs.foldl_tearDown.closes kept (Context.isOpen_of_active active)

theorem Session.engine_follow {d : Discipline} {s s' : Session} {steps : List (Action × Bool)}
    (followed : s.follow d steps = some s') :
    s'.engine = (s.engine.run (steps.map Prod.fst)).2 := by
  induction steps generalizing s with
  | nil =>
      obtain rfl : s = s' := Option.some.inj followed
      rfl
  | cons step rest ih =>
      obtain ⟨a, booked⟩ := step
      obtain ⟨-, -, later⟩ := Session.follow_cons followed
      exact ih later

end

/-- The registry of an active context, in a run of a plain host. Each object is registered as
many times as it was registered with success less the registrations that were taken back,
and to take one back gives back one reference and leaves all others. When the context is
closed, be it left or shut down after others, the registrations are gone through without
an end of any object, and in whatever order. -/
theorem Session.keepsRegistry_of_follow {limits : Limits} {s : Session}
    {steps : List (Action × Bool)} {c : ContextId} {ctx : Context}
    (followed : (Session.start limits).follow .plain steps = some s)
    (found : s.engine.contexts[c.toNat]? = some ctx) (active : ctx.phase = .active) :
    s.engine.KeepsRegistry c ctx
      (fun h => (Engine.new limits).tally (Action.enters c h) (steps.map Prod.fst))
      (fun h => (Engine.new limits).tally (Action.strikes c h) (steps.map Prod.fst)) := by
  have settled := (Reached.start.follow followed).settled
  have run : s.engine = ((Engine.new limits).run (steps.map Prod.fst)).2 :=
    Session.engine_follow followed
  refine settled.keepsRegistry found active fun h => ?_
  rw [run] at found
  have counted := Engine.registrations_run (h := h) (steps.map Prod.fst) found active
  have fresh : (Engine.new limits).registrations c = 0 := Engine.registrations_eq_zero rfl
  rw [fresh, Multiset.count_zero, zero_add] at counted
  exact counted

/-- A host that registers three objects on a context and takes one registration back. The
second is left with fewer references than it has registrations, and the third is parked. -/
def sharedRegistrations : List (Action × Bool) :=
  [(.openContext 0, true), (.makePlain Value.null, true), (.makePlain Value.null, true),
    (.makePlain Value.null, true), (.register 0 (.reference 7), true),
    (.register 0 (.reference 8), true), (.register 0 (.reference 9), true),
    (.register 0 (.reference 7), true), (.register 0 (.reference 8), true),
    (.unregister 0 (.reference 7), true), (.unregister 0 (.reference 0), true),
    (.relinquish (.reference 8), false), (.relinquish (.reference 8), false),
    (.relinquish (.reference 9), true), (.relinquish (.reference 9), false)]

theorem keepsRegistry_sharedRegistrations : ∃ s ctx,
    (Session.start {}).follow .plain sharedRegistrations = some s ∧
      s.engine.contexts[0]? = some ctx ∧ ctx.phase = .active ∧
      ctx.registered = #[.reference 7, .reference 8, .reference 9, .reference 8] ∧
      s.engine.countOf (.reference 7) = 2 ∧ s.engine.countOf (.reference 8) = 1 ∧
      s.engine.heap.isParked 9 = true ∧
      s.engine.KeepsRegistry 0 ctx
        (fun h => (Engine.new {}).tally (Action.enters 0 h) (sharedRegistrations.map Prod.fst))
        (fun h => (Engine.new {}).tally (Action.strikes 0 h)
          (sharedRegistrations.map Prod.fst)) := by
  have run : ((Session.start {}).follow .plain sharedRegistrations).any (fun s =>
      s.engine.contexts[0]?.any fun ctx => decide (ctx.phase = .active ∧
        ctx.registered = #[.reference 7, .reference 8, .reference 9, .reference 8] ∧
        s.engine.countOf (.reference 7) = 2 ∧ s.engine.countOf (.reference 8) = 1 ∧
        s.engine.heap.isParked 9 = true)) = true := by
    decide +kernel
  obtain ⟨s, followed, here⟩ := (Option.any_eq_true _ _).1 run
  obtain ⟨ctx, found, facts⟩ := (Option.any_eq_true _ _).1 here
  obtain ⟨active, registered, counts⟩ := of_decide_eq_true facts
  obtain ⟨shared, spent, parked⟩ := counts
  exact ⟨s, ctx, followed, found, active, registered, shared, spent, parked,
    Session.keepsRegistry_of_follow followed found active⟩

end CountedHeap
