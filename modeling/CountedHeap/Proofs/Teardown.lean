import CountedHeap.Proofs.Contexts

/-!
Opening and closing contexts, and shutting down. A context that is being closed
hands all its references to the outside first, so that the closing is a series
of releases. A registration whose reference is not given back is abandoned: the
reference belongs to nobody from then on, and no count forgets it.
-/

namespace CountedHeap

section

variable {e : Engine} {M : Finset Handle} {X X' : Multiset Handle} {c : ContextId}
  {ctx : Context} {v : Value} {h : Handle}

theorem Engine.Settled.names_of_held {vs : List Value} (hs : e.Settled M (refsOf vs + X))
    (mem : v ∈ vs) : e.Names v := by
  intro k hk
  refine hs.owned.named k (Multiset.mem_add.2 (.inl (Multiset.mem_add.2 (.inl ?_))))
  rw [mem_refsOf, ← Value.mem_refs.1 hk]
  exact mem

/-! ### Opening -/

/-- The references on the prototypes that were made, unless one was refused. -/
def handedOverAll : Except Refusal (Array Value) → Multiset Handle
  | .ok vs => refsOf vs.toList
  | .error _ => 0

theorem Engine.inRange_of_makePrototypes {base : Value} {made : Array Value} {n : Nat}
    (range : (e.makePrototypes base made n).2.InRange) : e.InRange := by
  induction n generalizing e made with
  | zero => exact range
  | succ n ih =>
      rw [Engine.makePrototypes] at range
      rcases step : e.makePlain base with ⟨refusal | proto, e'⟩
      · simp only [step] at range
        rw [inRange_of_frame (Engine.frame_releaseAll _ _)] at range
        have after : (e.makePlain base).2.InRange := step ▸ range
        exact Engine.inRange_of_makeWithProto after
      · simp only [step] at range
        have after : (e.makePlain base).2.InRange := step ▸ ih range
        exact Engine.inRange_of_makeWithProto after

/-- Prototypes are made on top of one that is among those held. -/
theorem Engine.Settled.makePrototypes {base : Value} {made : Array Value} {n : Nat}
    (hs : e.Settled M (refsOf made.toList + X)) (mem : base ∈ made)
    (range : (e.makePrototypes base made n).2.InRange) :
    (e.makePrototypes base made n).2.Settled M
        (handedOverAll (e.makePrototypes base made n).1 + X) ∧
      ∀ protos, (e.makePrototypes base made n).1 = .ok protos → base ∈ protos := by
  induction n generalizing e made with
  | zero =>
      refine ⟨hs, ?_⟩
      rintro protos ⟨⟩
      exact mem
  | succ n ih =>
      -- The base cannot go in a collection, as it is among those held.
      have named : e.Names base := hs.names_of_held mem.val
      have plain := hs.makePlain named
      rw [Engine.makePrototypes] at range ⊢
      rcases step : e.makePlain base with ⟨refusal | proto, e'⟩
      · rw [step] at plain
        simp only [step] at range ⊢
        rw [inRange_of_frame (Engine.frame_releaseAll _ _)] at range
        have kept := plain range
        rw [handedOver, zero_add] at kept
        rw [handedOverAll, zero_add]
        refine ⟨kept.releaseAll, ?_⟩
        intro protos refused
        cases refused
      · rw [step] at plain
        simp only [step] at range ⊢
        have kept := plain (Engine.inRange_of_makePrototypes range)
        refine ih ?_ (Array.mem_push_of_mem proto mem) range
        rw [Array.toList_push, refsOf_append, refsOf_cons, refsOf_nil, add_zero]
        rw [handedOver, ← add_assoc, add_comm proto.refs] at kept
        exact kept

theorem Engine.Settled.makeContext {base : Value} {protos : Array Value}
    (hs : e.Settled M (refsOf protos.toList + X)) (mem : base ∈ protos)
    (range : (e.makeContext base protos).2.InRange) :
    (e.makeContext base protos).2.Settled M X := by
  have named : e.Names base := hs.names_of_held mem.val
  have owned : ((Payload.plain base []).owned : Multiset Handle) = base.refs + 0 := by
    rw [coe_owned, Payload.values, refsOf_cons]
    rfl
  rw [← zero_add (refsOf protos.toList + X)] at hs
  have made : (e.allocateWithProto base ClassId.global (.plain base [])).2.InRange → _ :=
    fun range => hs.allocateWithProto named range owned
  rw [Engine.makeContext] at range ⊢
  rcases step : e.allocateWithProto base ClassId.global (.plain base []) with ⟨refusal | global, e'⟩
  · simp only [step] at made range ⊢
    rw [inRange_of_frame (Engine.frame_releaseAll _ _)] at range
    have kept := made range
    rw [handedOver, zero_add] at kept
    exact kept.releaseAll
  · simp only [step] at made range ⊢
    refine Engine.Settled.pushContext ?_ (Engine.isClosed_of_allocate step) rfl
    rw [Context.references_of_isOpen rfl]
    have kept := made range
    rw [handedOver, ← add_assoc] at kept
    simpa using kept

theorem Engine.inRange_allocate_of_makeContext {base : Value} {protos : Array Value}
    (range : (e.makeContext base protos).2.InRange) :
    (e.allocateWithProto base ClassId.global (.plain base [])).2.InRange := by
  rw [Engine.makeContext] at range
  split at range
  · rename_i step
    rw [inRange_of_frame (Engine.frame_releaseAll _ _)] at range
    exact step ▸ range
  · rename_i step
    exact step ▸ range

theorem Engine.inRange_of_makeContext {base : Value} {protos : Array Value}
    (range : (e.makeContext base protos).2.InRange) : e.InRange :=
  Engine.inRange_of_allocateWithProto (Engine.inRange_allocate_of_makeContext range)

theorem Engine.Settled.openContext {slots : Nat} (hs : e.Settled M X)
    (range : (e.openContext slots).2.InRange) : (e.openContext slots).2.Settled M X := by
  rw [Engine.openContext] at range ⊢
  split
  · exact hs
  · rename_i hopen
    rw [if_neg hopen] at range
    have plain : (e.makePlain Value.null).2.InRange → _ := hs.makePlain (Engine.names_immediate _)
    rcases first : e.makePlain Value.null with ⟨refusal | base, e₁⟩
    · simp only [first] at plain range ⊢
      have kept := plain range
      rw [handedOver, zero_add] at kept
      exact kept
    · simp only [first] at plain range ⊢
      rcases second : e₁.makePrototypes base #[base] (prototypeSlots slots - 1) with
        ⟨refusal | protos, e₂⟩
      · simp only [second] at range ⊢
        have after : (e₁.makePrototypes base #[base] (prototypeSlots slots - 1)).2.InRange :=
          second ▸ range
        have start := plain (Engine.inRange_of_makePrototypes after)
        rw [handedOver, ← refsOf_singleton] at start
        obtain ⟨kept, -⟩ := Engine.Settled.makePrototypes start (Array.mem_singleton.2 rfl) after
        rw [second, handedOverAll, zero_add] at kept
        exact kept
      · simp only [second] at range ⊢
        have after : (e₁.makePrototypes base #[base] (prototypeSlots slots - 1)).2.InRange :=
          second ▸ Engine.inRange_of_makeContext range
        have start := plain (Engine.inRange_of_makePrototypes after)
        rw [handedOver, ← refsOf_singleton] at start
        obtain ⟨kept, mem⟩ := Engine.Settled.makePrototypes start (Array.mem_singleton.2 rfl) after
        rw [second] at kept mem
        exact kept.makeContext (mem protos rfl) range

/-! ### Closing -/

theorem Engine.Settled.leaveBehind (hs : e.Settled M (v.refs + X))
    (last : e.isLive v = true → e.countOf v = 1) :
    (e.leaveBehind v).Settled M X := by
  cases v with
  | immediate w =>
      rw [Value.refs_immediate, zero_add] at hs
      exact hs
  | reference h =>
      rw [Value.refs_reference, Multiset.singleton_add] at hs
      have abandoned : (e.leaveBehind (.reference h)).abandoned = e.abandoned + {h} := by
        simp only [Engine.abandoned, Engine.leaveBehind, Value.handle?, Array.toList_push,
          List.map_append, List.map_cons, List.map_nil]
        exact (Multiset.coe_add _ [h]).symm
      refine ⟨hs.sound, hs.owned.transfer (fun _ => rfl) rfl ?_ ?_, ?_, hs.blameless.unstrayed, ?_,
        ?_, hs.blameless.addressed, hs.blameless.idle⟩
      · rw [abandoned]
        show X + e.references + (e.abandoned + {h}) = _
        rw [Multiset.cons_add, Multiset.cons_add, ← Multiset.singleton_add]
        abel
      · show X + e.references ≤ _
        rw [Multiset.cons_add]
        exact Multiset.le_cons_self _ h
      · exact hs.blameless.excused
      · intro hopen r hr hM
        rcases Array.mem_push.1 hr with old | rfl
        · exact hs.blameless.kept hopen r old hM
        · rfl
      · intro r hr live
        rcases Array.mem_push.1 hr with old | rfl
        · exact hs.blameless.spared r old live
        · exact last live

theorem Engine.countOf_of_object? {h : Handle} {o : Object} (found : e.heap.object? h = some o) :
    e.countOf (.reference h) = o.count := by
  have same : e.object? (.reference h) = some o := found
  rw [Engine.countOf, same]

theorem Engine.Settled.count_pos (hs : e.Settled M X) (live : e.isLive v = true) :
    0 < e.countOf v := by
  cases v with
  | immediate w => cases live
  | reference h =>
      obtain ⟨o, slot⟩ := Heap.isLive_iff.1 live
      rw [Engine.countOf_of_object? (Heap.object?_of_live slot)]
      exact (hs.sound.live slot).2.2

theorem Engine.Settled.releaseRegistered (hs : e.Settled M (v.refs + X)) :
    (e.releaseRegistered v).Settled M X := by
  rw [Engine.releaseRegistered]
  split
  · exact hs.release
  · rename_i spared
    refine hs.leaveBehind fun live => ?_
    have positive := hs.count_pos live
    rw [live, Bool.true_and, decide_eq_true_eq] at spared
    omega

theorem Engine.Settled.foldl_releaseRegistered {vs : List Value}
    (hs : e.Settled M (refsOf vs + X)) : (vs.foldl Engine.releaseRegistered e).Settled M X := by
  induction vs generalizing e with
  | nil =>
      rw [refsOf_nil, zero_add] at hs
      exact hs
  | cons v rest ih =>
      rw [refsOf_cons, add_assoc] at hs
      exact ih hs.releaseRegistered

theorem Engine.contexts_releaseRegistered (e : Engine) (v : Value) :
    (e.releaseRegistered v).contexts = e.contexts := by
  rw [Engine.releaseRegistered]
  split
  · exact contexts_of_frame (e.frame_release v)
  · rw [Engine.leaveBehind]
    split <;> rfl

theorem Engine.contexts_foldl_releaseRegistered (e : Engine) (vs : List Value) :
    (vs.foldl Engine.releaseRegistered e).contexts = e.contexts := by
  induction vs generalizing e with
  | nil => rfl
  | cons v rest ih => rw [List.foldl_cons, ih, Engine.contexts_releaseRegistered]

/-- What is left of a context that was closed. -/
def Context.closed (ctx : Context) : Context :=
  { ctx.emptied with phase := .freed }

/-- Closes a context that is open. -/
def Context.shut (ctx : Context) : Context :=
  if ctx.isOpen then ctx.closed else ctx

theorem Context.references_emptied (ctx : Context) : ctx.emptied.references = 0 := by
  rw [Context.references_of_isOpen rfl]
  simp [Context.emptied]

theorem Context.references_closed (ctx : Context) : ctx.closed.references = 0 :=
  if_neg Bool.false_ne_true

theorem Context.isOpen_shut (ctx : Context) : ctx.shut.isOpen = false := by
  rw [Context.shut]
  split
  · rfl
  · exact Bool.eq_false_iff.2 ‹_›

theorem Context.shut_shut (ctx : Context) : ctx.shut.shut = ctx.shut := by
  rw [Context.shut, ctx.isOpen_shut]
  rfl

/-- An engine in the middle of a teardown, when the context has given up
everything that it owned. -/
def Engine.vacated (e : Engine) (c : ContextId) (ctx : Context) : Engine :=
  ((ctx.registered.toList.foldl Engine.releaseRegistered
    (e.updateContext c Context.emptied)).release ctx.global).releaseAll ctx.prototypes.toList

theorem Engine.tearDown_eq (found : e.contexts[c.toNat]? = some ctx) (hopen : ctx.isOpen = true) :
    e.tearDown c = (e.vacated c ctx).updateContext c fun ctx => { ctx with phase := .freed } := by
  simp only [Engine.tearDown, Engine.vacated, found, hopen, if_true, Array.foldl_toList]

theorem Engine.contexts_updateContext {f : Context → Context} (k : Nat) :
    (e.updateContext c f).contexts[k]? =
      if k = c.toNat then e.contexts[k]?.map f else e.contexts[k]? := by
  rw [Engine.updateContext, Array.getElem?_modify]
  by_cases same : k = c.toNat
  · rw [if_pos same, if_pos same.symm]
  · rw [if_neg same, if_neg (Ne.symm same)]

/-- Giving up references touches no context, so only the emptied one has changed. -/
theorem Engine.contexts_vacated :
    (e.vacated c ctx).contexts = (e.updateContext c Context.emptied).contexts := by
  rw [Engine.vacated, contexts_of_frame (Engine.frame_releaseAll _ _),
    contexts_of_frame (Engine.frame_release _ _), Engine.contexts_foldl_releaseRegistered]

theorem Engine.contexts_tearDown (k : Nat) : (e.tearDown c).contexts[k]? =
    if k = c.toNat then e.contexts[k]?.map Context.shut else e.contexts[k]? := by
  cases found : e.contexts[c.toNat]? with
  | none =>
      by_cases same : k = c.toNat
      · simp [Engine.tearDown, same, found]
      · simp [Engine.tearDown, same, found]
  | some ctx =>
      by_cases hopen : ctx.isOpen = true
      · rw [Engine.tearDown_eq found hopen, Engine.contexts_updateContext, Engine.contexts_vacated,
          Engine.contexts_updateContext]
        by_cases same : k = c.toNat
        · subst k
          simp [found, Context.shut, hopen, Context.closed]
        · simp [same]
      · by_cases same : k = c.toNat
        · simp [Engine.tearDown, same, found, hopen, Context.shut]
        · simp [Engine.tearDown, same, found, hopen]

/-- What the context owned is to be given up: the registrations first, then the
global object and the prototypes. -/
theorem Context.references_handed (hopen : ctx.isOpen = true) :
    refsOf ctx.registered.toList + (ctx.global.refs + (refsOf ctx.prototypes.toList + X)) +
      ctx.emptied.references = X + ctx.references := by
  rw [Context.references_emptied, Context.references_of_isOpen hopen, refsOf_cons, refsOf_append]
  abel

theorem Engine.Settled.emptied (hs : e.Settled M X) (found : e.contexts[c.toNat]? = some ctx)
    (hopen : ctx.isOpen = true) : (e.updateContext c Context.emptied).Settled M
      (refsOf ctx.registered.toList + (ctx.global.refs + (refsOf ctx.prototypes.toList + X))) :=
  hs.updateContext found hopen rfl (Context.references_handed hopen)

theorem Engine.Settled.vacated (hs : e.Settled M X) (found : e.contexts[c.toNat]? = some ctx)
    (hopen : ctx.isOpen = true) : (e.vacated c ctx).Settled M X :=
  (hs.emptied found hopen).foldl_releaseRegistered.release.releaseAll

theorem Engine.Settled.tearDown (hs : e.Settled M X) : (e.tearDown c).Settled M X := by
  cases found : e.contexts[c.toNat]? with
  | none =>
      rw [Engine.tearDown, found]
      exact hs
  | some ctx =>
      by_cases hopen : ctx.isOpen = true
      · have empty : (e.vacated c ctx).contexts[c.toNat]? = some ctx.emptied := by
          rw [Engine.contexts_vacated, Engine.contexts_updateContext, if_pos rfl, found]
          rfl
        rw [Engine.tearDown_eq found hopen]
        apply (hs.vacated found hopen).updateContext empty rfl rfl
        rw [Context.references_emptied]
        exact congrArg (X + ·) ctx.references_closed
      · rw [Engine.tearDown, found]
        simp only [hopen]
        exact hs

theorem Engine.Settled.settle {d : Decision} (hs : e.Settled M X)
    (excused : ∀ d', d = .tolerate d' → d'.Excused M) : (e.settle c d).Settled M X := by
  cases d with
  | proceed => exact hs.tearDown
  | defer => exact hs
  | tolerate d =>
      have recorded : (e.record d).Settled M X := Engine.Balanced.record hs (excused d rfl)
      exact recorded.tearDown

/-- Whatever is decided for a context that is let go, nobody is to blame for an
object. -/
theorem Decision.excused_make {count : Int} (d : Diagnostic)
    (decided : Decision.make c count .release = .tolerate d) : d.Excused M := by
  simp only [Decision.make] at decided
  split at decided
  · cases decided
  · split at decided
    · cases decided
    · injection decided with same
      subst same
      exact Diagnostic.excused_contextBelowZero c _

theorem Engine.contexts_checkCount (n : Int) : (e.checkCount n).contexts = e.contexts := by
  rw [Engine.checkCount]
  split <;> rfl

theorem Engine.Settled.shareContext (hs : e.Settled M X) : (e.shareContext c).Settled M X := by
  rw [Engine.shareContext]
  split
  · rename_i ctx active
    obtain ⟨found, phase⟩ := Engine.activeContext_eq_ok active
    rw [← Engine.contexts_checkCount (ctx.count + 1)] at found
    exact (hs.checkCount _).updateContext found (Context.isOpen_of_active phase) rfl rfl
  · exact Engine.Balanced.record hs (Diagnostic.excused_contextGone c)

theorem Engine.Settled.leaveContext (hs : e.Settled M X) : (e.leaveContext c).2.Settled M X := by
  rw [Engine.leaveContext]
  split
  · exact Engine.Balanced.record hs (Diagnostic.excused_contextGone c)
  · rename_i ctx active
    obtain ⟨found, phase⟩ := Engine.activeContext_eq_ok active
    rw [← Engine.contexts_checkCount (ctx.count - 1)] at found
    have left : ((e.checkCount (ctx.count - 1)).updateContext c fun ctx' =>
        { ctx' with count := wrapCount (ctx.count - 1) }).Settled M X :=
      (hs.checkCount _).updateContext found (Context.isOpen_of_active phase) rfl rfl
    exact left.settle Decision.excused_make

/-! ### Registrations -/

theorem Engine.contexts_retain : (e.retain v).contexts = e.contexts := by
  rw [Engine.retain]
  split
  · rw [Engine.addReference]
    split
    · exact Engine.contexts_checkCount _
    · rfl
  · rfl

theorem Engine.Settled.register (hs : e.Settled M X) (named : e.Names v)
    (range : (e.register c v).2.InRange) : (e.register c v).2.Settled M X := by
  rw [Engine.register] at range ⊢
  split
  · rename_i phase
    simp only [phase] at range
    obtain ⟨ctx, found, active⟩ := Option.map_eq_some_iff.1 phase
    have hopen := Context.isOpen_of_active active
    split
    · rename_i reference
      rw [if_pos reference] at range
      rw [← Engine.contexts_retain (v := v)] at found
      apply (hs.retain named range).updateContext found hopen rfl
      show X + (if ctx.isOpen then _ else _) = v.refs + X + (if ctx.isOpen then _ else _)
      simp only [hopen, if_true, Array.toList_push, refsOf_cons, refsOf_append, refsOf_nil,
        add_zero]
      abel
    · exact hs
  · exact hs
  · exact hs

/-- Nothing but the entry at the place is lost. -/
theorem perm_removeSwap {α : Type} {xs : Array α} {i : Nat} {a : α} (found : xs[i]? = some a) :
    (a :: (removeSwap xs i).toList).Perm xs.toList := by
  obtain ⟨inside, here⟩ := Array.getElem?_eq_some_iff.1 found
  have inside' : i < xs.toList.length := by simpa using inside
  obtain ⟨last, hlast⟩ : ∃ last, xs.toList.getLast? = some last := by
    rw [← Option.isSome_iff_exists, List.getLast?_isSome]
    exact List.ne_nil_of_length_pos (by omega)
  -- The last entry moves into the gap, which may be its own place.
  have swapped : (removeSwap xs i).toList = (xs.toList.set i last).dropLast := by
    have back : xs.back? = some last := by rw [← hlast, Array.getLast?_toList]
    simp [removeSwap, back]
  have stays : (xs.toList.set i last).getLast? = some last := by
    rw [List.getLast?_eq_getElem?, List.length_set, List.getElem?_set, ← List.getLast?_eq_getElem?,
      hlast]
    split <;> rfl
  have ends := List.dropLast_append_getLast? last stays
  have others : (removeSwap xs i).toList.Perm (xs.toList.eraseIdx i) := by
    refine (List.perm_cons last).1 ((List.perm_append_singleton last _).symm.trans ?_)
    rw [swapped, ends]
    exact List.set_perm_cons_eraseIdx inside' last
  have whole := List.getElem_cons_eraseIdx_perm inside'
  rw [Array.getElem_toList, here] at whole
  exact (others.cons a).trans whole

theorem refsOf_perm {vs ws : List Value} (perm : vs.Perm ws) : refsOf vs = refsOf ws :=
  Multiset.coe_eq_coe.2 (perm.filterMap _)

theorem refsOf_removeSwap {xs : Array Value} {i : Nat} (found : xs[i]? = some v) :
    refsOf (removeSwap xs i).toList + v.refs = refsOf xs.toList := by
  rw [← refsOf_perm (perm_removeSwap found), refsOf_cons, add_comm]

theorem lastPlace?_eq_some {xs : Array Value} {i : Nat} (found : lastPlace? xs v = some i) :
    xs[i]? = some v := by
  cases first : xs.reverse.finIdxOf? v with
  | none => simp [lastPlace?, first] at found
  | some j =>
      have inside : j.val < xs.size := by simpa using j.isLt
      have here := (Array.finIdxOf?_eq_some_iff.1 first).1
      have place : xs.size - 1 - j.val = i := by simpa [lastPlace?, first] using found
      rw [← here, ← place]
      simp only [Fin.getElem_fin, Array.getElem_reverse]
      exact Array.getElem?_eq_getElem (by omega)

theorem Engine.Settled.unregister (hs : e.Settled M X) : (e.unregister c v).2.Settled M X := by
  rw [Engine.unregister]
  split
  · exact hs
  · rename_i ctx active
    obtain ⟨found, phase⟩ := Engine.activeContext_eq_ok active
    have hopen := Context.isOpen_of_active phase
    split
    · exact hs
    · rename_i i place
      have removed := refsOf_removeSwap (lastPlace?_eq_some place)
      refine Engine.Settled.release (hs.updateContext found hopen rfl ?_)
      show v.refs + X + (if ctx.isOpen then _ else _) = X + (if ctx.isOpen then _ else _)
      simp only [hopen, if_true, refsOf_cons, refsOf_append, ← removed]
      abel

end

end CountedHeap
