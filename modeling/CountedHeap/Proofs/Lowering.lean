import CountedHeap.Proofs.Requests
import CountedHeap.Proofs.Shutdown

/-!
Operations that take no reference. Giving back and collecting move counts towards zero or
leave them alone, and whatever changes a payload, a table of the engine or a note does not
touch them at all. The counts of contexts stay as they are too. Only taking a reference,
making an object, giving a reference back on the bridge, and sharing and leaving a context
are outside of this.
-/

namespace CountedHeap

/-- A count that moves towards zero, or not at all. -/
def TowardsZero (before after : Int) : Prop :=
  min before 0 ≤ after ∧ after ≤ max before 0

/-- The count in a header. -/
def Heap.count? (H : Heap) (h : Handle) : Option Int :=
  (H.object? h).map (·.count)

/-- No count moves away from zero: what has a header afterwards had one before, contexts keep
their counts, and none has left its range. -/
structure Engine.Lowers (e e' : Engine) : Prop where
  counts : ∀ h n', e'.heap.count? h = some n' → ∃ n, e.heap.count? h = some n ∧ TowardsZero n n'
  contexts : ∀ (p : Nat) (ctx' : Context), e'.contexts[p]? = some ctx' →
    ∃ ctx, e.contexts[p]? = some ctx ∧ ctx'.count = ctx.count
  countWrapped : e'.breaches.countWrapped = e.breaches.countWrapped

section

variable {H : Heap} {e e' e'' : Engine} {h : Handle} {v : Value} {c : ContextId} {n : Int}
  {payload : Payload} {classId : ClassId}

theorem TowardsZero.refl (n : Int) : TowardsZero n n :=
  ⟨Int.min_le_left n 0, Int.le_max_left n 0⟩

theorem Engine.Lowers.refl (e : Engine) : e.Lowers e where
  counts _ n found := ⟨n, found, .refl n⟩
  contexts _ ctx found := ⟨ctx, found, rfl⟩
  countWrapped := rfl

theorem Engine.Lowers.trans (first : e.Lowers e') (later : e'.Lowers e'') : e.Lowers e'' where
  counts h n'' found := by
    obtain ⟨n', found', lower'⟩ := later.counts h n'' found
    obtain ⟨n, found, lower⟩ := first.counts h n' found'
    simp only [TowardsZero] at *
    exact ⟨n, found, by omega⟩
  contexts p ctx'' found := by
    obtain ⟨ctx', found', same'⟩ := later.contexts p ctx'' found
    obtain ⟨ctx, found, same⟩ := first.contexts p ctx' found'
    exact ⟨ctx, found, same'.trans same⟩
  countWrapped := later.countWrapped.trans first.countWrapped

/-! ### Single changes -/

theorem Engine.lowers_aside
    (same : (e'.heap, e'.contexts, e'.breaches.countWrapped) =
      (e.heap, e.contexts, e.breaches.countWrapped)) : e.Lowers e' := by
  simp only [Prod.mk.injEq] at same
  obtain ⟨heap, contexts, countWrapped⟩ := same
  have kept := Engine.Lowers.refl e
  refine ⟨?_, ?_, countWrapped⟩
  · rw [heap]
    exact kept.counts
  · rw [contexts]
    exact kept.contexts

/-! ### The heap -/

theorem Heap.count?_update (H : Heap) (h k : Handle) (f : Object → Object) :
    (H.update h f).count? k =
      if k = h then (H.object? k).map fun o => (f o).count else H.count? k := by
  rw [Heap.count?, Heap.object?_update]
  split
  · rw [Option.map_map]
    rfl
  · rfl

/-- A change of headers that leaves the counts alone. -/
theorem Heap.count?_update_of_eq {f : Object → Object} (same : ∀ o, (f o).count = o.count)
    (k : Handle) : (H.update h f).count? k = H.count? k := by
  rw [Heap.count?_update]
  split
  · simp only [same, Heap.count?]
  · rfl

theorem Heap.count?_mapLive_of_eq {f : Object → Object} (same : ∀ o, (f o).count = o.count)
    (k : Handle) : (H.mapLive f).count? k = H.count? k := by
  rw [Heap.count?, Heap.count?, Heap.object?, Heap.object?, Heap.slot_mapLive]
  cases H.slot k <;> simp [Slot.mapLive, Slot.object?, same]

theorem Heap.count?_scan (k : Handle) : H.enlist.scan.dismiss.count? k = H.count? k := by
  refine Heap.scan_keep (P := fun H' => H'.count? k = H.count? k) ?_ ?_ rfl
  · intro H' h f remarks same
    refine (Heap.count?_update_of_eq (fun o => ?_) k).trans same
    rw [remarks o]
  · intro H' f remarks same
    refine (Heap.count?_mapLive_of_eq (fun o => ?_) k).trans same
    rw [remarks o]

/-- A change of the heap only. -/
theorem Engine.lowers_heap {H : Heap} (counts : ∀ h n', H.count? h = some n' →
      ∃ n, e.heap.count? h = some n ∧ TowardsZero n n') : e.Lowers { e with heap := H } :=
  ⟨counts, (Engine.Lowers.refl e).contexts, rfl⟩

theorem Engine.lowers_heap_of_eq {H : Heap} (same : ∀ h, H.count? h = e.heap.count? h) :
    e.Lowers { e with heap := H } :=
  Engine.lowers_heap fun h n found => ⟨n, (same h).symm.trans found, .refl n⟩

theorem Engine.lowers_updateObject {f : Object → Object}
    (lower : ∀ o, e.heap.object? h = some o → TowardsZero o.count (f o).count) :
    e.Lowers (e.updateObject h f) := by
  refine Engine.lowers_heap fun k n' found => ?_
  rw [Heap.count?_update] at found
  split at found
  · rename_i same
    subst same
    obtain ⟨o, header, rfl⟩ := Option.map_eq_some_iff.1 found
    exact ⟨o.count, by rw [Heap.count?, header]; rfl, lower o header⟩
  · exact ⟨n', found, .refl n'⟩

theorem Engine.lowers_retire (e : Engine) (h : Handle) (size : Nat) (park : Bool) :
    e.Lowers (e.retire h size park) := by
  refine Engine.lowers_heap fun k n found => ⟨n, ?_, .refl n⟩
  rw [Heap.count?, Heap.object?, Heap.slot_retire] at found
  rw [Heap.count?, Heap.object?]
  split at found
  · cases slot : e.heap.slot k <;> cases park <;>
      simp_all [Slot.park, Slot.reclaim, Slot.object?]
  · exact found

theorem Engine.slotWork_lowers : Engine.SlotWork Engine.Lowers where
  refl := .refl
  trans := .trans
  drop {e h o} found positive := Engine.lowers_updateObject fun o' found' => by
    obtain rfl : o = o' := Option.some.inj (found.symm.trans found')
    simp only [TowardsZero]
    omega
  empty _ _ := Engine.lowers_updateObject fun o _ => .refl o.count
  retire := Engine.lowers_retire
  scan _ := Engine.lowers_heap_of_eq fun _ => Heap.count?_scan _
  sweep _ _ := Engine.lowers_updateObject fun o _ =>
    ⟨Int.min_le_right o.count 0, Int.le_max_right o.count 0⟩
  finalized _ _ := Engine.lowers_aside rfl
  surplus _ _ _ := Engine.lowers_aside rfl
  stray _ := Engine.lowers_aside rfl
  doing _ _ := Engine.lowers_aside rfl

/-! ### Operations -/

theorem Engine.lowers_release (e : Engine) (v : Value) : e.Lowers (e.release v) :=
  Engine.slotWork_lowers.release e v

theorem Engine.lowers_releaseAll (e : Engine) (vs : List Value) : e.Lowers (e.releaseAll vs) :=
  Engine.slotWork_lowers.releaseAll e vs

theorem Engine.lowers_collect (e : Engine) : e.Lowers e.collect.2 :=
  Engine.slotWork_lowers.collect e

theorem Engine.lowers_abandon (e : Engine) (payload : Payload) : e.Lowers (e.abandon payload) :=
  Engine.slotWork_lowers.foldl Engine.slotWork_lowers.releaseReference e _

theorem Engine.lowers_makeRoom (e : Engine) (size : Nat) : e.Lowers (e.makeRoom size) := by
  have first : e.Lowers e.collectAtThreshold := by
    rw [Engine.collectAtThreshold]
    split
    · exact (Engine.lowers_collect e).trans (Engine.lowers_aside rfl)
    · exact .refl e
  rw [Engine.makeRoom]
  split
  · exact first.trans (Engine.lowers_collect _)
  · exact first

/-- An allocation makes room, and then it is refused or puts a new object in place. -/
theorem Engine.allocate_cases (e : Engine) (classId : ClassId) (payload : Payload) :
    ∃ e', e.Lowers e' ∧ ((∃ refusal, e.allocate classId payload = (.error refusal, e')) ∨
      e.allocate classId payload =
        (.ok (e'.place classId payload).1, (e'.place classId payload).2)) := by
  have room := Engine.lowers_makeRoom e (headerSize + payload.size)
  rw [Engine.allocate]
  split
  · exact ⟨_, Engine.lowers_abandon e payload, .inl ⟨_, rfl⟩⟩
  · dsimp only
    split
    · exact ⟨_, room.trans (Engine.lowers_abandon _ payload), .inl ⟨_, rfl⟩⟩
    · exact ⟨_, room, .inr rfl⟩

theorem Engine.lowers_updatePayload (e : Engine) (v : Value) (f : Payload → Payload) :
    e.Lowers (e.updatePayload v f) := by
  rw [Engine.updatePayload]
  split
  · exact Engine.lowers_updateObject fun o _ => .refl o.count
  · exact .refl e

theorem Engine.lowers_store (e : Engine) (target : Value) (key : String) (v : Value) :
    e.Lowers (e.store target key v).2 := by
  rw [Engine.store]
  split
  · exact Engine.lowers_release e v
  · exact (Engine.lowers_updatePayload e _ _).trans (Engine.lowers_release _ _)
  · exact (Engine.lowers_updatePayload e _ _).trans (Engine.lowers_heap_of_eq fun _ => by rfl)

theorem Engine.lowers_erase (e : Engine) (target : Value) (key : String) :
    e.Lowers (e.erase target key).2 := by
  rw [Engine.erase]
  split
  · exact .refl e
  · dsimp only
    refine Engine.Lowers.trans ?_ (Engine.lowers_release _ _)
    exact (Engine.lowers_updatePayload e _ _).trans (Engine.lowers_heap_of_eq fun _ => by rfl)

theorem Engine.lowers_append (e : Engine) (target v : Value) :
    e.Lowers (e.append target v).2 := by
  rw [Engine.append]
  split
  · exact (Engine.lowers_updatePayload e _ _).trans (Engine.lowers_heap_of_eq fun _ => by rfl)
  · exact Engine.lowers_release e v

/-! ### Contexts -/

theorem Engine.lowers_updateContext {f : Context → Context}
    (same : ∀ ctx, (f ctx).count = ctx.count) : e.Lowers (e.updateContext c f) := by
  refine ⟨(Engine.Lowers.refl e).counts, fun k ctx' found => ?_, rfl⟩
  simp only [Engine.updateContext, Array.getElem?_modify] at found
  split at found
  · obtain ⟨ctx, before, rfl⟩ := Option.map_eq_some_iff.1 found
    exact ⟨ctx, before, same ctx⟩
  · exact ⟨ctx', found, rfl⟩

theorem Engine.lowers_unregister (e : Engine) (c : ContextId) (v : Value) :
    e.Lowers (e.unregister c v).2 := by
  rw [Engine.unregister]
  split
  · exact .refl e
  · split
    · exact .refl e
    · dsimp only
      exact (Engine.lowers_updateContext fun _ => by rfl).trans (Engine.lowers_release _ v)

theorem Engine.lowers_tearDown (e : Engine) (c : ContextId) : e.Lowers (e.tearDown c) := by
  have registered (e : Engine) (v : Value) : e.Lowers (e.releaseRegistered v) := by
    rw [Engine.releaseRegistered]
    split
    · exact Engine.lowers_release e v
    · rw [Engine.leaveBehind]
      split
      · exact Engine.lowers_aside rfl
      · exact .refl e
  rw [Engine.tearDown]
  split
  · exact .refl e
  · rename_i ctx found
    split
    · have emptied : e.Lowers (e.updateContext c Context.emptied) :=
        Engine.lowers_updateContext fun _ => rfl
      have vacated := emptied.trans
        (Engine.slotWork_lowers.foldl registered _ ctx.registered.toList)
      rw [Array.foldl_toList] at vacated
      exact ((vacated.trans (Engine.lowers_release _ ctx.global)).trans
        (Engine.lowers_releaseAll _ ctx.prototypes.toList)).trans
          (Engine.lowers_updateContext fun _ => by rfl)
    · exact .refl e

theorem Engine.lowers_settle (e : Engine) (c : ContextId) (decision : Decision) :
    e.Lowers (e.settle c decision) := by
  cases decision with
  | defer => exact .refl e
  | proceed => exact Engine.lowers_tearDown e c
  | tolerate d =>
      have recorded : e.Lowers (e.record d) := Engine.lowers_aside rfl
      exact recorded.trans (Engine.lowers_tearDown _ c)

theorem Engine.lowers_clear (e : Engine) : e.Lowers e.clear := by
  have finalized := Engine.slotWork_lowers.foldl
    (fun e (entry : Handle × Object) => Engine.slotWork_lowers.finalize e entry.1 entry.2) e
    e.heap.listed
  refine finalized.trans (Engine.lowers_heap fun h n found => ?_)
  rw [Heap.count?, Heap.object?, Heap.slot_clear] at found
  cases found

theorem Engine.lowers_shutdown (e : Engine) : e.Lowers e.shutdown.2 := by
  rw [Engine.shutdown]
  split
  · exact .refl e
  · have collected : e.Lowers (e.openContexts.foldl Engine.tearDown e).collect.2 :=
      (Engine.slotWork_lowers.foldl Engine.lowers_tearDown e e.openContexts).trans
        (Engine.lowers_collect _)
    rcases step : (e.openContexts.foldl Engine.tearDown e).collect with ⟨n, e'⟩
    rw [step] at collected
    have reported (residual : List Residual) :
        e.Lowers (if residual.isEmpty then e' else e'.record (.leftBehind residual)) := by
      split
      · exact collected
      · exact collected.trans (Engine.lowers_aside rfl)
    simp only [step]
    exact ((reported _).trans (Engine.lowers_clear _)).trans (Engine.lowers_aside rfl)

end

end CountedHeap
