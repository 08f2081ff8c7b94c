import CountedHeap.Proofs.Balance

/-!
A cascade of releases keeps the count discipline. Giving back one reference
takes it from the outside owners. Where that was the last one, the object joins
the queue; disposing of it hands the references in its payload to the outside,
which are given back in turn. Each step of the cascade is one lemma about the
invariant with its queue, and the whole cascade is the induction over the steps.
-/

namespace CountedHeap

section

variable {e e' : Engine} {M : Finset Handle} {B Q X X' : Multiset Handle} {h : Handle} {o : Object}
  {f : Object → Object}

/-- The invariant reads only some parts of an engine. -/
theorem Engine.Balanced.congr (hb : e.Balanced M B Q X)
    (slots : e'.heap.slots = e.heap.slots := by rfl)
    (contexts : e'.contexts = e.contexts := by rfl)
    (leftovers : e'.leftovers = e.leftovers := by rfl)
    (isClosed : e'.isClosed = e.isClosed := by rfl)
    (diagnostics : ∀ d ∈ e'.diagnostics, d ∈ e.diagnostics := by exact fun _ => id)
    (strayAccess : e'.breaches.strayAccess = e.breaches.strayAccess := by rfl)
    (work : e'.work = e.work := by rfl) :
    e'.Balanced M B Q X := by
  have slot : ∀ k, e'.heap.slot k = e.heap.slot k := by
    intro k
    rw [Heap.slot, Heap.slot, slots]
  have object : ∀ k, e'.heap.object? k = e.heap.object? k := by
    intro k
    rw [Heap.object?, Heap.object?, slot]
  have references : e'.references = e.references := by
    rw [Engine.references, Engine.references, Engine.anchors_congr contexts isClosed,
      Heap.references, Heap.references, slots]
  have abandoned : e'.abandoned = e.abandoned := by
    rw [Engine.abandoned, Engine.abandoned, leftovers]
  refine ⟨⟨?_, ?_, hb.sound.nodup⟩, ⟨?_, ?_, ?_, ?_⟩, ⟨?_, ?_, ?_, ?_, ?_, ?_⟩⟩
  · intro k
    rw [slot]
    exact hb.sound.slots k
  · intro k
    rw [object]
    exact hb.sound.waiting k
  · intro k
    rw [object, references, abandoned]
    exact hb.owned.exact k
  · intro k
    rw [object, references]
    exact hb.owned.named k
  · intro k
    rw [object]
    exact hb.owned.adopted k
  · rw [slots, abandoned]
    exact hb.owned.issued
  · exact fun d hd => hb.blameless.excused d (diagnostics d hd)
  · rw [strayAccess]
    exact hb.blameless.unstrayed
  · rw [leftovers, isClosed]
    intro hopen r hr hM
    rw [Heap.isLive, slot]
    exact hb.blameless.kept hopen r hr hM
  · rw [leftovers]
    exact hb.blameless.spared
  · rw [contexts, isClosed]
    exact hb.blameless.addressed
  · rw [work]
    exact hb.blameless.idle

theorem Engine.Balanced.finalize (hb : e.Balanced M B Q X) (h : Handle) (o : Object) :
    (e.finalize h o).Balanced M B Q X := by
  obtain ⟨finalized, noted⟩ := e.finalize_eq h o
  rw [noted]
  exact hb.congr

/-! ### One reference less -/

theorem Object.recounts_count (g : Object → Int) :
    Object.Recounts fun o => { o with count := g o } :=
  ⟨fun _ => rfl, fun _ => rfl, fun _ => rfl, fun _ => rfl, fun _ => id⟩

/-- An object joins the queue exactly when it loses its last reference. -/
theorem Engine.sound_dropReference (hs : e.heap.Sound B Q) : (e.dropReference h).2.heap.Sound B
    ((if (e.dropReference h).1 then {h} else 0) + Q) := by
  cases found : e.heap.object? h with
  | none =>
      simp only [Engine.dropReference, found, Bool.false_eq_true, if_false, zero_add]
      exact hs
  | some o =>
      simp only [Engine.dropReference, found]
      by_cases positive : 0 < o.count
      · have hne : h ∉ B + Q := hs.notMem_of_count found (by omega)
        simp only [positive, if_true]
        by_cases last : o.count = 1
        · simp only [last, beq_self_eq_true, if_true, Multiset.singleton_add]
          exact hs.enqueue (Object.recounts_count _) hne found (by simp [last])
        · simp only [beq_iff_eq, last, if_false, zero_add]
          apply hs.recount (Object.recounts_count _) hne
          intro o' slot
          obtain rfl : o = o' := Option.some.inj (found.symm.trans (Heap.object?_of_live slot))
          dsimp only
          omega
      · simp only [positive, if_false, Bool.false_eq_true, zero_add]
        exact hs

/-- A reference on a misused object can be given back without being counted. -/
theorem Engine.Owned.forgo (ho : e.Owned M (h ::ₘ X)) (hM : h ∈ M) : e.Owned M X where
  exact k o found hk := by
    have differ : k ≠ h := fun same => hk (same ▸ hM)
    rw [ho.exact k o found hk, Multiset.cons_add, Multiset.cons_add,
      Multiset.count_cons_of_ne differ]
  named k hk := by
    apply ho.named k
    rw [Multiset.cons_add]
    exact Multiset.mem_cons_of_mem hk
  adopted := ho.adopted
  issued := ho.issued

theorem Engine.Balanced.dropReference (hb : e.Balanced M B Q (h ::ₘ X)) :
    (e.dropReference h).2.Balanced M B ((if (e.dropReference h).1 then {h} else 0) + Q) X := by
  obtain ⟨o, found⟩ := hb.owned.named h (by simp)
  have counted : h ∉ M → o.count = ((X + e.references + e.abandoned).count h : ℕ) + 1 := by
    intro hM
    rw [hb.owned.exact h o found hM]
    simp [Multiset.cons_add]
  suffices held : (e.dropReference h).2.Owned M X ∧ (e.dropReference h).2.Blameless M from
    ⟨Engine.sound_dropReference hb.sound, held.1, held.2⟩
  simp only [Engine.dropReference, found]
  by_cases positive : 0 < o.count
  · have owned : (e.updateObject h fun o => { o with count := o.count - 1 }).Owned M X := by
      refine hb.owned.recount (Object.recounts_count _) found (fun _ _ => Iff.rfl) ?_ ?_ ?_
      · intro k differ
        rw [Multiset.count_cons_of_ne differ]
      · intro hM
        simp only [counted hM, add_sub_cancel_right]
      · exact fun hM => hb.owned.adopted h hM o found
    rw [if_pos positive]
    exact ⟨owned, hb.blameless.updateObject subset_rfl⟩
  · -- The count is exact unless the host misused the object, so it did.
    have hM : h ∈ M := by
      by_contra hM
      have := counted hM
      omega
    have adopted := hb.owned.adopted h hM o found
    have forgone : e.Balanced M B Q X := ⟨hb.sound, hb.owned.forgo hM, hb.blameless⟩
    have recorded := forgone.record (Diagnostic.excused_surplusRelease hM adopted)
    rw [if_neg positive]
    exact ⟨recorded.owned, recorded.blameless⟩

theorem Engine.Balanced.dropAll {found hs : List Handle}
    (hb : e.Balanced M B (↑found + Q) (↑hs + X)) :
    (e.dropAll found hs).2.Balanced M B (↑(e.dropAll found hs).1 + Q) X := by
  induction hs generalizing e found with
  | nil =>
      rw [Multiset.coe_nil, zero_add] at hb
      rw [Engine.dropAll, Multiset.coe_reverse]
      exact hb
  | cons h rest ih =>
      rw [← Multiset.cons_coe, Multiset.cons_add] at hb
      have step := hb.dropReference
      rw [Engine.dropAll]
      split
      · rename_i e' drop
        apply ih
        rw [drop] at step
        simpa [← Multiset.cons_coe, Multiset.cons_add] using step
      · rename_i e' drop
        apply ih
        rw [drop] at step
        simpa using step

/-! ### The end of an object -/

/-- The object at the front of the queue loses its payload and leaves the queue. -/
theorem Heap.Sound.release {H : Heap} (hs : H.Sound 0 (h ::ₘ Q)) (slot : H.slot h = .live o) :
    (H.update h Object.release).Sound {h} Q where
  slots k := by
    rw [Heap.slot_update]
    have sound := hs.slots k
    split
    · subst k
      rw [slot] at sound ⊢
      exact ⟨sound.1, .inr ⟨rfl, Multiset.mem_singleton_self h, rfl⟩⟩
    · rename_i differ
      exact sound.mono (fun none => absurd none (Multiset.notMem_zero k))
        fun queued => (Multiset.mem_cons.1 queued).resolve_left differ
  waiting k hk := by
    rw [Multiset.singleton_add] at hk
    obtain ⟨o', found, zero⟩ := hs.waiting k (by simpa using hk)
    rw [Heap.object?_update, found]
    split
    · exact ⟨o'.release, rfl, zero⟩
    · exact ⟨o', rfl, zero⟩
  nodup := by
    have nodup := hs.nodup
    rw [zero_add] at nodup
    rw [Multiset.singleton_add]
    exact nodup

theorem Heap.Sound.retire {H : Heap} (hs : H.Sound {h} Q) (slot : H.slot h = .live o)
    (size : Nat) : (H.retire h size o.adopted).Sound 0 Q where
  slots k := by
    obtain ⟨unmarked, freed, empty, -⟩ := hs.ended (Multiset.mem_singleton_self h) slot
    rw [Heap.slot_retire]
    by_cases same : k = h
    · subst k
      rw [if_pos rfl, slot]
      split
      · exact ⟨unmarked, ‹_›, freed, empty⟩
      · trivial
    · rw [if_neg same]
      exact (hs.slots k).mono (fun ends => absurd (Multiset.mem_singleton.1 ends) same) id
  waiting k hk := by
    rw [zero_add] at hk
    have nodup := hs.nodup
    rw [Multiset.singleton_add, Multiset.nodup_cons] at nodup
    rw [Heap.object?, Heap.slot_retire, if_neg (ne_of_mem_of_not_mem hk nodup.1)]
    exact hs.waiting k (Multiset.mem_add.2 (.inr hk))
  nodup := by
    have nodup := hs.nodup
    rw [Multiset.singleton_add, Multiset.nodup_cons] at nodup
    rw [zero_add]
    exact nodup.2

/-- Nobody owns an ended object that was not misused. -/
theorem Engine.Balanced.notMem_of_ended (hb : e.Balanced M {h} Q X) (slot : e.heap.slot h = .live o)
    (hM : h ∉ M) : h ∉ X + e.references + e.abandoned := by
  obtain ⟨-, -, -, zero⟩ := hb.sound.ended (Multiset.mem_singleton_self h) slot
  have exact := hb.owned.exact h o (Heap.object?_of_live slot) hM
  rw [zero] at exact
  exact Multiset.count_eq_zero.1 (by omega)

theorem Engine.Balanced.references_retire (hb : e.Balanced M {h} Q X)
    (slot : e.heap.slot h = .live o) (size : Nat) :
    (e.retire h size o.adopted).references = e.references := by
  obtain ⟨-, -, empty, -⟩ := hb.sound.ended (Multiset.mem_singleton_self h) slot
  refine congrArg (· + e.anchors) (e.heap.references_retire h size o.adopted ?_)
  rw [slot, Slot.owned_live, empty, Payload.owned_released]

/-- The header of an ended object is parked if the host has held the object, and
reclaimed if nobody can know it. -/
theorem Engine.Balanced.object?_retire (hb : e.Balanced M {h} Q X)
    (slot : e.heap.slot h = .live o) (size : Nat) (k : Handle) :
    (e.retire h size o.adopted).heap.object? k = e.heap.object? k ∨
      k = h ∧ h ∉ M ∧ (e.retire h size o.adopted).heap.object? k = none := by
  have found := Heap.object?_of_live slot
  by_cases same : k = h
  · subst k
    rw [found, Heap.object?, Engine.heap_retire, Heap.slot_retire, if_pos rfl, slot]
    by_cases adopted : o.adopted = true
    · rw [if_pos adopted]
      exact .inl rfl
    · rw [if_neg adopted]
      exact .inr ⟨rfl, fun hM => adopted (hb.owned.adopted h hM o found), rfl⟩
  · rw [Heap.object?, Engine.heap_retire, Heap.slot_retire, if_neg same]
    exact .inl rfl

theorem Engine.Balanced.owned_retire (hb : e.Balanced M {h} Q X) (slot : e.heap.slot h = .live o)
    (size : Nat) : (e.retire h size o.adopted).Owned M X where
  exact k o' found' hk := by
    rw [hb.references_retire slot]
    rcases hb.object?_retire slot size k with same | ⟨-, -, gone⟩
    · rw [same] at found'
      exact hb.owned.exact k o' found' hk
    · rw [gone] at found'
      cases found'
  named k hk := by
    rw [hb.references_retire slot] at hk
    rcases hb.object?_retire slot size k with same | ⟨rfl, hM, -⟩
    · rw [same]
      exact hb.owned.named k hk
    · exact absurd (Multiset.mem_add.2 (.inl hk)) (hb.notMem_of_ended slot hM)
  adopted k hk o' found' := by
    rcases hb.object?_retire slot size k with same | ⟨-, -, gone⟩
    · rw [same] at found'
      exact hb.owned.adopted k hk o' found'
    · rw [gone] at found'
      cases found'
  issued k hk := by
    rw [Engine.heap_retire, Heap.size_retire]
    exact hb.owned.issued k hk

theorem Engine.Balanced.retire (hb : e.Balanced M {h} Q X) (slot : e.heap.slot h = .live o)
    (size : Nat) : (e.retire h size o.adopted).Balanced M 0 Q X := by
  refine ⟨hb.sound.retire slot size, hb.owned_retire slot size, ?_⟩
  refine ⟨hb.blameless.excused, hb.blameless.unstrayed, ?_, hb.blameless.spared,
    hb.blameless.addressed, hb.blameless.idle⟩
  intro hopen r hr hk
  -- A registration that was left behind still counts, so it is not on this object.
  have differ : r.target ≠ h := by
    intro same
    have left : r.target ∈ e.abandoned := Engine.target_mem_abandoned hr
    rw [same] at left hk
    exact hb.notMem_of_ended slot hk (Multiset.mem_add.2 (.inr left))
  rw [Heap.isLive, Engine.heap_retire, Heap.slot_retire, if_neg differ]
  exact hb.blameless.kept hopen r hr hk

/-! ### Objects that are past their end -/

/-- Dropping references does not touch an object that has none left. -/
theorem Engine.slot_dropReference_of_count (found : e.heap.object? h = some o) (hc : o.count ≤ 0)
    (k : Handle) : (e.dropReference k).2.heap.slot h = e.heap.slot h := by
  rw [Engine.dropReference]
  split
  · rename_i o' found'
    split
    · rename_i positive
      have differ : h ≠ k := by
        rintro rfl
        rw [found, Option.some.injEq] at found'
        subst found'
        omega
      rw [Engine.heap_updateObject, Heap.slot_update, if_neg differ]
    · rfl
  · rfl

theorem Engine.slot_dropAll_of_count {found hs : List Handle} (header : e.heap.object? h = some o)
    (hc : o.count ≤ 0) : (e.dropAll found hs).2.heap.slot h = e.heap.slot h := by
  induction hs generalizing e found with
  | nil => rfl
  | cons k rest ih =>
      have step := e.slot_dropReference_of_count header hc k
      rw [Engine.dropAll]
      split <;> rename_i e' drop <;> rw [drop] at step <;>
        rw [ih (by rw [Heap.object?, step, ← header, Heap.object?]), step]

/-- The object may have referred to itself, but there is no count left to drop. -/
theorem Engine.slot_dropAll_released {hs : List Handle} (slot : e.heap.slot h = .live o)
    (zero : o.count = 0) :
    (((e.updateObject h Object.release).finalize h o).dropAll [] hs).2.heap.slot h =
      .live o.release := by
  have after : ((e.updateObject h Object.release).finalize h o).heap.slot h = .live o.release := by
    rw [Engine.heap_finalize, Engine.heap_updateObject, Heap.slot_update, if_pos rfl, slot]
    rfl
  rw [Engine.slot_dropAll_of_count (Heap.object?_of_live after) zero.le, after]

/-! ### The cascade -/

/-- The references in the payload of an ending object pass to the outside. -/
theorem Engine.Balanced.releasePayload (hb : e.Balanced M 0 (h ::ₘ Q) X)
    (slot : e.heap.slot h = .live o) :
    (e.updateObject h Object.release).Balanced M {h} Q (↑o.payload.owned + X) := by
  have moved : ↑o.payload.owned + X + (e.updateObject h Object.release).references =
      X + e.references := by
    have heap := e.heap.references_update_live Object.release slot
    simp only [Object.release, Payload.owned_released, Multiset.coe_nil, add_zero] at heap
    rw [Engine.references, Engine.references, Engine.heap_updateObject, ← heap]
    simp only [Engine.anchors, Engine.updateObject]
    abel
  refine ⟨hb.sound.release slot, ?_, hb.blameless.updateObject subset_rfl⟩
  refine hb.owned.transfer ?_ Heap.size_update (congrArg (· + e.abandoned) moved) moved.le
  intro k
  rw [Engine.heap_updateObject, Heap.object?_update]
  split
  · cases e.heap.object? k <;> rfl
  · rfl

/-- An ended object whose header is parked already has nothing to dispose of. -/
theorem Heap.Sound.skip {H : Heap} (hs : H.Sound 0 (h ::ₘ Q)) (slot : H.slot h = .parked o) :
    H.Sound 0 Q where
  slots k := by
    have sound := hs.slots k
    by_cases same : k = h
    · subst k
      rw [slot] at sound ⊢
      exact sound
    · exact sound.mono id fun queued => (Multiset.mem_cons.1 queued).resolve_left same
  waiting k hk := hs.waiting k (by simpa using .inr (by simpa using hk))
  nodup := by
    have nodup := hs.nodup
    rw [zero_add, Multiset.nodup_cons] at nodup
    rw [zero_add]
    exact nodup.2

/-- Disposing of the object at the front of the queue. -/
theorem Engine.Balanced.dispose (hb : e.Balanced M 0 (h ::ₘ Q) X) :
    (e.dispose h).2.Balanced M 0 (↑(e.dispose h).1 + Q) X := by
  obtain ⟨o, found, zero⟩ := hb.sound.waiting h (by simp)
  have sound := hb.sound.slots h
  rcases Heap.object?_eq_some.1 found with slot | slot
  · rw [slot] at sound
    -- No disposal is under way between two steps of the cascade.
    have fresh : o.freed = false := by
      obtain ⟨-, ⟨fresh, -⟩ | ⟨-, ends, -⟩⟩ := sound
      · exact fresh
      · exact absurd ends (Multiset.notMem_zero h)
    have dropped : (((e.updateObject h Object.release).finalize h o).dropAll []
        o.payload.owned).2.Balanced M {h} _ X :=
      Engine.Balanced.dropAll ((zero_add Q).symm ▸ (hb.releasePayload slot).finalize h o)
    have retired := dropped.retire (Engine.slot_dropAll_released slot zero) o.size
    simp only [Engine.dispose, found, fresh, Bool.false_eq_true, if_false]
    exact retired
  · rw [slot] at sound
    obtain ⟨-, -, freed, -⟩ := sound
    simp only [Engine.dispose, found, freed, if_true, Multiset.coe_nil, zero_add]
    exact ⟨hb.sound.skip slot, hb.owned, hb.blameless⟩

theorem Engine.Balanced.drain {queue : List Handle} (hb : e.Balanced M 0 ↑queue X) :
    (e.drain queue).Settled M X := by
  fun_induction Engine.drain e queue with
  | case1 e => exact hb
  | case2 e h rest zeroed e' step ih =>
      rw [← Multiset.cons_coe] at hb
      have disposed := hb.dispose
      rw [step] at disposed
      apply ih
      -- The invariant reads the queue as a multiset, so the order does not matter.
      rw [enqueue_eq_append, ← Multiset.coe_add, add_comm]
      exact disposed

end

/-! ### Giving back -/

section

variable {e : Engine} {M : Finset Handle} {X : Multiset Handle} {h : Handle}

theorem Engine.Balanced.rested {B Q : Multiset Handle} (hb : e.Balanced M B Q X) : e.Rested :=
  Engine.rested_of_idle hb.blameless.idle

theorem Engine.Settled.releaseReference (hs : e.Settled M (h ::ₘ X)) :
    (e.releaseReference h).Settled M X := by
  have dropped := Engine.Balanced.dropReference hs
  rw [Engine.releaseReference_of_rested (Engine.Balanced.rested hs)]
  split <;> rename_i e' drop <;> rw [drop] at dropped
  · exact Engine.Balanced.drain dropped
  · exact dropped

theorem Engine.Settled.foldl_releaseReference {hs : List Handle} (hb : e.Settled M (↑hs + X)) :
    (hs.foldl Engine.releaseReference e).Settled M X := by
  induction hs generalizing e with
  | nil => simpa using hb
  | cons h rest ih =>
      rw [← Multiset.cons_coe, Multiset.cons_add] at hb
      exact ih hb.releaseReference

theorem Engine.Settled.release {v : Value} (hs : e.Settled M (v.refs + X)) :
    (e.release v).Settled M X := by
  cases v with
  | immediate w =>
      rw [Value.refs_immediate, zero_add] at hs
      exact hs
  | reference h => exact Engine.Settled.releaseReference hs

theorem Engine.Settled.releaseAll {vs : List Value} (hs : e.Settled M (refsOf vs + X)) :
    (e.releaseAll vs).Settled M X := by
  rw [Engine.releaseAll]
  induction vs generalizing e with
  | nil => simpa using hs
  | cons v rest ih =>
      rw [refsOf_cons, add_assoc] at hs
      exact ih hs.release

end

end CountedHeap
