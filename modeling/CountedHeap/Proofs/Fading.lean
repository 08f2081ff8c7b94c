import CountedHeap.Proofs.Tidy
import CountedHeap.Proofs.CleanShutdown

/-!
Giving back and collecting only take away. A count that moves goes down, an
object that is live afterwards was live before and, as long as it is counted, has
kept its payload, and one that is parked has nothing left. So what somebody still
owns when the references are given back and the garbage is gone is what it was.
-/

namespace CountedHeap

/-- What giving back and collecting may do to a slot. -/
inductive Slot.Fades : Slot → Slot → Prop
  | live {o o' : Object} (classId : o'.classId = o.classId) (adopted : o'.adopted = o.adopted)
      (count : o'.count ≤ o.count) (payload : 0 < o'.count → o'.payload = o.payload) :
      Fades (.live o) (.live o')
  | parks {o o' : Object} (classId : o'.classId = o.classId) (adopted : o'.adopted = o.adopted)
      (spent : o'.count ≤ 0) : Fades (.live o) (.parked o')
  | reclaims {o : Object} (unclaimed : o.adopted = false) : Fades (.live o) .reclaimed
  | parked {o o' : Object} (classId : o'.classId = o.classId) (adopted : o'.adopted = o.adopted)
      (count : o'.count ≤ o.count) : Fades (.parked o) (.parked o')
  | reclaimed : Fades .reclaimed .reclaimed

/-- What giving back and collecting may do to a heap. -/
structure Heap.Fades (H H' : Heap) : Prop where
  size : H'.slots.size = H.slots.size
  slots : ∀ k, (H.slot k).Fades (H'.slot k)

section

variable {H H' H'' : Heap} {e e' : Engine} {M : Finset Handle} {B Q X X' : Multiset Handle}
  {h k : Handle} {o : Object} {v : Value} {c : ContextId}

theorem Slot.Fades.refl (s : Slot) : s.Fades s := by
  cases s with
  | live o => exact .live rfl rfl (Int.le_refl _) fun _ => rfl
  | parked o => exact .parked rfl rfl (Int.le_refl _)
  | reclaimed => exact .reclaimed

theorem Slot.Fades.trans {s s' s'' : Slot} (first : s.Fades s') (later : s'.Fades s'') :
    s.Fades s'' := by
  cases first with
  | live classId adopted count payload =>
      cases later with
      | live classId' adopted' count' payload' =>
          refine .live (classId'.trans classId) (adopted'.trans adopted) (count'.trans count) ?_
          intro counted
          exact (payload' counted).trans (payload (counted.trans_le count'))
      | parks classId' adopted' spent =>
          exact .parks (classId'.trans classId) (adopted'.trans adopted) spent
      | reclaims unclaimed => exact .reclaims (adopted.symm.trans unclaimed)
  | parks classId adopted spent =>
      cases later with
      | parked classId' adopted' count =>
          exact .parks (classId'.trans classId) (adopted'.trans adopted) (count.trans spent)
  | reclaims unclaimed =>
      cases later with
      | reclaimed => exact .reclaims unclaimed
  | parked classId adopted count =>
      cases later with
      | parked classId' adopted' count' =>
          exact .parked (classId'.trans classId) (adopted'.trans adopted) (count'.trans count)
  | reclaimed => exact later

theorem Slot.fades_map {g : Object → Int} (lower : ∀ o, g o ≤ o.count) (s : Slot) :
    s.Fades (s.map fun o => { o with count := g o }) := by
  cases s with
  | live o => exact .live rfl rfl (lower o) fun _ => rfl
  | parked o => exact .parked rfl rfl (lower o)
  | reclaimed => exact .reclaimed

theorem Heap.Fades.refl (H : Heap) : H.Fades H :=
  ⟨rfl, fun _ => .refl _⟩

theorem Heap.Fades.trans (first : H.Fades H') (later : H'.Fades H'') : H.Fades H'' :=
  ⟨later.size.trans first.size, fun k => (first.slots k).trans (later.slots k)⟩

/-! ### Giving back -/

theorem Engine.fades_dropReference : e.heap.Fades (e.dropReference h).2.heap := by
  rw [Engine.dropReference]
  split
  · split
    · refine ⟨Heap.size_update, fun k => ?_⟩
      rw [Engine.heap_updateObject, Heap.slot_update]
      split
      · apply Slot.fades_map
        intro o
        omega
      · exact .refl _
    · exact .refl _
  · exact .refl _

/-- Disposing of an object takes it away when nobody counts on it any more. -/
theorem Engine.Balanced.fades_dispose (hb : e.Balanced M 0 (h ::ₘ Q) X) :
    e.heap.Fades (e.dispose h).2.heap := by
  have tidy : e.heap.Tidy := hb.sound.tidy
  obtain ⟨o, found, zero⟩ := hb.sound.waiting h (by simp)
  rcases Heap.object?_eq_some.1 found with slot | slot
  · obtain ⟨dropped, diagnostics, breaches, result⟩ := Engine.dispose_eq_of_live tidy slot
    rw [result]
    refine ⟨Heap.size_disposed dropped o.size o.adopted, fun k => ?_⟩
    rw [Heap.slot_disposed slot]
    by_cases same : k = h
    · subst k
      rw [if_pos rfl, slot]
      split
      · refine .parks rfl rfl ?_
        show o.count - dropped.count h ≤ 0
        omega
      · exact .reclaims (Bool.eq_false_iff.2 ‹_›)
    · rw [if_neg same]
      apply Slot.fades_map
      intro o
      omega
  · have gone : e.heap.isLive h = false := by
      rw [Heap.isLive, slot]
      rfl
    obtain ⟨breaches, result⟩ := Engine.dispose_eq_of_not_live tidy gone
    rw [result]
    exact .refl _

theorem Engine.Balanced.fades_drain {queue : List Handle} (hb : e.Balanced M 0 ↑queue X) :
    e.heap.Fades (e.drain queue).heap := by
  fun_induction Engine.drain e queue with
  | case1 e => exact .refl _
  | case2 e h rest zeroed e' step ih =>
      rw [← Multiset.cons_coe] at hb
      have fades := hb.fades_dispose
      have disposed := hb.dispose
      rw [step] at fades disposed
      refine fades.trans (ih ?_)
      rw [enqueue_eq_append, ← Multiset.coe_add, add_comm]
      exact disposed

theorem Engine.Settled.fades_releaseReference (hs : e.Settled M (h ::ₘ X)) :
    e.heap.Fades (e.releaseReference h).heap := by
  have fades : e.heap.Fades (e.dropReference h).2.heap := Engine.fades_dropReference
  have dropped := Engine.Balanced.dropReference hs
  rw [Engine.releaseReference_of_rested (Engine.Balanced.rested hs)]
  split <;> rename_i e' drop <;> rw [drop] at fades dropped
  · exact fades.trans (Engine.Balanced.fades_drain dropped)
  · exact fades

theorem Engine.Settled.fades_foldl_releaseReference {hs : List Handle}
    (hb : e.Settled M (↑hs + X)) : e.heap.Fades (hs.foldl Engine.releaseReference e).heap := by
  induction hs generalizing e with
  | nil => exact .refl _
  | cons h rest ih =>
      rw [← Multiset.cons_coe, Multiset.cons_add] at hb
      exact hb.fades_releaseReference.trans (ih hb.releaseReference)

theorem Engine.Settled.fades_release (hs : e.Settled M (v.refs + X)) :
    e.heap.Fades (e.release v).heap := by
  cases v with
  | immediate w => exact .refl _
  | reference h => exact Engine.Settled.fades_releaseReference hs

theorem Engine.Settled.fades_releaseAll {vs : List Value} (hs : e.Settled M (refsOf vs + X)) :
    e.heap.Fades (e.releaseAll vs).heap := by
  rw [Engine.releaseAll]
  induction vs generalizing e with
  | nil => exact .refl _
  | cons v rest ih =>
      rw [refsOf_cons, add_assoc] at hs
      exact hs.fades_release.trans (ih hs.release)

/-! ### Collecting -/

theorem Engine.fades_swept {S : Finset Handle} (clean : e.heap.Sound 0 0) :
    e.heap.Fades (e.swept S).heap := by
  refine ⟨Engine.size_swept, fun k => ?_⟩
  by_cases garbage : e.heap.isLive k = true ∧ k ∉ S
  · obtain ⟨o, slot⟩ := Heap.isLive_iff.1 garbage.1
    rw [Engine.slot_swept_of_garbage clean slot garbage.2, slot]
    split
    · exact .parks rfl rfl (Int.le_refl 0)
    · exact .reclaims (Bool.eq_false_iff.2 ‹_›)
  · rw [Engine.slot_swept_of_not_garbage clean garbage]
    exact .refl _

theorem Engine.Settled.fades_collect (hs : e.Settled M X) : e.heap.Fades e.collect.2.heap := by
  obtain ⟨S, hS, result⟩ := hs.collect_eq
  rw [result]
  exact (Engine.fades_swept hs.sound).trans (hs.swept hS).fades_foldl_releaseReference

/-! ### Closing contexts -/

theorem Engine.Settled.fades_releaseRegistered (hs : e.Settled M (v.refs + X)) :
    e.heap.Fades (e.releaseRegistered v).heap := by
  rw [Engine.releaseRegistered]
  split
  · exact hs.fades_release
  · rw [Engine.leaveBehind]
    split <;> exact .refl _

theorem Engine.Settled.fades_foldl_releaseRegistered {vs : List Value}
    (hs : e.Settled M (refsOf vs + X)) :
    e.heap.Fades (vs.foldl Engine.releaseRegistered e).heap := by
  induction vs generalizing e with
  | nil => exact .refl _
  | cons v rest ih =>
      rw [refsOf_cons, add_assoc] at hs
      exact hs.fades_releaseRegistered.trans (ih hs.releaseRegistered)

theorem Engine.Settled.fades_vacated {ctx : Context} (hs : e.Settled M X)
    (found : e.contexts[c.toNat]? = some ctx) (hopen : ctx.isOpen = true) :
    e.heap.Fades (e.vacated c ctx).heap := by
  have emptied := hs.emptied found hopen
  have registered := emptied.fades_foldl_releaseRegistered
  have global := emptied.foldl_releaseRegistered.fades_release
  have prototypes := emptied.foldl_releaseRegistered.release.fades_releaseAll
  exact (registered.trans global).trans prototypes

theorem Engine.Settled.fades_tearDown (hs : e.Settled M X) :
    e.heap.Fades (e.tearDown c).heap := by
  cases found : e.contexts[c.toNat]? with
  | none =>
      rw [Engine.tearDown, found]
      exact .refl _
  | some ctx =>
      by_cases hopen : ctx.isOpen = true
      · rw [Engine.tearDown_eq found hopen]
        exact hs.fades_vacated found hopen
      · rw [Engine.tearDown, found]
        simp only [hopen]
        exact .refl _

theorem Engine.Settled.fades_closeAll (hs : e.Settled M X) : e.heap.Fades e.closeAll.heap := by
  rw [Engine.closeAll]
  generalize e.openContexts = cs
  induction cs generalizing e with
  | nil => exact .refl _
  | cons c rest ih => exact hs.fades_tearDown.trans (ih hs.tearDown)

theorem Engine.Settled.fades_lastCollected (hs : e.Settled M X) :
    e.heap.Fades e.lastCollected.heap :=
  hs.fades_closeAll.trans hs.closeAll.fades_collect

/-! ### What somebody owns -/

/-- What is live and counted was so before, and is what it was. -/
theorem Slot.Fades.live_of_live {s : Slot} (fades : s.Fades (.live o)) (counted : 0 < o.count) :
    ∃ o', s = .live o' ∧ o.classId = o'.classId ∧ o.adopted = o'.adopted ∧
      o.payload = o'.payload := by
  cases fades with
  | live classId adopted _ payload => exact ⟨_, rfl, classId, adopted, payload counted⟩

/-- An object on which somebody still owns a reference stays what it was. -/
theorem Engine.Settled.live_of_fades (hs : e.Settled ∅ X) (owned : k ∈ X + e.references)
    (fades : (Slot.live o).Fades (e.heap.slot k)) :
    ∃ o', e.heap.slot k = .live o' ∧ o'.classId = o.classId ∧ o'.adopted = o.adopted ∧
      o'.payload = o.payload := by
  obtain ⟨o', found⟩ := hs.owned.named k owned
  have exact := hs.owned.exact k o' found (Finset.notMem_empty k)
  have counted : 0 < (X + e.references + e.abandoned).count k :=
    Multiset.count_pos.2 (Multiset.mem_add.2 (.inl owned))
  rcases Heap.object?_eq_some.1 found with slot | slot <;> rw [slot] at fades
  · cases fades with
    | live classId adopted count payload =>
        exact ⟨o', slot, classId, adopted, payload (by omega)⟩
  · cases fades with
    | parks classId adopted spent => omega

theorem Heap.Fades.live_of_mem (fades : e.heap.Fades e'.heap) (hs : e'.Settled ∅ X)
    (owned : k ∈ X + e'.references) (slot : e.heap.slot k = .live o) :
    ∃ o', e'.heap.slot k = .live o' ∧ o'.classId = o.classId ∧ o'.adopted = o.adopted ∧
      o'.payload = o.payload :=
  hs.live_of_fades owned (slot ▸ fades.slots k)

end

end CountedHeap
