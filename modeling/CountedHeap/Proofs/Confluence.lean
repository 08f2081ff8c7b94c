import CountedHeap.Proofs.Exhaustion
import CountedHeap.Proofs.Unwinding
import CountedHeap.Proofs.Rollback

/-!
Any order of giving back references leads to the same heap. Whatever the order, a
reference that is given back either belongs to the list that one began with or to the
payload of an object that has ended, and an object ends exactly when all that it counts
have been given back. So the number of references given back on each object describes
the whole state: its headers, the notes it has made, and what is left to do. When nothing
is left to do, the objects that have ended are the least exhausted set.
-/

namespace CountedHeap

/-- What has to be known of an engine before the references in `L` are given back:
whatever is referred to has a header, and an object that the host has not held counts all
references on it. -/
structure Engine.Solvent (e : Engine) (L : Multiset Handle) : Prop where
  sound : e.heap.Sound 0 0
  booked : e.heap.Booked 0
  named : ∀ h ∈ L + e.heap.references, ∃ o, e.heap.object? h = some o
  covered : ∀ h o, e.heap.object? h = some o → o.adopted = false →
    ((L + e.heap.references).count h : ℕ) ≤ o.count

/-- The references `G` have been given back so far. Together with those still owed they
are those in `L` and in the payloads that were taken; and the objects that wait or have
ended are those on which as many were given back as they counted. -/
structure Unwinding.Tallied (e : Engine) (L G : Multiset Handle) (u : Unwinding) : Prop where
  total : u.owed + G = L + e.heap.ownedIn u.ended
  nodup : (u.waiting + u.ended).Nodup
  spent : ∀ h ∈ u.waiting + u.ended, ∃ o, e.heap.object? h = some o ∧ 0 < o.count ∧
    o.count ≤ (G.count h : ℕ)
  reached : ∀ h o, e.heap.slot h = .live o → o.count ≤ (G.count h : ℕ) → h ∈ u.waiting + u.ended
  fallen : ∀ h ∈ u.ended, e.heap.isLive h = true
  needed : ∀ F, e.heap.Exhausts L F → ∀ h ∈ u.waiting + u.ended, e.heap.isLive h = true → h ∈ F

/-- The heap after the references `G` have been given back. An object that has not ended
has lost them from its count, and one that has ended has lost all that it counted. -/
structure Unwinding.Shaped (e : Engine) (G : Multiset Handle) (u : Unwinding) : Prop where
  size : u.engine.heap.slots.size = e.heap.slots.size
  kept : ∀ h, h ∉ u.ended →
    u.engine.heap.slot h = (e.heap.slot h).map fun o => o.lessen (G.count h)
  leaving : ∀ h o', (h, o') ∈ u.ending → ∃ o, e.heap.slot h = .live o ∧ o' = { o with count := 0 } ∧
    u.engine.heap.slot h = .live { o.release with count := 0 }
  left : ∀ h ∈ u.ended, h ∉ u.ending.map Prod.fst → ∀ o, e.heap.slot h = .live o →
    u.engine.heap.slot h =
      if o.adopted then .parked { o.release with count := 0 } else .reclaimed
  once : u.ending.map Prod.fst ≤ u.ended
  booked : u.engine.heap.Booked (u.ending.map fun entry => entry.2.payload.size).sum

/-- The finalizations that are due when some objects end. -/
def Engine.finalizationsIn (e : Engine) (F : Multiset Handle) : Multiset Finalization :=
  F.bind fun h => ((e.heap.header h).finalizations h e.finalizers : Multiset Finalization)

/-- What has been noted after the references `G` have been given back. Nothing but the
heap and the notes has changed. -/
structure Unwinding.Noted (e : Engine) (G : Multiset Handle) (u : Unwinding) : Prop where
  diagnostics : (u.engine.diagnostics.toList : Multiset Diagnostic) =
    e.heap.surplus G + ↑e.diagnostics.toList
  finalized : (u.engine.finalized.toList : Multiset Finalization) =
    e.finalizationsIn u.ended + ↑e.finalized.toList
  rest : ∃ heap diagnostics finalized, u.engine =
    { e with heap := heap, diagnostics := diagnostics, finalized := finalized }

/-- The state `u` has come about by giving back the references `G`, out of those in `L`
and all that followed from them. -/
structure Unwinding.Follows (e : Engine) (L G : Multiset Handle) (u : Unwinding) : Prop where
  tallied : u.Tallied e L G
  shaped : u.Shaped e G
  noted : u.Noted e G

/-- The engine after all references in `L` have been given back, and all that followed from
them, where `F` are the objects that have ended. -/
structure Engine.Unwound (e : Engine) (L : Multiset Handle) (F : Finset Handle) (e' : Engine) :
    Prop where
  size : e'.heap.slots.size = e.heap.slots.size
  gone : ∀ h ∈ F, ∀ o, e.heap.slot h = .live o → e'.heap.slot h =
    if o.adopted then .parked { o.release with count := 0 } else .reclaimed
  kept : ∀ h ∉ F, e'.heap.slot h =
    (e.heap.slot h).map fun o => o.lessen ((L + e.heap.ownedIn F.val).count h)
  booked : e'.heap.Booked 0
  diagnostics : (e'.diagnostics.toList : Multiset Diagnostic) =
    e.heap.surplus (L + e.heap.ownedIn F.val) + ↑e.diagnostics.toList
  finalized : (e'.finalized.toList : Multiset Finalization) =
    e.finalizationsIn F.val + ↑e.finalized.toList
  rest : ∃ heap diagnostics finalized, e' =
    { e with heap := heap, diagnostics := diagnostics, finalized := finalized }

/-- The same engine, but for the order in which it has made its notes. -/
def Engine.Reordered (e e' : Engine) : Prop :=
  ∃ diagnostics finalized, diagnostics.toList.Perm e.diagnostics.toList ∧
    finalized.toList.Perm e.finalized.toList ∧
      e' = { e with diagnostics := diagnostics, finalized := finalized }

section

variable {e : Engine} {L G : Multiset Handle} {u v : Unwinding} {h k : Handle} {o : Object}

/-! ### What is owed has a header -/

theorem Unwinding.Tallied.ended_nodup (tallied : u.Tallied e L G) : u.ended.Nodup :=
  (Multiset.nodup_add.1 tallied.nodup).2.1

theorem Unwinding.Tallied.notMem_ended (tallied : u.Tallied e L G) (waits : h ∈ u.waiting) :
    h ∉ u.ended :=
  Multiset.disjoint_left.1 (Multiset.nodup_add.1 tallied.nodup).2.2 waits

/-- No more references are given back than there were. -/
theorem Unwinding.Tallied.le_references (tallied : u.Tallied e L G) :
    u.owed + G ≤ L + e.heap.references :=
  tallied.total ▸ add_le_add_right (Heap.ownedIn_le_references tallied.ended_nodup) L

theorem Unwinding.Follows.header_of_owed (follows : u.Follows e L G) (solvent : e.Solvent L)
    (due : h ∈ u.owed) : ∃ o, e.heap.object? h = some o := by
  refine solvent.named h (Multiset.mem_of_le follows.tallied.le_references ?_)
  exact Multiset.mem_add.2 (.inl due)

/-- The header of an object that has not ended. -/
theorem Unwinding.Shaped.object?_of_kept (shaped : u.Shaped e G)
    (found : e.heap.object? h = some o) (kept : h ∉ u.ended) :
    u.engine.heap.object? h = some (o.lessen (G.count h)) := by
  rw [Heap.object?, shaped.kept h kept]
  rcases Heap.object?_eq_some.1 found with slot | slot <;> rw [slot] <;> rfl

/-- An object that has ended and is still owed has been held by the host, so its header is
there, with no count. -/
theorem Unwinding.Follows.object?_of_ended (follows : u.Follows e L G) (solvent : e.Solvent L)
    (due : h ∈ u.owed) (ended : h ∈ u.ended) (slot : e.heap.slot h = .live o) :
    u.engine.heap.object? h = some { o.release with count := 0 } := by
  have found : e.heap.object? h = some o := Heap.object?_of_live slot
  by_cases leaving : h ∈ u.ending.map Prod.fst
  · obtain ⟨⟨k, o'⟩, mem, rfl⟩ := Multiset.mem_map.1 leaving
    obtain ⟨o₁, slot₁, -, after⟩ := follows.shaped.leaving k o' mem
    obtain rfl := Slot.live.inj (slot.symm.trans slot₁)
    exact Heap.object?_of_live after
  · have after := follows.shaped.left h ended leaving o slot
    have adopted : o.adopted = true := by
      by_contra unheld
      rw [Bool.not_eq_true] at unheld
      have covered := solvent.covered h o found unheld
      have le := Multiset.count_le_of_le h follows.tallied.le_references
      obtain ⟨o₁, found₁, -, spent⟩ :=
        follows.tallied.spent h (Multiset.mem_add.2 (.inr ended))
      obtain rfl := Option.some.inj (found.symm.trans found₁)
      have owed := Multiset.count_pos.2 due
      rw [Multiset.count_add] at le
      omega
    rw [if_pos adopted] at after
    rw [Heap.object?, after]
    rfl

/-! ### One reference is given back -/

/-- A reference on an object that counts it is taken off, and the last one makes the object
wait. -/
theorem Unwinding.Follows.dropReference_of_lt (follows : u.Follows e L G)
    (found : e.heap.object? h = some o) (more : (G.count h : Int) < o.count) :
    h ∉ u.waiting + u.ended ∧ u.engine.dropReference h =
      (decide (o.count = (G.count h : ℕ) + 1),
        u.engine.updateObject h fun o => { o with count := o.count - 1 }) := by
  have fresh : h ∉ u.waiting + u.ended := by
    intro mem
    obtain ⟨o₁, found₁, -, spent⟩ := follows.tallied.spent h mem
    obtain rfl := Option.some.inj (found.symm.trans found₁)
    omega
  have kept : h ∉ u.ended := fun mem => fresh (Multiset.mem_add.2 (.inr mem))
  refine ⟨fresh, ?_⟩
  rw [Engine.dropReference, follows.shaped.object?_of_kept found kept]
  simp only [Object.count_lessen_pos.2 more, if_true]
  congr 1
  rw [Bool.eq_iff_iff, beq_iff_eq, decide_eq_true_eq, Object.count_lessen_eq_one]

/-- A reference that the object does not count is noted. -/
theorem Unwinding.Follows.dropReference_of_le (follows : u.Follows e L G) (solvent : e.Solvent L)
    (due : h ∈ u.owed) (found : e.heap.object? h = some o) (spent : o.count ≤ (G.count h : ℕ)) :
    u.engine.dropReference h =
      (false, u.engine.record (.surplusRelease h { o with count := min o.count 0 })) := by
  by_cases ended : h ∈ u.ended
  · obtain ⟨o₁, slot⟩ := Heap.isLive_iff.1 (follows.tallied.fallen h ended)
    obtain rfl := Option.some.inj (found.symm.trans (Heap.object?_of_live slot))
    have positive := (solvent.sound.live slot).2.2
    rw [Engine.dropReference, follows.object?_of_ended solvent due ended slot]
    have zero : min o.count 0 = 0 := by omega
    rw [zero]
    rfl
  · have count := Object.count_lessen_of_le spent
    have note : Diagnostic.surplusRelease h (o.lessen (G.count h)) =
        .surplusRelease h { o with count := min o.count 0 } := by
      rw [Diagnostic.surplusRelease, Diagnostic.surplusRelease, count]
      rfl
    have none : ¬ 0 < (o.lessen (G.count h)).count := by omega
    rw [Engine.dropReference, follows.shaped.object?_of_kept found ended, ← note]
    simp only [none, if_false]

theorem Unwinding.Tallied.give_of_lt (tallied : u.Tallied e L G) {owed : Multiset Handle}
    (due : u.owed = h ::ₘ owed) (found : e.heap.object? h = some o)
    (more : (G.count h : Int) < o.count) (fresh : h ∉ u.waiting + u.ended)
    (engine : Engine) : Unwinding.Tallied e L (h ::ₘ G) { u with
      engine := engine
      owed := owed
      waiting := (if o.count = (G.count h : ℕ) + 1 then {h} else 0) + u.waiting } where
  total := by
    rw [← tallied.total, due, Multiset.add_cons, Multiset.cons_add]
  nodup := by
    split
    · rw [Multiset.singleton_add, Multiset.cons_add, Multiset.nodup_cons]
      exact ⟨fresh, tallied.nodup⟩
    · rw [zero_add]
      exact tallied.nodup
  spent k mem := by
    by_cases same : k = h
    · subst k
      split at mem
      · refine ⟨o, found, by omega, ?_⟩
        rw [Multiset.count_cons_self]
        omega
      · rw [zero_add] at mem
        exact absurd mem fresh
    · have old : k ∈ u.waiting + u.ended := by
        split at mem
        · rw [Multiset.singleton_add, Multiset.cons_add, Multiset.mem_cons] at mem
          exact mem.resolve_left same
        · rwa [zero_add] at mem
      rw [Multiset.count_cons_of_ne same]
      exact tallied.spent k old
  reached k o₁ slot spent := by
    rw [add_assoc, Multiset.mem_add]
    by_cases same : k = h
    · subst k
      obtain rfl := Option.some.inj (found.symm.trans (Heap.object?_of_live slot))
      rw [Multiset.count_cons_self] at spent
      rw [if_pos (by omega)]
      exact .inl (Multiset.mem_singleton_self h)
    · rw [Multiset.count_cons_of_ne same] at spent
      exact .inr (tallied.reached k o₁ slot spent)
  fallen := tallied.fallen
  needed F closed k mem live := by
    rw [add_assoc, Multiset.mem_add] at mem
    rcases mem with new | old
    · split at new
      · rename_i last
        obtain rfl := Multiset.mem_singleton.1 new
        obtain ⟨o₁, slot⟩ := Heap.isLive_iff.1 live
        obtain rfl := Option.some.inj (found.symm.trans (Heap.object?_of_live slot))
        -- All that it counts came from the list and from objects that are in `F`.
        have sub : u.ended ≤ F.val := (Multiset.le_iff_subset tallied.ended_nodup).2 fun j hj =>
          tallied.needed F closed j (Multiset.mem_add.2 (.inr hj)) (tallied.fallen j hj)
        have le : u.owed + G ≤ L + e.heap.ownedIn F.val :=
          tallied.total ▸ add_le_add_right (Heap.ownedIn_le sub) L
        have counted := Multiset.count_le_of_le k le
        rw [due, Multiset.count_add, Multiset.count_cons_self] at counted
        exact closed k o slot (by omega)
      · exact absurd new (Multiset.notMem_zero k)
    · exact tallied.needed F closed k old live

theorem Unwinding.Tallied.give_of_le (tallied : u.Tallied e L G) {owed : Multiset Handle}
    (due : u.owed = h ::ₘ owed) (found : e.heap.object? h = some o)
    (spent : o.count ≤ (G.count h : ℕ)) (engine : Engine) : Unwinding.Tallied e L (h ::ₘ G)
      { u with engine := engine, owed := owed } where
  total := by
    rw [← tallied.total, due, Multiset.add_cons, Multiset.cons_add]
  nodup := tallied.nodup
  spent k mem := by
    obtain ⟨o₁, found₁, counted, enough⟩ := tallied.spent k mem
    have more := Multiset.count_le_count_cons k h G
    exact ⟨o₁, found₁, counted, by omega⟩
  reached k o₁ slot enough := by
    by_cases same : k = h
    · subst k
      obtain rfl := Option.some.inj (found.symm.trans (Heap.object?_of_live slot))
      exact tallied.reached h o slot spent
    · rw [Multiset.count_cons_of_ne same] at enough
      exact tallied.reached k o₁ slot enough
  fallen := tallied.fallen
  needed := tallied.needed

theorem Unwinding.Shaped.give_of_lt (shaped : u.Shaped e G) (found : e.heap.object? h = some o)
    (more : (G.count h : Int) < o.count) (kept : h ∉ u.ended) (owed waiting : Multiset Handle) :
    Unwinding.Shaped e (h ::ₘ G) { u with
      engine := u.engine.updateObject h fun o => { o with count := o.count - 1 }
      owed := owed
      waiting := waiting } := by
  have others (k : Handle) (mem : k ∈ u.ended) :
      (u.engine.updateObject h fun o => { o with count := o.count - 1 }).heap.slot k =
        u.engine.heap.slot k := by
    rw [Engine.heap_updateObject, Heap.slot_update, if_neg (ne_of_mem_of_not_mem mem kept)]
  refine ⟨?_, ?_, ?_, ?_, shaped.once, ?_⟩
  · rw [Engine.heap_updateObject, Heap.size_update]
    exact shaped.size
  · intro k hk
    rw [Engine.heap_updateObject, Heap.slot_update, shaped.kept k hk]
    by_cases same : k = h
    · subst k
      rw [if_pos rfl, Multiset.count_cons_self]
      rcases Heap.object?_eq_some.1 found with slot | slot
      · rw [slot]
        exact congrArg Slot.live (Object.lessen_succ_of_lt more)
      · rw [slot]
        exact congrArg Slot.parked (Object.lessen_succ_of_lt more)
    · rw [if_neg same, Multiset.count_cons_of_ne same]
  · intro k o' mem
    obtain ⟨o₁, slot, begun, after⟩ := shaped.leaving k o' mem
    have ended := Multiset.mem_of_le shaped.once (Multiset.mem_map_of_mem Prod.fst mem)
    exact ⟨o₁, slot, begun, (others k ended).trans after⟩
  · intro k ended gone o₁ slot
    exact (others k ended).trans (shaped.left k ended gone o₁ slot)
  · exact shaped.booked.update fun _ => rfl

theorem Unwinding.Shaped.give_of_le (shaped : u.Shaped e G) (found : e.heap.object? h = some o)
    (spent : o.count ≤ (G.count h : ℕ)) (d : Diagnostic) (owed : Multiset Handle) :
    Unwinding.Shaped e (h ::ₘ G) { u with engine := u.engine.record d, owed := owed } := by
  refine ⟨shaped.size, ?_, shaped.leaving, shaped.left, shaped.once, shaped.booked⟩
  intro k hk
  show u.engine.heap.slot k = _
  rw [shaped.kept k hk]
  by_cases same : k = h
  · subst k
    rw [Multiset.count_cons_self]
    rcases Heap.object?_eq_some.1 found with slot | slot
    · rw [slot]
      exact congrArg Slot.live (Object.lessen_succ_of_le spent).symm
    · rw [slot]
      exact congrArg Slot.parked (Object.lessen_succ_of_le spent).symm
  · rw [Multiset.count_cons_of_ne same]

theorem Unwinding.Follows.give (follows : u.Follows e L G) (solvent : e.Solvent L)
    {owed : Multiset Handle} (due : u.owed = h ::ₘ owed) :
    Unwinding.Follows e L (h ::ₘ G) { u with
      engine := (u.engine.dropReference h).2
      owed := owed
      waiting := (if (u.engine.dropReference h).1 then {h} else 0) + u.waiting } := by
  have mem : h ∈ u.owed := due ▸ Multiset.mem_cons_self h owed
  obtain ⟨o, found⟩ := follows.header_of_owed solvent mem
  by_cases more : (G.count h : Int) < o.count
  · obtain ⟨fresh, dropped⟩ := follows.dropReference_of_lt found more
    have kept : h ∉ u.ended := fun ended => fresh (Multiset.mem_add.2 (.inr ended))
    rw [dropped]
    simp only [decide_eq_true_eq]
    refine ⟨follows.tallied.give_of_lt due found more fresh _,
      follows.shaped.give_of_lt found more kept _ _, ?_, follows.noted.finalized, ?_⟩
    · rw [Heap.surplus_cons found, if_neg (Int.not_le.2 more), zero_add]
      exact follows.noted.diagnostics
    · obtain ⟨heap, diagnostics, finalized, same⟩ := follows.noted.rest
      exact ⟨_, diagnostics, finalized, by rw [same]; rfl⟩
  · have spent : o.count ≤ (G.count h : ℕ) := by omega
    have dropped := follows.dropReference_of_le solvent mem found spent
    rw [dropped]
    simp only [Bool.false_eq_true, if_false, zero_add]
    refine ⟨follows.tallied.give_of_le due found spent _,
      follows.shaped.give_of_le found spent _ _, ?_, follows.noted.finalized, ?_⟩
    · rw [Heap.surplus_cons found, if_pos spent, add_assoc, ← follows.noted.diagnostics,
        Multiset.singleton_add, Multiset.cons_coe, Multiset.coe_eq_coe]
      show (u.engine.diagnostics.push _).toList.Perm _
      rw [Array.toList_push]
      exact List.perm_append_singleton _ _
    · obtain ⟨heap, diagnostics, finalized, same⟩ := follows.noted.rest
      exact ⟨heap, _, finalized, by rw [same]; rfl⟩

/-! ### The end of an object -/

/-- An object that waits has a header, which has no count left. -/
theorem Unwinding.Follows.object?_of_waiting (follows : u.Follows e L G) (waits : h ∈ u.waiting) :
    ∃ o, e.heap.object? h = some o ∧ u.engine.heap.object? h = some { o with count := 0 } := by
  obtain ⟨o, found, counted, spent⟩ := follows.tallied.spent h (Multiset.mem_add.2 (.inl waits))
  have kept := follows.tallied.notMem_ended waits
  refine ⟨o, found, ?_⟩
  rw [follows.shaped.object?_of_kept found kept, Object.lessen_of_spent counted spent]

/-- An object that waits and has its payload is live. -/
theorem Unwinding.Follows.live_of_waiting (follows : u.Follows e L G) (solvent : e.Solvent L)
    (waits : h ∈ u.waiting) {o' : Object} (found : u.engine.heap.object? h = some o')
    (fresh : o'.freed = false) : ∃ o, e.heap.slot h = .live o ∧ o' = { o with count := 0 } ∧
      u.engine.heap.slot h = .live o' := by
  obtain ⟨o, before, after⟩ := follows.object?_of_waiting waits
  obtain rfl := Option.some.inj (found.symm.trans after)
  rcases Heap.object?_eq_some.1 before with slot | slot
  · refine ⟨o, slot, rfl, ?_⟩
    rcases Heap.object?_eq_some.1 after with slot' | slot'
    · exact slot'
    · rw [follows.shaped.kept h (follows.tallied.notMem_ended waits), slot] at slot'
      cases slot'
  · have freed : o.freed = true := (solvent.sound.parked slot).2.2.1
    exact absurd (fresh.symm.trans freed) Bool.false_ne_true

theorem Unwinding.Tallied.take (tallied : u.Tallied e L G) {waiting : Multiset Handle}
    (next : u.waiting = h ::ₘ waiting) (slot : e.heap.slot h = .live o) (engine : Engine)
    (ending : Multiset (Handle × Object)) :
    Unwinding.Tallied e L G
      ⟨engine, ↑o.payload.owned + u.owed, waiting, ending, h ::ₘ u.ended⟩ := by
  have moved : waiting + h ::ₘ u.ended = u.waiting + u.ended := by
    rw [next, Multiset.add_cons, Multiset.cons_add]
  refine ⟨?_, ?_, ?_, ?_, ?_, ?_⟩
  · rw [Heap.ownedIn_cons, Heap.ownedBy_of_live slot, add_assoc, tallied.total]
    abel
  · rw [moved]
    exact tallied.nodup
  · rw [moved]
    exact tallied.spent
  · rw [moved]
    exact tallied.reached
  · intro k mem
    rcases Multiset.mem_cons.1 mem with rfl | old
    · exact Heap.isLive_iff.2 ⟨o, slot⟩
    · exact tallied.fallen k old
  · rw [moved]
    exact tallied.needed

theorem Unwinding.Shaped.take (shaped : u.Shaped e G) {o' : Object} (kept : h ∉ u.ended)
    (slot : e.heap.slot h = .live o) (begun : o' = { o with count := 0 })
    (after : u.engine.heap.slot h = .live o') (owed waiting : Multiset Handle) :
    Unwinding.Shaped e G ⟨(u.engine.updateObject h Object.release).finalize h o', owed, waiting,
      (h, o') ::ₘ u.ending, h ::ₘ u.ended⟩ := by
  have slots (k : Handle) : ((u.engine.updateObject h Object.release).finalize h o').heap.slot k =
      if k = h then (u.engine.heap.slot k).map Object.release else u.engine.heap.slot k := by
    rw [Engine.heap_finalize, Engine.heap_updateObject, Heap.slot_update]
  refine ⟨?_, ?_, ?_, ?_, ?_, ?_⟩
  · rw [Engine.heap_finalize, Engine.heap_updateObject, Heap.size_update]
    exact shaped.size
  · intro k hk
    rw [Multiset.mem_cons, not_or] at hk
    rw [slots, if_neg hk.1]
    exact shaped.kept k hk.2
  · intro k o₁ mem
    rw [slots]
    rcases Multiset.mem_cons.1 mem with new | old
    · obtain ⟨rfl, rfl⟩ := Prod.mk.inj new
      refine ⟨o, slot, begun, ?_⟩
      rw [if_pos rfl, after, begun]
      rfl
    · have ended := Multiset.mem_of_le shaped.once (Multiset.mem_map_of_mem Prod.fst old)
      rw [if_neg (ne_of_mem_of_not_mem ended kept)]
      exact shaped.leaving k o₁ old
  · intro k ended gone o₁ slot₁
    rw [Multiset.map_cons, Multiset.mem_cons, not_or] at gone
    rw [slots, if_neg gone.1]
    exact shaped.left k ((Multiset.mem_cons.1 ended).resolve_left gone.1) gone.2 o₁ slot₁
  · rw [Multiset.map_cons]
    exact Multiset.cons_le_cons h shaped.once
  · rw [Engine.heap_finalize, Multiset.map_cons, Multiset.sum_cons, add_comm]
    exact shaped.booked.release after rfl

theorem Unwinding.Follows.take (follows : u.Follows e L G) (solvent : e.Solvent L)
    {waiting : Multiset Handle} {o' : Object} (next : u.waiting = h ::ₘ waiting)
    (found : u.engine.heap.object? h = some o') (fresh : o'.freed = false) :
    Unwinding.Follows e L G ⟨(u.engine.updateObject h Object.release).finalize h o',
      ↑o'.payload.owned + u.owed, waiting, (h, o') ::ₘ u.ending, h ::ₘ u.ended⟩ := by
  have waits : h ∈ u.waiting := next ▸ Multiset.mem_cons_self h waiting
  obtain ⟨o, slot, begun, after⟩ := follows.live_of_waiting solvent waits found fresh
  have kept := follows.tallied.notMem_ended waits
  have owned : o'.payload.owned = o.payload.owned := by rw [begun]
  obtain ⟨heap, diagnostics, finalized, same⟩ := follows.noted.rest
  obtain ⟨finalized', noted⟩ := (u.engine.updateObject h Object.release).finalize_eq h o'
  refine ⟨owned ▸ follows.tallied.take next slot _ _, follows.shaped.take kept slot begun after _ _,
    ?_, ?_, ?_⟩
  · rw [noted]
    exact follows.noted.diagnostics
  · have finalizers : (u.engine.updateObject h Object.release).finalizers = e.finalizers := by
      rw [same]
      rfl
    rw [Engine.finalized_finalize, finalizers, begun, Engine.finalizationsIn, Multiset.cons_bind,
      Heap.header_of_object? (Heap.object?_of_live slot), add_assoc, ← Engine.finalizationsIn,
      ← follows.noted.finalized, add_comm, ← Multiset.coe_add]
    rfl
  · exact ⟨_, diagnostics, finalized', by rw [noted, same]; rfl⟩

/-- An object that is past its end already was not live. -/
theorem Unwinding.Follows.pass (follows : u.Follows e L G) (solvent : e.Solvent L)
    {waiting : Multiset Handle} {o' : Object} (next : u.waiting = h ::ₘ waiting)
    (found : u.engine.heap.object? h = some o') (freed : o'.freed = true) :
    Unwinding.Follows e L G { u with waiting := waiting } := by
  have waits : h ∈ u.waiting := next ▸ Multiset.mem_cons_self h waiting
  obtain ⟨o, before, after⟩ := follows.object?_of_waiting waits
  obtain rfl := Option.some.inj (found.symm.trans after)
  have fewer : waiting + u.ended ≤ u.waiting + u.ended := by
    rw [next, Multiset.cons_add]
    exact Multiset.le_cons_self _ h
  refine ⟨⟨follows.tallied.total, Multiset.nodup_of_le fewer follows.tallied.nodup, ?_, ?_,
    follows.tallied.fallen, ?_⟩, ⟨follows.shaped.size, follows.shaped.kept, follows.shaped.leaving,
      follows.shaped.left, follows.shaped.once, follows.shaped.booked⟩,
        ⟨follows.noted.diagnostics, follows.noted.finalized, follows.noted.rest⟩⟩
  · exact fun k mem => follows.tallied.spent k (Multiset.mem_of_le fewer mem)
  · intro k o₁ slot spent
    have old := follows.tallied.reached k o₁ slot spent
    rw [next, Multiset.cons_add, Multiset.mem_cons] at old
    refine old.resolve_left ?_
    rintro rfl
    obtain rfl := Option.some.inj (before.symm.trans (Heap.object?_of_live slot))
    cases freed.symm.trans (solvent.sound.live slot).2.1
  · exact fun F closed k mem => follows.tallied.needed F closed k (Multiset.mem_of_le fewer mem)

theorem Unwinding.Follows.leave (follows : u.Follows e L G) {o' : Object}
    {ending : Multiset (Handle × Object)} (last : u.ending = (h, o') ::ₘ ending) :
    Unwinding.Follows e L G
      { u with engine := u.engine.retire h o'.size o'.adopted, ending := ending } := by
  have mem : (h, o') ∈ u.ending := last ▸ Multiset.mem_cons_self _ ending
  obtain ⟨o, slot, begun, after⟩ := follows.shaped.leaving h o' mem
  have once : h ::ₘ ending.map Prod.fst ≤ u.ended := by
    have all := follows.shaped.once
    rwa [last, Multiset.map_cons] at all
  have gone : h ∉ ending.map Prod.fst :=
    (Multiset.nodup_cons.1 (Multiset.nodup_of_le once follows.tallied.ended_nodup)).1
  have ended : h ∈ u.ended := Multiset.mem_of_le once (Multiset.mem_cons_self h _)
  obtain ⟨heap, diagnostics, finalized, same⟩ := follows.noted.rest
  refine ⟨⟨follows.tallied.total, follows.tallied.nodup, follows.tallied.spent,
    follows.tallied.reached, follows.tallied.fallen, follows.tallied.needed⟩, ?_,
      ⟨follows.noted.diagnostics, follows.noted.finalized, _, diagnostics, finalized, by
        rw [same]; rfl⟩⟩
  refine ⟨?_, ?_, ?_, ?_, (Multiset.le_cons_self _ h).trans once, ?_⟩
  · rw [Engine.heap_retire, Heap.size_retire]
    exact follows.shaped.size
  · intro k hk
    rw [Engine.heap_retire, Heap.slot_retire, if_neg (ne_of_mem_of_not_mem ended hk).symm]
    exact follows.shaped.kept k hk
  · intro k o₁ old
    have differ : k ≠ h := by
      rintro rfl
      exact gone (Multiset.mem_map_of_mem Prod.fst old)
    rw [Engine.heap_retire, Heap.slot_retire, if_neg differ]
    exact follows.shaped.leaving k o₁ (last ▸ Multiset.mem_cons_of_mem old)
  · intro k hk left o₁ slot₁
    rw [Engine.heap_retire, Heap.slot_retire]
    by_cases same : k = h
    · subst k
      obtain rfl := Slot.live.inj (slot.symm.trans slot₁)
      rw [if_pos rfl, after, begun]
      rfl
    · rw [if_neg same]
      refine follows.shaped.left k hk ?_ o₁ slot₁
      rw [last, Multiset.map_cons, Multiset.mem_cons, not_or]
      exact ⟨same, left⟩
  · have booked := follows.shaped.booked
    rw [last, Multiset.map_cons, Multiset.sum_cons, add_comm] at booked
    exact booked.retire after rfl o'.adopted

/-! ### Every step, and every run -/

theorem Unwinding.Follows.step (follows : u.Follows e L G) (solvent : e.Solvent L)
    (step : u.Step v) : ∃ G', v.Follows e L G' := by
  cases step with
  | give due => exact ⟨_, follows.give solvent due⟩
  | take next found fresh => exact ⟨G, follows.take solvent next found fresh⟩
  | pass next found freed => exact ⟨G, follows.pass solvent next found freed⟩
  | @miss h waiting next gone =>
      obtain ⟨o, -, found⟩ :=
        follows.object?_of_waiting (h := h) (next ▸ Multiset.mem_cons_self h _)
      rw [gone] at found
      cases found
  | leave last => exact ⟨G, follows.leave last⟩

theorem Unwinding.Follows.run (follows : u.Follows e L G) (solvent : e.Solvent L)
    (run : u.Run v) : ∃ G', v.Follows e L G' := by
  induction run with
  | refl => exact ⟨G, follows⟩
  | tail _ step ih =>
      obtain ⟨G', follows'⟩ := ih
      exact follows'.step solvent step

/-- Before anything is given back. -/
theorem Engine.Solvent.follows (solvent : e.Solvent L) :
    Unwinding.Follows e L 0 ⟨e, L, 0, 0, 0⟩ := by
  refine ⟨⟨rfl, Multiset.nodup_zero, nofun, ?_, nofun, nofun⟩,
    ⟨rfl, ?_, nofun, nofun, Multiset.zero_le _, solvent.booked⟩, ⟨?_, ?_, _, _, _, rfl⟩⟩
  · intro k o slot none
    have positive := (solvent.sound.live slot).2.2
    rw [Multiset.count_zero] at none
    omega
  · intro k _
    rw [Multiset.count_zero]
    cases e.heap.slot k <;> simp [Slot.map]
  · exact (zero_add _).symm
  · exact (zero_add _).symm

/-! ### Every run comes to an end -/

/-- What is left to do. A reference that is owed may make an object wait, and an object that
waits has its header still to be taken off. -/
def Unwinding.effort (u : Unwinding) : Nat :=
  3 * (u.owed.card + u.engine.heap.references.card) + 2 * u.waiting.card + u.ending.card

theorem Unwinding.Follows.effort_lt (follows : u.Follows e L G) (solvent : e.Solvent L)
    (step : u.Step v) : v.effort < u.effort := by
  cases step with
  | @give h owed due =>
      have heap : (u.engine.dropReference h).2.heap.references = u.engine.heap.references := by
        rw [Engine.dropReference]
        split
        · split
          · exact Heap.references_update _ h fun _ => rfl
          · rfl
        · rfl
      have waiting :
          (if (u.engine.dropReference h).1 then {h} else 0 : Multiset Handle).card ≤ 1 := by
        split <;> simp
      simp only [Unwinding.effort, heap, due, Multiset.card_add, Multiset.card_cons]
      omega
  | @take h o' waiting next found fresh =>
      have waits : h ∈ u.waiting := next ▸ Multiset.mem_cons_self h waiting
      obtain ⟨-, -, -, after⟩ := follows.live_of_waiting solvent waits found fresh
      have moved :=
        congrArg Multiset.card (u.engine.heap.references_update_live Object.release after)
      simp only [Object.release, Payload.owned_released, Multiset.coe_nil, add_zero,
        Multiset.card_add] at moved
      simp only [Unwinding.effort, Engine.heap_finalize, Engine.heap_updateObject, next,
        Multiset.card_add, Multiset.card_cons]
      omega
  | pass next found freed =>
      simp only [Unwinding.effort, next, Multiset.card_cons]
      omega
  | @miss h waiting next gone =>
      simp only [Unwinding.effort, next, Multiset.card_cons, Engine.heap_stray]
      omega
  | @leave h o' ending last =>
      have mem : (h, o') ∈ u.ending := last ▸ Multiset.mem_cons_self _ ending
      obtain ⟨o, -, -, after⟩ := follows.shaped.leaving h o' mem
      have heap : (u.engine.retire h o'.size o'.adopted).heap.references =
          u.engine.heap.references := by
        refine Heap.references_retire _ h _ _ ?_
        rw [after]
        rfl
      simp only [Unwinding.effort, heap, last, Multiset.card_cons]
      omega

/-- No run goes on forever. -/
theorem Unwinding.Follows.acc (follows : u.Follows e L G) (solvent : e.Solvent L) :
    Acc (fun w v => Unwinding.Step v w) u := by
  induction effort : u.effort using Nat.strong_induction_on generalizing u G with
  | _ n ih =>
      refine Acc.intro u fun v step => ?_
      obtain ⟨G', follows'⟩ := follows.step solvent step
      exact ih _ (effort ▸ follows.effort_lt solvent step) follows' rfl

/-- As long as something is left to do, some step is possible. -/
theorem Unwinding.done_or_step (u : Unwinding) : u.Done ∨ ∃ v, u.Step v := by
  rcases Multiset.empty_or_exists_mem u.owed with owed | ⟨h, mem⟩
  · rcases Multiset.empty_or_exists_mem u.waiting with waiting | ⟨h, mem⟩
    · rcases Multiset.empty_or_exists_mem u.ending with ending | ⟨⟨h, o⟩, mem⟩
      · exact .inl ⟨owed, waiting, ending⟩
      · obtain ⟨ending, last⟩ := Multiset.exists_cons_of_mem mem
        exact .inr ⟨_, .leave last⟩
    · obtain ⟨waiting, next⟩ := Multiset.exists_cons_of_mem mem
      cases found : u.engine.heap.object? h with
      | none => exact .inr ⟨_, .miss next found⟩
      | some o =>
          cases freed : o.freed with
          | true => exact .inr ⟨_, .pass next found freed⟩
          | false => exact .inr ⟨_, .take next found freed⟩
  · obtain ⟨owed, due⟩ := Multiset.exists_cons_of_mem mem
    exact .inr ⟨_, .give due⟩

theorem Unwinding.exists_done (acc : Acc (fun w v => Unwinding.Step v w) u) :
    ∃ v, u.Run v ∧ v.Done := by
  induction acc with
  | intro u _ ih =>
      rcases u.done_or_step with done | ⟨v, step⟩
      · exact ⟨u, .refl, done⟩
      · obtain ⟨w, run, done⟩ := ih v step
        exact ⟨w, step.run.trans run, done⟩

/-! ### Where every run ends -/

theorem Unwinding.Follows.isLeast (follows : u.Follows e L G) (done : u.Done) :
    IsLeast (e.heap.exhaustions L) u.ended.toFinset ∧ u.ended.toFinset.val = u.ended ∧
      G = L + e.heap.ownedIn u.ended := by
  have once : u.ended.toFinset.val = u.ended := by
    rw [Multiset.toFinset_val, follows.tallied.ended_nodup.dedup]
  have given : G = L + e.heap.ownedIn u.ended := by
    rw [← follows.tallied.total, done.owed, zero_add]
  have all : u.waiting + u.ended = u.ended := by rw [done.waiting, zero_add]
  refine ⟨⟨⟨?_, ?_⟩, ?_⟩, once, given⟩
  · exact fun h mem => follows.tallied.fallen h (Multiset.mem_toFinset.1 mem)
  · intro h o slot enough
    rw [once, ← given] at enough
    exact Multiset.mem_toFinset.2 (all ▸ follows.tallied.reached h o slot enough)
  · rintro F ⟨-, closed⟩ h mem
    rw [Multiset.mem_toFinset] at mem
    exact follows.tallied.needed F closed h (all.symm ▸ mem) (follows.tallied.fallen h mem)

theorem Unwinding.Follows.unwound (follows : u.Follows e L G) (done : u.Done) :
    e.Unwound L u.ended.toFinset u.engine := by
  obtain ⟨-, once, given⟩ := follows.isLeast done
  refine ⟨follows.shaped.size, ?_, ?_, ?_, ?_, ?_, follows.noted.rest⟩
  · intro h mem
    refine follows.shaped.left h (Multiset.mem_toFinset.1 mem) ?_
    rw [done.ending]
    exact Multiset.notMem_zero h
  · intro h absent
    rw [once, ← given]
    exact follows.shaped.kept h fun mem => absent (Multiset.mem_toFinset.2 mem)
  · have booked := follows.shaped.booked
    rwa [done.ending] at booked
  · rw [once, ← given]
    exact follows.noted.diagnostics
  · rw [once]
    exact follows.noted.finalized

/-- The references given back and the objects that end determine everything but the order
of the notes. -/
theorem Engine.Unwound.reordered {F : Finset Handle} {e₁ e₂ : Engine}
    (live : ∀ h ∈ F, e.heap.isLive h = true) (first : e.Unwound L F e₁)
    (second : e.Unwound L F e₂) : e₁.Reordered e₂ := by
  have slots (k : Handle) : e₂.heap.slot k = e₁.heap.slot k := by
    by_cases mem : k ∈ F
    · obtain ⟨o, slot⟩ := Heap.isLive_iff.1 (live k mem)
      rw [first.gone k mem o slot, second.gone k mem o slot]
    · rw [first.kept k mem, second.kept k mem]
  have heap : e₂.heap = e₁.heap :=
    first.booked.eq_of_slots second.booked (second.size.trans first.size.symm) slots
  obtain ⟨heap₁, diagnostics₁, finalized₁, same₁⟩ := first.rest
  obtain ⟨heap₂, diagnostics₂, finalized₂, same₂⟩ := second.rest
  refine ⟨e₂.diagnostics, e₂.finalized, ?_, ?_, ?_⟩
  · rw [← Multiset.coe_eq_coe, first.diagnostics, second.diagnostics]
  · rw [← Multiset.coe_eq_coe, first.finalized, second.finalized]
  · rw [same₁, same₂] at heap ⊢
    exact congrArg (fun heap =>
      { e with heap, diagnostics := diagnostics₂, finalized := finalized₂ }) heap

/-- Every way to give back the references ends, and in the same heap. -/
theorem Engine.Solvent.unwound (solvent : e.Solvent L) :
    ∃ F, IsLeast (e.heap.exhaustions L) F ∧
      ∀ v, Unwinding.Run ⟨e, L, 0, 0, 0⟩ v → v.Done → v.ended = F.val ∧ e.Unwound L F v.engine := by
  -- Some run ends, and the least set does not depend on the run.
  obtain ⟨v, run, done⟩ := Unwinding.exists_done (solvent.follows.acc solvent)
  obtain ⟨G, follows⟩ := solvent.follows.run solvent run
  obtain ⟨least, -, -⟩ := follows.isLeast done
  refine ⟨_, least, fun w run' done' => ?_⟩
  obtain ⟨G', follows'⟩ := solvent.follows.run solvent run'
  obtain ⟨least', once', -⟩ := follows'.isLeast done'
  have same := least'.unique least
  exact ⟨same ▸ once'.symm, same ▸ follows'.unwound done'⟩

end

/-! ### Giving back what the host owns -/

/-- What the host may give back is known to the engine. -/
theorem Engine.Settled.solvent {e : Engine} {M : Finset Handle} {L X : Multiset Handle}
    (hs : e.Settled M (L + X)) (booked : e.heap.Booked 0) : e.Solvent L where
  sound := hs.sound
  booked := booked
  named h mem := by
    apply hs.owned.named h
    rw [Engine.references]
    rcases Multiset.mem_add.1 mem with listed | held
    · simp [listed]
    · simp [held]
  covered h o found unheld := by
    have notMem : h ∉ M := by
      intro mem
      rw [hs.owned.adopted h mem o found] at unheld
      cases unheld
    rw [hs.owned.exact h o found notMem, Engine.references]
    simp only [Multiset.count_add]
    omega

/-- The engine after the references in a list have been given back, one after the other. -/
def Engine.givenBack (e : Engine) (hs : List Handle) : Engine :=
  (e.run (hs.map fun h => .release (.reference h))).2

theorem Engine.Settled.givenBack_eq {e : Engine} {M : Finset Handle} {X : Multiset Handle}
    {hs : List Handle} (settled : e.Settled M (↑hs + X)) :
    e.givenBack hs = hs.foldl Engine.releaseReference e := by
  induction hs generalizing e with
  | nil => rfl
  | cons h rest ih =>
      rw [← Multiset.cons_coe, Multiset.cons_add] at settled
      have valid : e.isValid (.reference h) = true := by
        rw [Engine.isValid_iff, Engine.names_reference]
        exact settled.owned.named h (by simp)
      have performed : (e.perform (.release (.reference h))).2 = e.releaseReference h := by
        rw [Engine.perform_of_valid (by simpa [Action.arguments] using valid)]
        rfl
      have step : e.givenBack (h :: rest) =
          (e.perform (.release (.reference h))).2.givenBack rest := rfl
      rw [step, performed, ih settled.releaseReference]
      rfl

/-- Giving back references that the host owns ends the least exhausted set of live objects,
each of them once. Every other count goes down by the references given back on the object,
those in the payloads of what has ended among them, but not below zero. This is so whatever
the order in which they are given back and in which the objects that wait are seen to:
every order comes to an end, and the heap is then the same. -/
theorem Reached.release_confluent {limits : Limits} {s : Session} {hs : List Handle}
    (reached : Reached .plain limits s) (owned : (hs : Multiset Handle) ≤ s.ledger) :
    ∃ F, IsLeast (s.engine.heap.exhaustions ↑hs) F ∧
      s.engine.Unwound ↑hs F (s.engine.givenBack hs) ∧
      (∃ u, Unwinding.Run ⟨s.engine, ↑hs, 0, 0, 0⟩ u ∧ u.Done ∧
        u.engine = s.engine.givenBack hs) ∧
      (∀ u, Unwinding.Run ⟨s.engine, ↑hs, 0, 0, 0⟩ u → u.Done →
        u.ended = F.val ∧ (s.engine.givenBack hs).Reordered u.engine) ∧
      (∀ u, u.Done ∨ ∃ v, Unwinding.Step u v) ∧
      Acc (fun v u => Unwinding.Step u v) ⟨s.engine, ↑hs, 0, 0, 0⟩ ∧
      ∀ hs', hs'.Perm hs → (s.engine.givenBack hs).Reordered (s.engine.givenBack hs') := by
  obtain ⟨kept, paid⟩ := Multiset.le_iff_exists_add.1 owned
  have settled : s.engine.Settled s.misused (↑hs + kept) := paid ▸ reached.settled
  have solvent := settled.solvent reached.booked.2
  obtain ⟨F, least, unwound⟩ := solvent.unwound
  -- The engine gives the references back in the order of its list.
  have asListed (hs' : List Handle) (perm : hs'.Perm hs) :
      ∃ u, Unwinding.Run ⟨s.engine, ↑hs, 0, 0, 0⟩ u ∧ u.Done ∧
        u.engine = s.engine.givenBack hs' := by
    have same : (hs' : Multiset Handle) = ↑hs := Multiset.coe_eq_coe.2 perm
    obtain ⟨D, run⟩ := Unwinding.run_foldl_releaseReference (R := 0) (W := 0) (E := 0) (D := 0)
      (Engine.Balanced.rested settled) hs'
    rw [add_zero, same] at run
    exact ⟨_, run, ⟨rfl, rfl, rfl⟩, (Engine.Settled.givenBack_eq (same ▸ settled)).symm⟩
  have ended (hs' : List Handle) (perm : hs'.Perm hs) :
      s.engine.Unwound ↑hs F (s.engine.givenBack hs') := by
    obtain ⟨u, run, done, result⟩ := asListed hs' perm
    exact result ▸ (unwound u run done).2
  have first := ended hs (.refl hs)
  refine ⟨F, least, first, asListed hs (.refl hs), ?_, Unwinding.done_or_step,
    solvent.follows.acc solvent, ?_⟩
  · intro u run done
    obtain ⟨once, same⟩ := unwound u run done
    exact ⟨once, first.reordered least.1.1 same⟩
  · exact fun hs' perm => first.reordered least.1.1 (ended hs' perm)

/-- A host that lets two objects share a string and one of them refer to the other, and
gives the string back on the bridge once more than it says. -/
def sharedAndOverReleased : List (Action × Bool) :=
  [(.makePlain Value.null, true), (.makePlain Value.null, true), (.makeString "x", true),
    (.retain (.reference 2), true), (.store (.reference 0) "k" (.reference 2), true),
    (.retain (.reference 2), true), (.store (.reference 1) "k" (.reference 2), true),
    (.retain (.reference 0), true), (.store (.reference 1) "p" (.reference 0), true),
    (.relinquish (.reference 2), false)]

/-- All three objects end, in either order, and one reference on the string is one too many. -/
theorem release_confluent_sharedAndOverReleased : ∃ s, Reached .plain {} s ∧
    s.engine.heap.liveCount = 3 ∧ (s.engine.givenBack [1, 0, 2]).heap.liveCount = 0 ∧
      (s.engine.givenBack [1, 0, 2]).heap.isParked 2 = true ∧
      (s.engine.givenBack [1, 0, 2]).diagnostics.size = 1 ∧
      (s.engine.givenBack [1, 0, 2]).Reordered (s.engine.givenBack [2, 0, 1]) := by
  have run : ((Session.start {}).follow .plain sharedAndOverReleased).any (fun s =>
      decide ((([1, 0, 2] : List Handle) : Multiset Handle) ≤ s.ledger ∧
        s.engine.heap.liveCount = 3 ∧ (s.engine.givenBack [1, 0, 2]).heap.liveCount = 0 ∧
        (s.engine.givenBack [1, 0, 2]).heap.isParked 2 = true ∧
        (s.engine.givenBack [1, 0, 2]).diagnostics.size = 1)) = true := by
    decide +kernel
  obtain ⟨s, followed, facts⟩ := (Option.any_eq_true _ _).1 run
  obtain ⟨owned, before, after, parked, noted⟩ := of_decide_eq_true facts
  have reached : Reached .plain {} s := Reached.start.follow followed
  obtain ⟨F, -, -, -, -, -, -, permuted⟩ := reached.release_confluent owned
  exact ⟨s, reached, before, after, parked, noted, permuted [2, 0, 1] (by decide)⟩

end CountedHeap
