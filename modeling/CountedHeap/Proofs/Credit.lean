import CountedHeap.Proofs.Rollback

/-!
One reference more. A reference that is taken on something that is no garbage keeps nothing
that would have gone otherwise, and when it is given back it leaves no trace. So it does not
matter whether it is taken before a collection or after it.
-/

namespace CountedHeap

/-- What a value refers to has a header and is no garbage. -/
structure Engine.Secure (e : Engine) (v : Value) : Prop where
  named : e.Names v
  kept : ∀ h ∈ v.refs, e.heap.isLive h = true → e.heap.Kept h

/-- An engine that is not shut down and whose counts and books are right, while `X` is
owned outside. -/
structure Engine.Ready (X : Multiset Handle) (e : Engine) : Prop where
  settled : e.Settled ∅ X
  hopen : e.isClosed = false
  booked : e.heap.Booked 0

/-- One reference more on what a value refers to, if that has a header. -/
def Heap.credit (H : Heap) (v : Value) : Heap :=
  match v.handle? with
  | some h => H.update h fun o => { o with count := o.count + 1 }
  | none => H

/-- A reference that is taken as if counts had no bound. -/
def Engine.credit (e : Engine) (v : Value) : Engine :=
  { e with heap := e.heap.credit v }

section

variable {H : Heap} {e e' : Engine} {S : Finset Handle} {X X' : Multiset Handle} {h k : Handle}
  {v w : Value} {o : Object} {n : Nat}

/-! ### What is in sight is no garbage -/

theorem Engine.Settled.kept_of_sees {h : Handle} (hs : e.Settled ∅ X) (sees : e.Sees X h) :
    (∃ o, e.heap.object? h = some o) ∧ (e.heap.isLive h = true → e.heap.Kept h) := by
  induction sees with
  | @root h mem =>
      refine ⟨hs.owned.named h ?_, fun live => ?_⟩
      · rw [Engine.references, add_left_comm]
        exact Multiset.mem_add.2 (.inr mem)
      · obtain ⟨o, slot⟩ := Heap.isLive_iff.1 live
        have exact := hs.owned.exact h o (Heap.object?_of_live slot) (Finset.notMem_empty h)
        have held := Multiset.count_pos.2 mem
        simp only [Engine.references, Multiset.count_add] at exact held
        exact .seed slot (by omega)
  | @within h k parent edge ih =>
      have held : k ∈ e.references :=
        Multiset.mem_add.2 (.inl (Heap.mem_references.2 ⟨h, edge⟩))
      exact ⟨hs.owned.named k (Multiset.mem_add.2 (.inr held)),
        .child (ih.2 (Heap.isLive_of_mem_ownedBy edge)) edge⟩

theorem Engine.InSight.secure (sight : e.InSight X v) (hs : e.Settled ∅ X) : e.Secure v :=
  ⟨fun h mem => (hs.kept_of_sees (sight h mem)).1, fun h mem => (hs.kept_of_sees (sight h mem)).2⟩

/-! ### One reference more -/

theorem Heap.slot_credit (k : Handle) : (H.credit v).slot k =
    (H.slot k).map fun o => { o with count := o.count + v.refs.count k } := by
  have same : (H.slot k).map (fun o => { o with count := o.count + (0 : ℕ) }) = H.slot k := by
    cases H.slot k <;> simp [Slot.map]
  cases v with
  | immediate w =>
      rw [Value.refs_immediate, Multiset.count_zero]
      exact same.symm
  | reference h =>
      show (H.update h _).slot k = _
      rw [Heap.slot_update, Value.refs_reference, Multiset.count_singleton]
      split
      · rfl
      · exact same.symm

theorem Heap.size_credit : (H.credit v).slots.size = H.slots.size := by
  cases v with
  | immediate w => rfl
  | reference h => exact Heap.size_update

theorem Heap.bytes_credit : (H.credit v).bytes = H.bytes := by
  cases v <;> rfl

theorem Heap.liveCount_credit : (H.credit v).liveCount = H.liveCount := by
  cases v <;> rfl

theorem Heap.parkedCount_credit : (H.credit v).parkedCount = H.parkedCount := by
  cases v <;> rfl

theorem Heap.Booked.credit (booked : H.Booked n) : (H.credit v).Booked n := by
  cases v with
  | immediate w => exact booked
  | reference h => exact booked.update fun _ => rfl

theorem Engine.names_credit : (e.credit v).Names w ↔ e.Names w := by
  refine forall₂_congr fun h _ => ?_
  show (∃ o, (e.heap.credit v).object? h = some o) ↔ _
  rw [Heap.object?, Heap.slot_credit, Heap.object?]
  cases e.heap.slot h <;> simp [Slot.map, Slot.object?]

theorem Engine.retain_eq_credit (named : e.Names v) (range : (e.retain v).InRange) :
    e.retain v = e.credit v := by
  cases v with
  | immediate w => rfl
  | reference h =>
      obtain ⟨o, found⟩ := Engine.names_reference.1 named
      obtain ⟨fits, result⟩ := Engine.addReference_eq found range
      have heap : (e.heap.update h fun o => { o with count := wrapCount (o.count + 1) }) =
          e.heap.credit (.reference h) := by
        refine Heap.ext_slot (Heap.size_update.trans Heap.size_credit.symm) (fun k => ?_)
          rfl rfl rfl rfl
        show _ = (e.heap.update h _).slot k
        rw [Heap.slot_update, Heap.slot_update]
        split
        · subst k
          rcases Heap.object?_eq_some.1 found with slot | slot <;>
            simp [slot, Slot.map, wrapCount_of_inRange fits]
        · rfl
      rw [Engine.credit, ← heap]
      exact result

theorem Engine.slot_retain (named : e.Names v) (range : (e.retain v).InRange) (k : Handle) :
    (e.retain v).heap.slot k =
      (e.heap.slot k).map fun o => { o with count := o.count + v.refs.count k } := by
  rw [Engine.retain_eq_credit named range]
  exact Heap.slot_credit k

theorem Engine.ownedBy_retain (named : e.Names v) (range : (e.retain v).InRange) (k : Handle) :
    (e.retain v).heap.ownedBy k = e.heap.ownedBy k := by
  rw [Heap.ownedBy, Heap.ownedBy, Engine.slot_retain named range]
  cases e.heap.slot k <;> rfl

theorem Engine.references_retain (named : e.Names v) (range : (e.retain v).InRange) :
    (e.retain v).heap.references = e.heap.references :=
  Heap.references_congr fun k => Engine.ownedBy_retain named range k

/-- One reference more keeps nothing that would have gone, if what it is on stays anyway. -/
theorem Engine.Secure.kept_of_retain (secure : e.Secure v) (range : (e.retain v).InRange)
    (kept : (e.retain v).heap.Kept k) : e.heap.Kept k := by
  induction kept with
  | @seed h o' slot' owned =>
      rw [Engine.slot_retain secure.named range] at slot'
      rw [Engine.references_retain secure.named range] at owned
      cases slot : e.heap.slot h <;> rw [slot] at slot' <;> cases slot'
      by_cases more : h ∈ v.refs
      · exact secure.kept h more (Heap.isLive_iff.2 ⟨_, slot⟩)
      · refine .seed slot ?_
        simpa [Multiset.count_eq_zero.2 more] using owned
  | @child h k parent edge live ih =>
      rw [Engine.ownedBy_retain secure.named range] at edge
      rw [Heap.isLive, Engine.slot_retain secure.named range, Slot.isLive_map] at live
      exact .child ih edge live

theorem Engine.dropReference_credit (found : e.heap.object? h = some o)
    (counted : 0 ≤ o.count) :
    (e.credit (.reference h)).dropReference h = (o.count + 1 == 1, e) := by
  have found' : (e.credit (.reference h)).heap.object? h =
      some { o with count := o.count + 1 } := by
    show (e.heap.update h _).object? h = _
    rw [Heap.object?_update, if_pos rfl, found]
    rfl
  have back : (e.credit (.reference h)).updateObject h
      (fun o => { o with count := o.count - 1 }) = e := by
    have heap : (e.heap.credit (.reference h)).update h (fun o => { o with count := o.count - 1 }) =
        e.heap := by
      refine Heap.ext_slot (Heap.size_update.trans Heap.size_credit) (fun k => ?_) rfl rfl rfl rfl
      show ((e.heap.update h _).update h _).slot k = _
      rw [Heap.slot_update, Heap.slot_update]
      split
      · cases e.heap.slot k <;> simp [Slot.map]
      · rfl
    rw [Engine.updateObject, Engine.credit, heap]
  rw [Engine.dropReference, found']
  dsimp only
  rw [if_pos (by omega), back]

/-- A reference that is counted and given back leaves no trace. -/
theorem Engine.Settled.release_credit (hs : e.Settled ∅ X) (named : e.Names v) :
    (e.credit v).release v = e := by
  cases v with
  | immediate w => rfl
  | reference h =>
      obtain ⟨o, found⟩ := Engine.names_reference.1 named
      have counted := hs.owned.exact h o found (Finset.notMem_empty h)
      have rested : e.Rested := Engine.Balanced.rested hs
      have rested' : (e.credit (.reference h)).Rested := rested
      show (e.credit (.reference h)).releaseReference h = e
      rw [Engine.releaseReference_of_rested rested',
        Engine.dropReference_credit found (by omega)]
      by_cases last : o.count = 0
      · -- Only a parked header can do without a reference, and it has nothing to give up.
        have freed : o.freed = true := by
          rcases Heap.object?_eq_some.1 found with slot | slot
          · have positive := (hs.sound.live slot).2.2
            omega
          · exact (hs.sound.parked slot).2.2.1
        have disposed : e.dispose h = ([], e) := by
          rw [Engine.dispose, found]
          exact if_pos freed
        simp only [last]
        show e.drain [h] = e
        rw [Engine.drain_cons, disposed]
        exact e.drain_nil
      · have stays : (o.count + 1 == 1) = false := by
          rw [beq_eq_false_iff_ne]
          omega
        rw [stays]

theorem Engine.Settled.release_retain (hs : e.Settled ∅ X) (named : e.Names v)
    (range : (e.retain v).InRange) : (e.retain v).release v = e := by
  rw [Engine.retain_eq_credit named range]
  exact hs.release_credit named

/-! ### Engines that are ready -/

theorem Engine.Ready.next (ready : e.Ready X) (settled : e'.Settled ∅ X')
    (moves : Engine.Moves ∅ False e e') (frame : e'.frame = e.frame) : e'.Ready X' :=
  ⟨settled, (isClosed_of_frame frame).trans ready.hopen,
    moves.booked ready.settled.sound.tidy ready.booked⟩

theorem Engine.Ready.collect (ready : e.Ready X) : e.collect.2.Ready X :=
  ready.next ready.settled.collect Engine.Move.collect.single (Engine.frame_collect e)

theorem Engine.Ready.retain (ready : e.Ready X) (named : e.Names v)
    (range : (e.retain v).InRange) : (e.retain v).Ready (v.refs + X) :=
  ready.next (ready.settled.retain named range) Engine.turns_retain.moves
    (Engine.frame_retain range)

theorem Engine.Ready.makeRoom (ready : e.Ready X) : (e.makeRoom n).Ready X :=
  ready.next (zero_add X ▸ ((Engine.Building.refl ready.settled).makeRoom n).settled)
    (Engine.turns_makeRoom n).moves (Engine.frame_makeRoom n)

/-! ### What goes in a collection -/

theorem Heap.garbage_stain_credit (stays : ∀ h ∈ v.refs, H.isLive h = true → h ∈ S) :
    ((H.credit v).stain S).garbage = (H.stain S).garbage := by
  have size {H : Heap} : (H.stain S).slots.size = H.slots.size := by
    simp [Heap.stain, Heap.mapLiveIdx]
  rw [Heap.garbage, Heap.garbage, Heap.listed_eq, Heap.listed_eq, List.filter_filterMap,
    List.filter_filterMap, size, size, Heap.size_credit]
  refine List.filterMap_congr fun k _ => ?_
  rw [Heap.slot_stain, Heap.slot_stain, Heap.slot_credit]
  cases slot : H.slot k with
  | live o =>
      by_cases inside : k ∈ S
      · simp [Slot.map, Slot.mapLive, Slot.live?, Option.filter_some, inside]
      · have other : k ∉ v.refs := fun mem =>
          inside (stays k mem (Heap.isLive_iff.2 ⟨o, slot⟩))
        simp [Slot.map, Slot.mapLive, Slot.live?, Multiset.count_eq_zero.2 other]
  | parked o => rfl
  | reclaimed => rfl

/-- What garbage is goes in the same way, whatever the rest of the heap is like. -/
theorem Engine.discard_with_heap (e : Engine) (H : Heap) (entry : Handle × Object) :
    Engine.discard { e with heap := H } entry =
      { e.discard entry with heap := (Engine.discard { e with heap := H } entry).heap } := by
  obtain ⟨h, o⟩ := entry
  simp only [Engine.discard, Engine.finalize]
  split
  · split <;> rfl
  · rfl

theorem Engine.foldl_discard_with_heap (e : Engine) (H : Heap) (garbage : List (Handle × Object)) :
    garbage.foldl Engine.discard { e with heap := H } =
      { garbage.foldl Engine.discard e with
        heap := (garbage.foldl Engine.discard { e with heap := H }).heap } := by
  induction garbage generalizing e H with
  | nil => rfl
  | cons entry rest ih =>
      rw [List.foldl_cons, List.foldl_cons, e.discard_with_heap H entry]
      exact ih (e.discard entry) _

theorem Engine.Secure.swept_credit (secure : e.Secure v) (hS : ∀ k, k ∈ S ↔ e.heap.Kept k) :
    (e.credit v).swept S = { e.swept S with heap := ((e.credit v).swept S).heap } := by
  have garbage : ((e.heap.credit v).stain S).garbage = (e.heap.stain S).garbage :=
    Heap.garbage_stain_credit fun h mem live => (hS h).2 (secure.kept h mem live)
  rw [Engine.swept, Engine.swept, Engine.credit, garbage]
  exact Engine.foldl_discard_with_heap { e with heap := e.heap.stain S } _ _

/-! ### Collections -/

section

variable (ready : e.Ready X) (secure : e.Secure v) (range : (e.retain v).InRange)

include secure range

theorem Engine.Secure.kept_retain_iff : (e.retain v).heap.Kept k ↔ e.heap.Kept k := by
  refine ⟨secure.kept_of_retain range, fun kept => ?_⟩
  induction kept with
  | @seed h o slot owned =>
      have slot' := Engine.slot_retain secure.named range h
      rw [slot] at slot'
      refine .seed slot' ?_
      rw [Engine.references_retain secure.named range]
      dsimp only
      omega
  | @child h k parent edge live ih =>
      refine .child ih ?_ ?_
      · rw [Engine.ownedBy_retain secure.named range]
        exact edge
      · rw [Heap.isLive, Engine.slot_retain secure.named range, Slot.isLive_map]
        exact live

include ready

/-- Apart from the heap a collection does the same whether or not the reference is taken. -/
theorem Engine.Ready.collect_retain_with_heap : (e.retain v).collect.2 =
    { e.collect.2 with heap := (e.retain v).collect.2.heap } := by
  have held := (ready.retain secure.named range).settled
  obtain ⟨S, hS, result⟩ := ready.settled.collect_eq_countDown
  obtain ⟨S', hS', result'⟩ := held.collect_eq_countDown
  have same : S' = S := by
    ext k
    rw [hS, hS', secure.kept_retain_iff range]
  have swept := secure.swept_credit hS
  rw [← Engine.retain_eq_credit secure.named range] at swept
  rw [result', result, same, swept]

omit ready in
theorem Engine.Secure.lost_retain : (e.retain v).heap.ownedByAll (e.retain v).heap.going =
    e.heap.ownedByAll e.heap.going := by
  have going : (e.retain v).heap.going = e.heap.going := by
    have isLive : (e.retain v).heap.isLive = e.heap.isLive := by
      funext k
      rw [Heap.isLive, Engine.slot_retain secure.named range, Slot.isLive_map]
      rfl
    rw [Heap.going, Heap.going, Heap.map_fst_listed, Heap.map_fst_listed,
      Engine.conserves_retain.size, isLive]
    have kept : (e.retain v).heap.Kept = e.heap.Kept :=
      funext fun k => propext (secure.kept_retain_iff range)
    rw [kept]
  have ownedBy : (e.retain v).heap.ownedBy = e.heap.ownedBy :=
    funext (Engine.ownedBy_retain secure.named range)
  rw [Heap.ownedByAll, Heap.ownedByAll, going, ownedBy]

theorem Engine.Ready.slot_collect_retain (k : Handle) :
    (e.retain v).collect.2.heap.slot k = (e.collect.2.heap.credit v).slot k := by
  have hs := ready.settled
  have held := (ready.retain secure.named range).settled
  have before := Engine.slot_retain secure.named range k
  rw [Heap.slot_credit]
  by_cases garbage : e.heap.isLive k = true ∧ ¬ e.heap.Kept k
  · obtain ⟨live, goes⟩ := garbage
    obtain ⟨o, slot⟩ := Heap.isLive_iff.1 live
    have other : k ∉ v.refs := fun mem => goes (secure.kept k mem live)
    rw [slot, Slot.map] at before
    rw [held.slot_collect_of_garbage before (fun kept => goes (secure.kept_of_retain range kept)),
      hs.slot_collect_of_garbage slot goes, Multiset.count_eq_zero.2 other]
    dsimp only
    split <;> simp [Slot.map, Object.release]
  · have garbage' : ¬ ((e.retain v).heap.isLive k = true ∧ ¬ (e.retain v).heap.Kept k) := by
      rw [Heap.isLive, before, Slot.isLive_map, secure.kept_retain_iff range]
      exact garbage
    rw [held.slot_collect_of_not_garbage garbage', hs.slot_collect_of_not_garbage garbage, before,
      secure.lost_retain range]
    cases e.heap.slot k <;> simp [Slot.map, sub_add_eq_add_sub]

/-- A reference on what is no garbage can as well be taken after a collection. -/
theorem Engine.Ready.collect_retain : (e.retain v).collect.2 = e.collect.2.credit v := by
  have hs := ready.settled
  have held := ready.retain secure.named range
  have size : (e.retain v).collect.2.heap.slots.size =
      (e.collect.2.heap.credit v).slots.size := by
    rw [held.settled.fades_collect.size, Heap.size_credit, hs.fades_collect.size]
    exact Engine.conserves_retain.size
  have heap : (e.retain v).collect.2.heap = e.collect.2.heap.credit v :=
    (Heap.same_of_slots ready.collect.booked.credit held.collect.booked
      (ready.slot_collect_retain secure range)).eq size
  rw [ready.collect_retain_with_heap secure range, heap]
  rfl

theorem Engine.Ready.names_collect : e.collect.2.Names v := by
  have collected := (ready.retain secure.named range).collect.settled
  rw [ready.collect_retain secure range] at collected
  exact Engine.names_credit.1 collected.names

/-- Whoever holds on to what stays anyway can collect and let go, or just collect. -/
theorem Engine.Ready.release_collect_retain : (e.retain v).collect.2.release v = e.collect.2 := by
  rw [ready.collect_retain secure range]
  exact ready.collect.settled.release_credit (ready.names_collect secure range)

end

end

end CountedHeap
