import CountedHeap.Proofs.Ownership

/-!
What a collection does, exactly, when no host has misused the bridge. The
objects that stay are those owned from outside the heap and those that can be
reached from them. The references that are given back at the end are never the
last ones on a live object: an object that stays is owned from outside or is
referred to by another that stays. So giving them back moves counts and does
nothing else, and a second collection finds nothing to do.
-/

namespace CountedHeap

/-! ### Giving back what is not the last reference -/

/-- One reference less on each object of a list. -/
def Heap.countDown (H : Heap) (hs : List Handle) : Heap :=
  hs.foldl (fun H h => H.update h fun o => { o with count := o.count - 1 }) H

section

variable {H : Heap} {e : Engine} {h k : Handle} {o : Object} {hs : List Handle}

theorem Heap.slot_countDown (hs : List Handle) (k : Handle) : (H.countDown hs).slot k =
    (H.slot k).map fun o => { o with count := o.count - hs.count k } := by
  induction hs generalizing H with
  | nil =>
      have same : (H.slot k).map (fun o =>
          { o with count := o.count - ([] : List Handle).count k }) = H.slot k := by
        cases slot : H.slot k <;> simp [Slot.map]
      exact same.symm
  | cons h rest ih =>
      have step : H.countDown (h :: rest) =
          (H.update h fun o => { o with count := o.count - 1 }).countDown rest := rfl
      rw [step, ih, Heap.slot_update]
      by_cases same : k = h
      · subst k
        rw [if_pos rfl, List.count_cons_self]
        cases H.slot h <;> simp only [Slot.map]
        · congr 2
          omega
        · congr 2
          omega
      · rw [if_neg same, List.count_cons_of_ne (Ne.symm same)]

theorem Heap.size_countDown : (H.countDown hs).slots.size = H.slots.size := by
  induction hs generalizing H with
  | nil => rfl
  | cons h rest ih =>
      have step : H.countDown (h :: rest) =
          (H.update h fun o => { o with count := o.count - 1 }).countDown rest := rfl
      rw [step, ih, Heap.size_update]

/-- An object has a reference to spare for each occurrence in the list, and one
more if it is not freed yet. -/
def Heap.Spares (H : Heap) (hs : List Handle) : Prop :=
  ∀ k ∈ hs, ∃ o, H.object? k = some o ∧
    ((hs.count k : Int) < o.count ∨ o.freed = true ∧ (hs.count k : Int) = o.count)

theorem Heap.Spares.tail (spares : H.Spares (h :: hs)) :
    (H.update h fun o => { o with count := o.count - 1 }).Spares hs := by
  intro k hk
  obtain ⟨o, found, spare⟩ := spares k (List.mem_cons_of_mem h hk)
  rw [Heap.object?_update, found]
  by_cases same : k = h
  · subst k
    rw [List.count_cons_self] at spare
    refine ⟨_, if_pos rfl, ?_⟩
    show (_ : Int) < o.count - 1 ∨ o.freed = true ∧ (_ : Int) = o.count - 1
    rcases spare with more | ⟨freed, exact⟩
    · left
      omega
    · right
      exact ⟨freed, by omega⟩
  · rw [List.count_cons_of_ne (Ne.symm same)] at spare
    exact ⟨o, if_neg same, spare⟩

/-- A reference that the object can spare takes nothing else with it. -/
theorem Engine.releaseReference_eq (rested : e.Rested) (found : e.heap.object? h = some o)
    (positive : 0 < o.count) (spare : o.count = 1 → o.freed = true) : e.releaseReference h =
      { e with heap := e.heap.update h fun o => { o with count := o.count - 1 } } := by
  rw [Engine.releaseReference_of_rested rested, Engine.dropReference, found]
  simp only [positive, if_true]
  by_cases last : o.count = 1
  · have freed : o.freed = true := spare last
    have found' : (e.updateObject h fun o => { o with count := o.count - 1 }).heap.object? h =
        some { o with count := o.count - 1 } := by
      rw [Engine.heap_updateObject, Heap.object?_update, if_pos rfl, found]
      rfl
    have idle : (e.updateObject h fun o => { o with count := o.count - 1 }).dispose h =
        ([], e.updateObject h fun o => { o with count := o.count - 1 }) := by
      rw [Engine.dispose, found']
      simp only [freed, if_true]
    simp only [last, beq_self_eq_true]
    rw [Engine.drain_cons, idle, List.append_nil, Engine.drain_nil]
    rfl
  · have more : (o.count == 1) = false := by simpa using last
    rw [more]
    rfl

theorem Engine.foldl_releaseReference_eq (rested : e.Rested) (spares : e.heap.Spares hs) :
    hs.foldl Engine.releaseReference e = { e with heap := e.heap.countDown hs } := by
  induction hs generalizing e with
  | nil => rfl
  | cons h rest ih =>
      obtain ⟨o, found, spare⟩ := spares h List.mem_cons_self
      rw [List.count_cons_self] at spare
      have step := Engine.releaseReference_eq rested found (by omega) fun last => by
        rcases spare with more | ⟨freed, -⟩
        · omega
        · exact freed
      rw [List.foldl_cons, step]
      exact ih rested spares.tail

end

/-! ### What stays and what goes -/

open Classical in
/-- The live objects that stay, in the order of the list. -/
noncomputable def Heap.staying (H : Heap) : List Handle :=
  (H.listed.map (·.1)).filter fun h => decide (H.Kept h)

open Classical in
/-- The live objects that do not stay. -/
noncomputable def Heap.going (H : Heap) : List Handle :=
  (H.listed.map (·.1)).filter fun h => decide (¬ H.Kept h)

/-- The references that the payloads of some objects own. -/
def Heap.ownedByAll (H : Heap) (hs : List Handle) : Multiset Handle :=
  (hs.flatMap H.ownedBy : List Handle)

/-- A collection that leaves exactly what can be reached from the objects that
are owned from outside the heap. It tells the number `n` of the others, and from
the counts it takes the references that those owned. -/
structure Engine.Collects (e : Engine) (n : Nat) (e' : Engine) : Prop where
  listed : e'.heap.listed.map (·.1) = e.heap.staying
  freed : n = e.heap.going.length
  stays : ∀ h o, e.heap.slot h = .live o → e.heap.Kept h → e'.heap.slot h =
    .live { o with count := o.count - ((e.heap.ownedByAll e.heap.going).count h : ℕ) }
  unmarked : ∀ h o, e'.heap.slot h = .live o → o.marked = false ∧ o.reached = false
  goes : ∀ h o, e.heap.slot h = .live o → ¬ e.heap.Kept h → e'.heap.slot h =
    if o.adopted then .parked { o.release with count := 0 } else .reclaimed
  parked : ∀ h o, e.heap.slot h = .parked o → e'.heap.slot h =
    .parked { o with count := o.count - ((e.heap.ownedByAll e.heap.going).count h : ℕ) }
  diagnostics : e'.diagnostics = e.diagnostics
  frame : e'.frame = e.frame
  again : e'.collect = (0, e')

section

variable {H : Heap} {e : Engine} {S : Finset Handle} {X : Multiset Handle} {h k : Handle}
  {o : Object}

theorem Heap.map_fst_garbage_stain (hS : ∀ k, k ∈ S ↔ H.Kept k) :
    (H.stain S).garbage.map (·.1) = H.going := by
  have marked : ∀ entry ∈ (H.stain S).listed, entry.2.marked = !decide (entry.1 ∈ S) := by
    rintro ⟨h, o⟩ mem
    rw [Heap.mem_listed, Heap.slot_stain] at mem
    cases slot : H.slot h with
    | live o' =>
        rw [slot, Slot.mapLive, Slot.live.injEq] at mem
        rw [← mem]
    | parked o' => simp [slot, Slot.mapLive] at mem
    | reclaimed => simp [slot, Slot.mapLive] at mem
  have listed : (H.stain S).listed.map (·.1) = H.listed.map (·.1) := by
    rw [Heap.map_fst_listed, Heap.map_fst_listed]
    have size : (H.stain S).slots.size = H.slots.size := by simp [Heap.stain, Heap.mapLiveIdx]
    rw [size]
    congr 1
    funext k
    rw [Heap.isLive, Heap.slot_stain, Heap.isLive]
    cases H.slot k <;> rfl
  rw [Heap.garbage, List.filter_congr marked, Heap.going, ← listed, List.filter_map]
  congr 1
  apply List.filter_congr
  intro entry _
  simp [hS]

theorem Heap.lost_eq (hS : ∀ k, k ∈ S ↔ H.Kept k) : H.lost S = H.ownedByAll H.going := by
  rw [Heap.lost, Heap.ownedByAll, ← Heap.map_fst_garbage_stain hS, List.flatMap_map]
  congr 1
  apply List.flatMap_congr
  intro entry mem
  obtain ⟨slot, -⟩ := Heap.mem_garbage_stain.1 mem
  rw [← Heap.ownedBy_stain (S := S), Heap.ownedBy, slot]
  rfl

theorem Engine.slot_swept_eq_live (clean : e.heap.Sound 0 0) :
    (e.swept S).heap.slot k = .live o ↔ k ∈ S ∧ e.heap.slot k = .live o := by
  rw [Engine.slot_swept clean.tidy]
  by_cases stays : k ∈ S
  · simp [stays]
  · rw [if_neg stays]
    cases e.heap.slot k with
    | live o' =>
        rw [Slot.discard]
        split <;> simp [stays]
    | parked o' => simp [stays, Slot.discard]
    | reclaimed => simp [stays, Slot.discard]

theorem Engine.count_outgoing_add (clean : e.heap.Sound 0 0) (stays : k ∈ S) :
    (e.heap.stain S).outgoing.count k + (e.swept S).heap.references.count k =
      e.heap.references.count k := by
  have given := Heap.count_outgoing_stain (S := S) clean k
  rw [if_neg fun garbage => garbage.2 stays, Multiset.coe_count] at given
  rw [given, ← Engine.references_swept (e := e) (S := S), Multiset.count_add, add_comm]

/-- The references from garbage are not all that there are on an object that stays. -/
theorem Engine.Settled.outgoing_lt_count (hs : e.Settled ∅ X) (hS : ∀ k, k ∈ S ↔ e.heap.Kept k)
    (slot : e.heap.slot k = .live o) (stays : k ∈ S) :
    ((e.heap.stain S).outgoing.count k : Int) < o.count := by
  have clean : e.heap.Sound 0 0 := hs.sound
  have exact := hs.owned.exact k o (Heap.object?_of_live slot) (Finset.notMem_empty k)
  simp only [Engine.references, Multiset.count_add] at exact
  have parts := Engine.count_outgoing_add (S := S) clean stays
  cases (hS k).1 stays with
  | seed slot' owned =>
      obtain rfl := Slot.live.inj (slot.symm.trans slot')
      omega
  | @child j _ parent edge live =>
      -- The parent stays too, so its reference is not among those given back.
      have held : k ∈ (e.swept S).heap.references := by
        refine Heap.mem_references.2 ⟨j, ?_⟩
        rw [Heap.ownedBy, Engine.slot_swept clean.tidy, if_pos ((hS j).2 parent)]
        exact edge
      have := Multiset.count_pos.2 held
      omega

/-- An object that stays can spare the references from those that do not. -/
theorem Engine.Settled.spares_swept (hs : e.Settled ∅ X) (hS : ∀ k, k ∈ S ↔ e.heap.Kept k) :
    (e.swept S).heap.Spares (e.heap.stain S).outgoing := by
  have swept := hs.swept hS
  intro k hk
  obtain ⟨o, found⟩ :=
    swept.owned.named k (Multiset.mem_add.2 (.inl (Multiset.mem_add.2 (.inl hk))))
  refine ⟨o, found, ?_⟩
  rcases Heap.object?_eq_some.1 found with slot | slot
  · obtain ⟨stays, before⟩ := (Engine.slot_swept_eq_live hs.sound).1 slot
    exact .inl (hs.outgoing_lt_count hS before stays)
  · -- A parked header has no payload to lose, and its count is exact too.
    obtain ⟨-, -, freed, -⟩ := swept.sound.parked slot
    have exact := swept.owned.exact k o found (Finset.notMem_empty k)
    simp only [Engine.references, Multiset.count_add, Multiset.coe_count] at exact
    by_cases more : ((e.heap.stain S).outgoing.count k : Int) < o.count
    · exact .inl more
    · right
      exact ⟨freed, by omega⟩

/-- After a collection the counts are down by the references from what is gone. -/
theorem Engine.Settled.collect_eq_countDown (hs : e.Settled ∅ X) :
    ∃ S : Finset Handle, (∀ k, k ∈ S ↔ e.heap.Kept k) ∧ e.collect =
      ((e.heap.stain S).garbage.length,
        { e.swept S with heap := (e.swept S).heap.countDown (e.heap.stain S).outgoing }) := by
  obtain ⟨S, hS, result⟩ := hs.collect_eq
  refine ⟨S, hS, ?_⟩
  rw [result, Engine.foldl_releaseReference_eq (Engine.Balanced.rested (hs.swept hS))
    (hs.spares_swept hS)]

/-- What is not garbage gives up one count for each reference from garbage. -/
theorem Engine.Settled.slot_collect_of_not_garbage (hs : e.Settled ∅ X)
    (other : ¬ (e.heap.isLive k = true ∧ ¬ e.heap.Kept k)) : e.collect.2.heap.slot k =
      (e.heap.slot k).map fun o =>
        { o with count := o.count - ((e.heap.ownedByAll e.heap.going).count k : ℕ) } := by
  obtain ⟨S, hS, result⟩ := hs.collect_eq_countDown
  have clean : e.heap.Sound 0 0 := hs.sound
  rw [← hS] at other
  have given := Heap.count_outgoing_stain (S := S) clean k
  rw [if_neg other, Heap.lost_eq hS, Multiset.coe_count] at given
  rw [result]
  show ((e.swept S).heap.countDown _).slot k = _
  rw [Heap.slot_countDown, Engine.slot_swept_of_not_garbage clean other, given]

theorem Engine.Settled.slot_collect_of_garbage (hs : e.Settled ∅ X)
    (slot : e.heap.slot k = .live o) (goes : ¬ e.heap.Kept k) : e.collect.2.heap.slot k =
      if o.adopted then .parked { o.release with count := 0 } else .reclaimed := by
  obtain ⟨S, hS, result⟩ := hs.collect_eq_countDown
  have clean : e.heap.Sound 0 0 := hs.sound
  obtain ⟨⟨marked, -⟩, -⟩ := clean.live slot
  rw [← hS] at goes
  have given := Heap.count_outgoing_stain (S := S) clean k
  rw [if_pos ⟨Heap.isLive_iff.2 ⟨o, slot⟩, goes⟩, Multiset.coe_count] at given
  rw [result]
  show ((e.swept S).heap.countDown _).slot k = _
  rw [Heap.slot_countDown, Engine.slot_swept_of_garbage clean slot goes, given]
  split
  · simp [Slot.map, Object.release, marked]
  · rfl

theorem Engine.Settled.isLive_collect (hs : e.Settled ∅ X) :
    e.collect.2.heap.isLive k = true ↔ e.heap.Kept k := by
  by_cases garbage : e.heap.isLive k = true ∧ ¬ e.heap.Kept k
  · obtain ⟨o, slot⟩ := Heap.isLive_iff.1 garbage.1
    rw [Heap.isLive, hs.slot_collect_of_garbage slot garbage.2]
    refine ⟨fun live => ?_, fun kept => absurd kept garbage.2⟩
    split at live <;> cases live
  · have same : e.collect.2.heap.isLive k = e.heap.isLive k := by
      rw [Heap.isLive, hs.slot_collect_of_not_garbage garbage, Heap.isLive]
      cases e.heap.slot k <;> rfl
    rw [same]
    refine ⟨fun live => ?_, Heap.Kept.isLive⟩
    by_contra goes
    exact garbage ⟨live, goes⟩

theorem Engine.Settled.slot_collect_of_kept (hs : e.Settled ∅ X) (slot : e.heap.slot k = .live o)
    (kept : e.heap.Kept k) : e.collect.2.heap.slot k =
      .live { o with count := o.count - ((e.heap.ownedByAll e.heap.going).count k : ℕ) } := by
  rw [hs.slot_collect_of_not_garbage fun garbage => garbage.2 kept, slot]
  rfl

theorem Engine.Settled.references_collect (hs : e.Settled ∅ X) :
    e.collect.2.heap.references + e.heap.ownedByAll e.heap.going = e.heap.references := by
  obtain ⟨S, hS, result⟩ := hs.collect_eq_countDown
  have same : e.collect.2.heap.references = (e.swept S).heap.references := by
    rw [result]
    apply Heap.references_congr
    intro k
    show ((e.swept S).heap.countDown _).ownedBy k = _
    rw [Heap.ownedBy, Heap.slot_countDown, Heap.ownedBy]
    cases (e.swept S).heap.slot k <;> rfl
  rw [same, ← Heap.lost_eq hS]
  exact Engine.references_swept

/-- What stays once stays again. -/
theorem Engine.Settled.kept_collect (hs : e.Settled ∅ X) (kept : e.heap.Kept k) :
    e.collect.2.heap.Kept k := by
  induction kept with
  | @seed h o slot owned =>
      -- The count and the references from live payloads go down by the same number.
      have total := congrArg (Multiset.count h) hs.references_collect
      rw [Multiset.count_add] at total
      refine .seed (hs.slot_collect_of_kept slot (.seed slot owned)) ?_
      dsimp only
      omega
  | @child h k parent edge live ih =>
      obtain ⟨o, slot⟩ := Heap.isLive_iff.1 parent.isLive
      refine .child ih ?_ (hs.isLive_collect.2 (.child parent edge live))
      rw [Heap.ownedBy, slot] at edge
      rw [Heap.ownedBy, hs.slot_collect_of_kept slot parent]
      exact edge

theorem Heap.stain_of_live (clean : H.Sound 0 0) (all : ∀ k, H.isLive k = true → k ∈ S) :
    H.stain S = H := by
  refine Heap.ext_slot (by simp [Heap.stain, Heap.mapLiveIdx]) (fun k => ?_) rfl rfl rfl rfl
  rw [Heap.slot_stain]
  cases slot : H.slot k with
  | live o =>
      obtain ⟨⟨marked, -⟩, -⟩ := clean.live slot
      have stays := all k (Heap.isLive_iff.2 ⟨o, slot⟩)
      simp [Slot.mapLive, stays, ← marked]
  | parked o => rfl
  | reclaimed => rfl

/-- A collection of a heap in which everything stays. -/
theorem Engine.Settled.collect_of_kept (hs : e.Settled ∅ X)
    (all : ∀ k, e.heap.isLive k = true → e.heap.Kept k) : e.collect = (0, e) := by
  obtain ⟨S, hS, result⟩ := hs.collect_eq
  have stain : e.heap.stain S = e.heap :=
    Heap.stain_of_live hs.sound fun k live => (hS k).2 (all k live)
  have garbage : (e.heap.stain S).garbage = [] := by
    refine List.eq_nil_iff_forall_not_mem.2 fun entry mem => ?_
    obtain ⟨live, goes⟩ := Heap.mem_map_garbage_stain.1 (List.mem_map_of_mem (f := (·.1)) mem)
    exact goes ((hS _).2 (all _ live))
  have outgoing : (e.heap.stain S).outgoing = [] := by rw [Heap.outgoing, garbage, List.flatMap_nil]
  have swept : e.swept S = e := by rw [Engine.swept, garbage, List.foldl_nil, stain]
  rw [result, garbage, outgoing, swept]
  rfl

theorem Engine.Settled.collects (hs : e.Settled ∅ X) :
    e.Collects e.collect.1 e.collect.2 := by
  obtain ⟨S, hS, result⟩ := hs.collect_eq_countDown
  have settled : e.collect.2.Settled ∅ X := hs.collect
  refine ⟨?_, ?_, ?_, ?_, ?_, ?_, ?_, e.frame_collect, ?_⟩
  · have size : e.collect.2.heap.slots.size = e.heap.slots.size := by
      rw [result]
      exact Heap.size_countDown.trans Engine.size_swept
    rw [Heap.map_fst_listed, size, Heap.staying, Heap.map_fst_listed, List.filter_filter]
    apply List.filter_congr
    intro k _
    classical
    rw [Bool.eq_iff_iff, hs.isLive_collect, Bool.and_eq_true, decide_eq_true_eq]
    exact ⟨fun kept => ⟨kept, kept.isLive⟩, And.left⟩
  · rw [result, ← Heap.map_fst_garbage_stain hS, List.length_map]
  · exact fun h o slot kept => hs.slot_collect_of_kept slot kept
  · exact fun h o slot => (settled.sound.live slot).1
  · exact fun h o slot goes => hs.slot_collect_of_garbage slot goes
  · intro h o slot
    have other : ¬ (e.heap.isLive h = true ∧ ¬ e.heap.Kept h) := by
      rintro ⟨live, -⟩
      rw [Heap.isLive, slot] at live
      cases live
    rw [hs.slot_collect_of_not_garbage other, slot]
    rfl
  · rw [result]
    exact Engine.diagnostics_foldl_discard
  · exact settled.collect_of_kept fun k live => hs.kept_collect (hs.isLive_collect.1 live)

end

/-- A collection in a run of a strict host is exact. -/
theorem Reached.collect_exact {limits : Limits} {s : Session} (reached : Reached .strict limits s) :
    s.engine.Collects s.engine.collect.1 s.engine.collect.2 :=
  reached.settled_strict.collects

/-- A host that closes a cycle of two objects, one of which it has adopted for a
while and the other of which refers to a third that the host keeps. -/
def abandonedCycle : List (Action × Bool) :=
  [(.makePlain Value.null, true), (.makePlain Value.null, true), (.makePlain Value.null, true),
    (.adopt (.reference 2), true), (.relinquish (.reference 2), true),
    (.retain (.reference 0), true), (.store (.reference 1) "keep" (.reference 0), true),
    (.store (.reference 1) "next" (.reference 2), true),
    (.store (.reference 2) "next" (.reference 1), true)]

theorem collect_exact_abandonedCycle : ∃ s, Reached .strict {} s ∧ s.engine.collect.1 = 2 ∧
    s.engine.countOf (.reference 0) = 2 ∧ s.engine.collect.2.countOf (.reference 0) = 1 ∧
      s.engine.collect.2.heap.isParked 2 = true ∧
        s.engine.Collects s.engine.collect.1 s.engine.collect.2 := by
  have run : ((Session.start {}).follow .strict abandonedCycle).any (fun s =>
      decide (s.engine.collect.1 = 2 ∧ s.engine.countOf (.reference 0) = 2 ∧
        s.engine.collect.2.countOf (.reference 0) = 1 ∧
          s.engine.collect.2.heap.isParked 2 = true)) = true := by
    decide +kernel
  obtain ⟨s, followed, facts⟩ := (Option.any_eq_true _ _).1 run
  obtain ⟨collected, before, after, parked⟩ := of_decide_eq_true facts
  have reached : Reached .strict {} s := Reached.start.follow followed
  exact ⟨s, reached, collected, before, after, parked, reached.collect_exact⟩

end CountedHeap
