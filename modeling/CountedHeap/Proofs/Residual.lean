import CountedHeap.Proofs.Adoption
import CountedHeap.Proofs.Fading

/-!
What a shutdown leaves. An object is there after the last collection if and only
if it is live when the shutdown is asked for and somebody has a hold on it: the
host, or a context that was closed and did not give back the registration that
was the last reference. What is reached from such an object is held too. The
report lists these objects and no others.
-/

namespace CountedHeap

/-- Whether somebody has a hold on an object when a session is shut down. -/
inductive Session.Holds (s : Session) : Handle → Prop
  | owned {h : Handle} (mem : h ∈ s.ledger) : s.Holds h
  | left {r : Leftover} (mem : r ∈ s.engine.shutdown.2.leftovers) (live : r.wasLive = true)
      (last : r.count = 1) : s.Holds r.target
  | within {h k : Handle} (holds : s.Holds h) (edge : k ∈ s.engine.heap.ownedBy h) : s.Holds k

section

variable {H H' : Heap} {e : Engine} {X : Multiset Handle} {h k : Handle} {o : Object}
  {s : Session}

/-! ### What stays is what it was -/

theorem Heap.Fades.live_of_live (fades : H.Fades H') (clean : H'.Sound 0 0) {o' : Object}
    (slot' : H'.slot k = .live o') :
    ∃ o, H.slot k = .live o ∧ o'.classId = o.classId ∧ o'.adopted = o.adopted ∧
      o'.payload = o.payload :=
  (slot' ▸ fades.slots k : (H.slot k).Fades (.live o')).live_of_live (clean.live slot').2.2

theorem Heap.isLive_of_mem_ownedBy (edge : k ∈ H.ownedBy h) : H.isLive h = true := by
  rw [Heap.ownedBy] at edge
  cases slot : H.slot h with
  | live o => exact Heap.isLive_iff.2 ⟨o, slot⟩
  | parked o => simp [slot, Slot.owned, Slot.live?] at edge
  | reclaimed => simp [slot, Slot.owned, Slot.live?] at edge

theorem Heap.Fades.ownedBy_eq (fades : H.Fades H') (clean : H'.Sound 0 0)
    (live : H'.isLive h = true) : H'.ownedBy h = H.ownedBy h := by
  obtain ⟨o', slot'⟩ := Heap.isLive_iff.1 live
  obtain ⟨o, slot, -, -, payload⟩ := fades.live_of_live clean slot'
  rw [Heap.ownedBy_of_live slot', Heap.ownedBy_of_live slot, payload]

/-! ### What the last collection keeps -/

/-- Nobody keeps an object at the last collection but the outside, a closed context
and other objects that are kept. -/
theorem Engine.Settled.holds_of_kept (hs : s.engine.Settled ∅ s.ledger)
    (hopen : s.engine.isClosed = false) (few : s.engine.contexts.size ≤ 0x100000000)
    (kept : s.engine.closeAll.heap.Kept k) : s.Holds k := by
  have closed : s.engine.closeAll.Settled ∅ s.ledger := hs.closeAll
  have none := Engine.anchors_closeAll hs.blameless.addressed few
  induction kept with
  | @seed h o slot owned =>
      have exact := closed.owned.exact h o (Heap.object?_of_live slot) (Finset.notMem_empty h)
      simp only [Engine.references, none, add_zero, Multiset.count_add] at exact
      by_cases mem : h ∈ s.ledger
      · exact .owned mem
      · have left : h ∈ s.engine.closeAll.abandoned := by
          have unowned := Multiset.count_eq_zero.2 mem
          exact Multiset.count_pos.1 (by omega)
        obtain ⟨r, hr, rfl⟩ := Engine.mem_abandoned.1 left
        have still : s.engine.closeAll.isClosed = false := Engine.isClosed_closeAll.trans hopen
        have live : r.wasLive = true := by
          rw [← closed.blameless.kept still r hr (Finset.notMem_empty _)]
          exact Heap.isLive_iff.2 ⟨o, slot⟩
        refine .left ?_ live (closed.blameless.spared r hr live)
        rw [Engine.leftovers_shutdown hopen]
        exact hr
  | child parent edge live ih =>
      refine .within ih ?_
      rw [← hs.fades_closeAll.ownedBy_eq closed.sound (Heap.isLive_of_mem_ownedBy edge)]
      exact edge

/-- Whatever somebody has a hold on stays. -/
theorem Engine.Settled.isLive_of_holds (hs : s.engine.Settled ∅ s.ledger)
    (hopen : s.engine.isClosed = false) (holds : s.Holds k)
    (live : s.engine.heap.isLive k = true) : s.engine.lastCollected.heap.isLive k = true := by
  have collected : s.engine.lastCollected.Settled ∅ s.ledger := hs.closeAll.collect
  have fades := hs.fades_lastCollected
  have stays {k : Handle} (owned : k ∈ s.ledger + s.engine.lastCollected.references)
      (live : s.engine.heap.isLive k = true) : s.engine.lastCollected.heap.isLive k = true := by
    obtain ⟨o, slot⟩ := Heap.isLive_iff.1 live
    obtain ⟨o', slot', -⟩ := fades.live_of_mem collected owned slot
    exact Heap.isLive_iff.2 ⟨o', slot'⟩
  induction holds with
  | owned mem => exact stays (Multiset.mem_add.2 (.inl mem)) live
  | @left r mem wasLive last =>
      have same : s.engine.lastCollected.frame = s.engine.closeAll.frame :=
        Engine.frame_collect _
      have still : s.engine.lastCollected.isClosed = false := by
        rw [isClosed_of_frame same, Engine.isClosed_closeAll, hopen]
      rw [Engine.leftovers_shutdown hopen, ← leftovers_of_frame same] at mem
      exact (collected.blameless.kept still r mem (Finset.notMem_empty _)).trans wasLive
  | @within h k holds edge ih =>
      have kept := ih (Heap.isLive_of_mem_ownedBy edge)
      rw [← fades.ownedBy_eq collected.sound kept] at edge
      refine stays (Multiset.mem_add.2 (.inr ?_)) live
      exact Multiset.mem_add.2 (.inl (Heap.mem_references.2 ⟨h, edge⟩))

theorem Engine.Settled.isLive_lastCollected (hs : s.engine.Settled ∅ s.ledger)
    (hopen : s.engine.isClosed = false) (few : s.engine.contexts.size ≤ 0x100000000) :
    s.engine.lastCollected.heap.isLive k = true ↔
      s.engine.heap.isLive k = true ∧ s.Holds k := by
  constructor
  · intro kept
    obtain ⟨o', slot'⟩ := Heap.isLive_iff.1 kept
    have clean : s.engine.lastCollected.heap.Sound 0 0 := hs.closeAll.collect.sound
    obtain ⟨o, slot, -⟩ := hs.fades_lastCollected.live_of_live clean slot'
    exact ⟨Heap.isLive_iff.2 ⟨o, slot⟩,
      hs.holds_of_kept hopen few (hs.closeAll.isLive_collect.1 kept)⟩
  · rintro ⟨live, holds⟩
    exact hs.isLive_of_holds hopen holds live

/-! ### The report -/

open Classical in
/-- The entries of the report, in the order of the list of live objects. -/
theorem Engine.Settled.residual_eq {C : Set Handle} (hs : s.engine.Settled ∅ s.ledger)
    (hopen : s.engine.isClosed = false) (few : s.engine.contexts.size ≤ 0x100000000)
    (marks : s.engine.Marks C) :
    s.engine.residual = (s.engine.heap.listed.filter fun (h, _) => s.Holds h).map fun (h, o) =>
      ⟨o.classId, s.engine.lastCollected.countOf (.reference h), decide (h ∈ C)⟩ := by
  have fades := hs.fades_lastCollected
  have clean : s.engine.lastCollected.heap.Sound 0 0 := hs.closeAll.collect.sound
  rw [Engine.residual, Heap.listed_eq, Heap.listed_eq, fades.size, List.map_filterMap,
    List.filter_filterMap, List.map_filterMap]
  refine List.filterMap_congr fun h _ => ?_
  by_cases kept : s.engine.lastCollected.heap.isLive h = true
  · obtain ⟨-, holds⟩ := (hs.isLive_lastCollected hopen few).1 kept
    obtain ⟨o', slot'⟩ := Heap.isLive_iff.1 kept
    obtain ⟨o, slot, classId, adopted, -⟩ := fades.live_of_live clean slot'
    have marked : decide (h ∈ C) = o.adopted := by
      rw [Bool.eq_iff_iff, decide_eq_true_iff]
      exact (marks.adopted h o (Heap.object?_of_live slot)).symm
    rw [slot', slot]
    simp [Slot.live?, Option.filter, holds, Residual.ofObject, classId, adopted, marked,
      Engine.countOf_of_object? (Heap.object?_of_live slot')]
  · have gone : (s.engine.lastCollected.heap.slot h).live? = none := by
      simpa [Heap.isLive, Slot.isLive] using kept
    rw [gone]
    cases slot : s.engine.heap.slot h with
    | live o =>
        -- It was live, so nobody had a hold on it.
        have loose : ¬ s.Holds h := fun holds =>
          kept ((hs.isLive_lastCollected hopen few).2 ⟨Heap.isLive_iff.2 ⟨o, slot⟩, holds⟩)
        simp [Slot.live?, Option.filter, loose]
    | parked o => rfl
    | reclaimed => rfl

/-- Nothing was put down to the host before. -/
theorem Engine.Settled.externalHold_shutdown (hs : e.Settled ∅ X) (hopen : e.isClosed = false) :
    e.shutdown.1.diagnostics.filter (·.blame = .externalHold) =
      if e.residual = [] then [] else [.leftBehind e.residual] := by
  have collected : e.lastCollected.Settled ∅ X := hs.closeAll.collect
  have before : e.lastCollected.diagnostics.toList.filter (·.blame = .externalHold) = [] := by
    rw [List.filter_eq_nil_iff]
    intro d mem
    simpa using (collected.blameless.excused d (Array.mem_toList_iff.1 mem)).2.1
  obtain ⟨finalized, cleared⟩ := e.reported.clear_eq
  rw [Engine.shutdown_eq hopen, cleared, Engine.reported]
  simp only [List.isEmpty_iff]
  split
  · exact before
  · rw [Engine.record, Array.toList_push, List.filter_append, before]
    rfl

end

/-! ### Runs of a strict host -/

section

variable {limits : Limits} {s : Session} {steps : List (Action × Bool)}

theorem Session.recorded_follow {d : Discipline} {s' : Session}
    (followed : s.follow d steps = some s') (recorded : s.engine.Recorded) :
    s'.engine.Recorded := by
  induction steps generalizing s with
  | nil => exact Option.some.inj followed ▸ recorded
  | cons step rest ih =>
      obtain ⟨a, booked⟩ := step
      rw [Session.follow] at followed
      split at followed
      · exact ih followed (recorded.perform a)
      · cases followed

open Classical in
/-- The report of a shutdown after a run of a strict host lists the live objects on
which somebody has a hold, in their order, each with its class, with its count after
the last collection and with whether the host ever claimed it. It blames the host
once if the list is not empty, with the right totals, and not at all otherwise. The
host has opened no more contexts than there are ids, so that a shutdown closes all. -/
theorem Session.residual_exact
    (followed : (Session.start limits).follow .strict steps = some s)
    (few : s.engine.contexts.size ≤ 0x100000000) :
    let residual := s.engine.shutdown.1.residual
    residual = ((s.engine.heap.listed.filter fun (h, _) => s.Holds h).map fun (h, o) =>
        ⟨o.classId, s.engine.lastCollected.countOf (.reference h), decide (h ∈ claimedIn steps)⟩) ∧
      s.engine.shutdown.1.diagnostics.filter (·.blame = .externalHold) =
        if residual = [] then []
        else [⟨.externalHold, .leftBehind residual.length (residual.countP (·.adopted))⟩] := by
  have reached : Reached .strict limits s := Reached.start.follow followed
  have hs := reached.settled_strict
  by_cases closed : s.engine.isClosed = true
  · have recorded := Session.recorded_follow followed (Engine.recorded_new limits)
    have unlisted : s.engine.heap.listed = [] := by
      rw [List.eq_nil_iff_forall_not_mem]
      rintro ⟨h, o⟩ mem
      have live := Heap.isLive_iff.2 ⟨o, Heap.mem_listed.1 mem⟩
      rw [recorded.closed closed h] at live
      cases live
    rw [Engine.shutdown, if_pos closed, unlisted]
    exact ⟨rfl, rfl⟩
  · have hopen : s.engine.isClosed = false := Bool.eq_false_iff.2 closed
    have same : s.engine.shutdown.1.residual = s.engine.residual := by
      rw [Engine.shutdown_eq hopen]
    rw [same]
    have marks := Session.marks_of_follow followed
    exact ⟨hs.residual_eq hopen few marks, hs.externalHold_shutdown hopen⟩

/-- A host that registers a string and gives its own reference back, keeps an array
with another string in it, claims an object once more than it lets go of it, and
gives back a last one. -/
def heldThreeWays : List (Action × Bool) :=
  [(.openContext 0, true), (.makeString "x", true), (.register 0 (.reference 7), true),
    (.release (.reference 7), true), (.makeArray Value.null #[], true), (.makeString "y", true),
    (.append (.reference 8) (.reference 9), true), (.makePlain Value.null, true),
    (.adopt (.reference 10), true), (.relinquish (.reference 10), true),
    (.makePlain Value.null, true), (.release (.reference 11), true)]

/-- The registered string, the array, the string in it and the object are left. -/
theorem residual_exact_heldThreeWays : ∃ s,
    (Session.start {}).follow .strict heldThreeWays = some s ∧
      s.engine.shutdown.1.residual.map (·.adopted) = [false, false, false, true] ∧
        s.engine.shutdown.1.diagnostics.filter (·.blame = .externalHold) =
          [⟨.externalHold, .leftBehind 4 1⟩] := by
  have run : ((Session.start {}).follow .strict heldThreeWays).any (fun s =>
      decide (s.engine.contexts.size ≤ 0x100000000 ∧
        s.engine.shutdown.1.residual.map (·.adopted) = [false, false, false, true])) = true := by
    decide +kernel
  obtain ⟨s, followed, facts⟩ := (Option.any_eq_true _ _).1 run
  obtain ⟨few, left⟩ := of_decide_eq_true facts
  obtain ⟨-, blamed⟩ := Session.residual_exact followed few
  have total : s.engine.shutdown.1.residual.length = 4 := by
    simpa using congrArg List.length left
  have adopted : s.engine.shutdown.1.residual.countP (·.adopted) = 1 := by
    have counted := congrArg (List.countP id) left
    rw [List.countP_map] at counted
    exact counted
  have some : s.engine.shutdown.1.residual ≠ [] := by
    intro none
    rw [none] at total
    cases total
  rw [if_neg some, total, adopted] at blamed
  exact ⟨s, followed, left, blamed⟩

end

end CountedHeap
