import CountedHeap.Proofs.Confluence
import Mathlib.Data.Finset.Card

/-!
What a collection answers, and what it ends. The answer is the number of garbage objects.
The references from garbage are given back at the end, and where the host has given back
too much on the bridge, they may be all that an object which stays still counts. It ends
then too, with whatever follows from it, and the answer does not tell.
-/

namespace CountedHeap

/-- The sets of objects that may end with the garbage of a collection although they stay:
with each set, everything whose count the references from the garbage and from the set
exhaust. -/
def Heap.lateExhaustions (H : Heap) : Set (Finset Handle) :=
  {F | (∀ h ∈ F, H.Kept h) ∧ ∀ h o, H.slot h = .live o → H.Kept h →
    o.count ≤ ((H.ownedByAll H.going + H.ownedIn F.val).count h : ℕ) → h ∈ F}

section

variable {H H' : Heap} {e : Engine} {S F : Finset Handle} {X : Multiset Handle} {h k : Handle}
  {o : Object}

/-! ### Counting live objects -/

theorem Heap.mem_map_listed : h ∈ H.listed.map (·.1) ↔ H.isLive h = true := by
  simp only [List.mem_map, Prod.exists, exists_and_right, exists_eq_right, Heap.mem_listed,
    Heap.isLive_iff]

theorem Heap.Booked.liveCount_eq (booked : H.Booked 0) :
    H.liveCount = (H.listed.map (·.1)).toFinset.card := by
  rw [List.toFinset_card_of_nodup H.nodup_listed, List.length_map]
  exact booked.accounted.liveCount

/-- Some live objects are live no longer. -/
theorem Heap.Booked.liveCount_add_card (booked : H.Booked 0) (booked' : H'.Booked 0)
    (live : ∀ h ∈ F, H.isLive h = true)
    (gone : ∀ h, H'.isLive h = true ↔ H.isLive h = true ∧ h ∉ F) :
    H'.liveCount + F.card = H.liveCount := by
  have sub : F ⊆ (H.listed.map (·.1)).toFinset :=
    fun h mem => List.mem_toFinset.2 (Heap.mem_map_listed.2 (live h mem))
  have rest : (H'.listed.map (·.1)).toFinset = (H.listed.map (·.1)).toFinset \ F := by
    ext h
    rw [Finset.mem_sdiff, List.mem_toFinset, List.mem_toFinset, Heap.mem_map_listed,
      Heap.mem_map_listed, gone]
  rw [booked'.liveCount_eq, booked.liveCount_eq, rest]
  exact Finset.card_sdiff_add_card_eq_card sub

theorem Engine.Unwound.isLive_iff {L : Multiset Handle} {e' : Engine}
    (unwound : e.Unwound L F e') (live : ∀ h ∈ F, e.heap.isLive h = true) (h : Handle) :
    e'.heap.isLive h = true ↔ e.heap.isLive h = true ∧ h ∉ F := by
  by_cases mem : h ∈ F
  · obtain ⟨o, slot⟩ := Heap.isLive_iff.1 (live h mem)
    rw [Heap.isLive, unwound.gone h mem o slot]
    simp only [mem, not_true_eq_false, and_false, iff_false]
    split <;> simp [Slot.isLive, Slot.live?]
  · rw [Heap.isLive, unwound.kept h mem, Slot.isLive_map, Heap.isLive]
    simp only [mem, not_false_eq_true, and_true]

/-! ### What the references from garbage do -/

theorem Heap.mem_going : h ∈ H.going ↔ H.isLive h = true ∧ ¬ H.Kept h := by
  classical
  rw [Heap.going, List.mem_filter, Heap.mem_map_listed, decide_eq_true_eq]

theorem Heap.nodup_going : H.going.Nodup :=
  H.nodup_listed.filter _

theorem Engine.ownedIn_swept (clean : e.heap.Sound 0 0) {L : Multiset Handle}
    (stays : ∀ h ∈ L, h ∈ S) : (e.swept S).heap.ownedIn L = e.heap.ownedIn L := by
  refine Multiset.bind_congr fun h mem => ?_
  rw [Heap.ownedBy, Engine.slot_swept clean.tidy, if_pos (stays h mem), Heap.ownedBy]

/-- After the sweep the references from garbage exhaust the same sets. -/
theorem Engine.exhaustions_swept (clean : e.heap.Sound 0 0) (hS : ∀ k, k ∈ S ↔ e.heap.Kept k) :
    (e.swept S).heap.exhaustions ↑(e.heap.stain S).outgoing = e.heap.lateExhaustions := by
  have live (h : Handle) : (e.swept S).heap.isLive h = true ↔ e.heap.Kept h := by
    rw [Heap.isLive_iff]
    simp only [Engine.slot_swept_eq_live clean, hS]
    exact ⟨fun ⟨o, kept, slot⟩ => kept, fun kept => by
      obtain ⟨o, slot⟩ := Heap.isLive_iff.1 kept.isLive
      exact ⟨o, kept, slot⟩⟩
  ext F
  simp only [Heap.exhaustions, Heap.lateExhaustions, Set.mem_ofPred_eq, live]
  refine and_congr_right fun kept => ?_
  have owned : (e.swept S).heap.ownedIn F.val = e.heap.ownedIn F.val :=
    Engine.ownedIn_swept clean fun h mem => (hS h).2 (kept h mem)
  have given (h : Handle) (stays : e.heap.Kept h) :
      (↑(e.heap.stain S).outgoing + (e.swept S).heap.ownedIn F.val).count h =
        (e.heap.ownedByAll e.heap.going + e.heap.ownedIn F.val).count h := by
    rw [Multiset.count_add, Multiset.count_add, owned, Heap.count_outgoing_stain clean,
      if_neg fun garbage => garbage.2 ((hS h).2 stays), Heap.lost_eq hS]
  simp only [Heap.Exhausts, Engine.slot_swept_eq_live clean, hS]
  constructor
  · intro closed h o slot stays enough
    exact closed h o ⟨stays, slot⟩ (given h stays ▸ enough)
  · rintro closed h o ⟨stays, slot⟩ enough
    exact closed h o slot stays (given h stays ▸ enough)

theorem Engine.booked_swept (booked : e.heap.Booked 0) : (e.swept S).heap.Booked 0 :=
  Engine.booked_foldl_discard booked.stain Heap.nodup_garbage Engine.live_garbage_stain

theorem Engine.liveCount_swept (clean : e.heap.Sound 0 0) (booked : e.heap.Booked 0)
    (hS : ∀ k, k ∈ S ↔ e.heap.Kept k) :
    (e.swept S).heap.liveCount + e.heap.going.length = e.heap.liveCount := by
  rw [← List.toFinset_card_of_nodup Heap.nodup_going]
  refine booked.liveCount_add_card (Engine.booked_swept booked) ?_ fun h => ?_
  · exact fun h mem => (Heap.mem_going.1 (List.mem_toFinset.1 mem)).1
  · rw [Heap.isLive_iff, List.mem_toFinset, Heap.mem_going, Heap.isLive_iff]
    simp only [Engine.slot_swept_eq_live clean, hS]
    constructor
    · rintro ⟨o, kept, slot⟩
      exact ⟨⟨o, slot⟩, fun goes => goes.2 kept⟩
    · rintro ⟨⟨o, slot⟩, stays⟩
      refine ⟨o, ?_, slot⟩
      by_contra goes
      exact stays ⟨⟨o, slot⟩, goes⟩

/-- A collection ends the garbage, and then whatever the references from it exhaust. -/
theorem Engine.Settled.exists_late {M : Finset Handle} (hs : e.Settled M X)
    (booked : e.heap.Booked 0) :
    ∃ S F : Finset Handle, (∀ k, k ∈ S ↔ e.heap.Kept k) ∧ IsLeast e.heap.lateExhaustions F ∧
      e.collect.1 = e.heap.going.length ∧ (∀ h ∈ F, (e.swept S).heap.isLive h = true) ∧
      (e.swept S).Unwound ↑(e.heap.stain S).outgoing F e.collect.2 := by
  obtain ⟨S, hS, result⟩ := hs.collect_eq
  have clean : e.heap.Sound 0 0 := hs.sound
  have swept := hs.swept hS
  obtain ⟨F, least, unwound⟩ := (swept.solvent (Engine.booked_swept booked)).unwound
  obtain ⟨D, run⟩ := Unwinding.run_foldl_releaseReference (R := 0) (W := 0) (E := 0) (D := 0)
    (Engine.Balanced.rested swept) (e.heap.stain S).outgoing
  rw [add_zero] at run
  refine ⟨S, F, hS, Engine.exhaustions_swept clean hS ▸ least, ?_, least.1.1, ?_⟩
  · rw [result, ← Heap.map_fst_garbage_stain hS, List.length_map]
  · rw [result]
    exact (unwound _ run ⟨rfl, rfl, rfl⟩).2

end

/-- The objects that a collection ends are the garbage, which it counts in its answer, and
the least set of objects that stay and whose counts the references from the garbage and
from the set exhaust, which it does not count. So the answer is the number of objects that
it ends exactly if every object that stays counts more references than the garbage has on
it. -/
theorem Reached.collect_count {limits : Limits} {s : Session} (reached : Reached .plain limits s) :
    ∃ F, IsLeast s.engine.heap.lateExhaustions F ∧
      s.engine.collect.1 = s.engine.heap.going.length ∧
      (∀ h, s.engine.collect.2.heap.isLive h = true ↔ s.engine.heap.Kept h ∧ h ∉ F) ∧
      s.engine.collect.2.heap.liveCount + s.engine.collect.1 + F.card =
        s.engine.heap.liveCount ∧
      (s.engine.collect.2.heap.liveCount + s.engine.collect.1 = s.engine.heap.liveCount ↔
        ∀ h o, s.engine.heap.slot h = .live o → s.engine.heap.Kept h →
          ((s.engine.heap.ownedByAll s.engine.heap.going).count h : ℕ) < o.count) := by
  have hs := reached.settled
  have clean : s.engine.heap.Sound 0 0 := hs.sound
  have booked := reached.booked.2
  obtain ⟨S, F, hS, least, answer, live, unwound⟩ := hs.exists_late booked
  have stay : (s.engine.swept S).heap.liveCount + s.engine.heap.going.length =
      s.engine.heap.liveCount := Engine.liveCount_swept clean booked hS
  have late : s.engine.collect.2.heap.liveCount + F.card = (s.engine.swept S).heap.liveCount :=
    (Engine.booked_swept booked).liveCount_add_card unwound.booked live (unwound.isLive_iff live)
  have total : s.engine.collect.2.heap.liveCount + s.engine.collect.1 + F.card =
      s.engine.heap.liveCount := by omega
  refine ⟨F, least, answer, fun h => ?_, total, ?_⟩
  · rw [unwound.isLive_iff live, Heap.isLive_iff]
    simp only [Engine.slot_swept_eq_live clean, hS, exists_and_left]
    exact and_congr_left' ⟨And.left, fun kept => ⟨kept, Heap.isLive_iff.1 kept.isLive⟩⟩
  · have none : F.card = 0 ↔ ∅ ∈ s.engine.heap.lateExhaustions := by
      rw [Finset.card_eq_zero]
      exact ⟨fun empty => empty ▸ least.1, fun closed => Finset.subset_empty.1 (least.2 closed)⟩
    have counted : s.engine.collect.2.heap.liveCount + s.engine.collect.1 =
        s.engine.heap.liveCount ↔ F.card = 0 := by omega
    rw [counted, none, Heap.lateExhaustions, Set.mem_ofPred_eq]
    simp only [Finset.notMem_empty, false_implies, implies_true, true_and, Finset.empty_val,
      Heap.ownedIn_zero, add_zero, imp_false, Int.not_le]

/-- A host that stores a string in an object that it keeps and in one that refers to itself,
lets the second go, and gives the string back on the bridge so often that it counts one
reference. -/
def overReleasedAndShared : List (Action × Bool) :=
  [(.makePlain Value.null, true), (.makeString "s", true), (.retain (.reference 1), true),
    (.store (.reference 0) "k" (.reference 1), true), (.makePlain Value.null, true),
    (.retain (.reference 2), true), (.store (.reference 2) "me" (.reference 2), true),
    (.store (.reference 2) "s" (.reference 1), true), (.release (.reference 2), true),
    (.relinquish (.reference 1), false)]

/-- The string ends with the object that refers to itself, and only one of the two is
counted. -/
theorem collect_count_overReleasedAndShared : ∃ s, Reached .plain {} s ∧
    s.engine.collect.1 = 1 ∧ s.engine.collect.2.heap.liveCount = 1 ∧
      s.engine.heap.liveCount = 3 ∧
      ∃ F, IsLeast s.engine.heap.lateExhaustions F ∧ F.card = 1 := by
  have run : ((Session.start {}).follow .plain overReleasedAndShared).any (fun s =>
      decide (s.engine.collect.1 = 1 ∧ s.engine.collect.2.heap.liveCount = 1 ∧
        s.engine.heap.liveCount = 3)) = true := by
    decide +kernel
  obtain ⟨s, followed, facts⟩ := (Option.any_eq_true _ _).1 run
  obtain ⟨answer, after, before⟩ := of_decide_eq_true facts
  have reached : Reached .plain {} s := Reached.start.follow followed
  obtain ⟨F, least, -, -, total, -⟩ := reached.collect_count
  exact ⟨s, reached, answer, after, before, F, least, by omega⟩

/-- So the answer of a collection is not always the number of objects that it ends. -/
theorem not_collect_counts_all : ¬ ∀ s, Reached .plain {} s →
    s.engine.collect.2.heap.liveCount + s.engine.collect.1 = s.engine.heap.liveCount := by
  intro all
  have run : ((Session.start {}).follow .plain overReleasedAndShared).any (fun s =>
      decide (s.engine.collect.2.heap.liveCount + s.engine.collect.1 ≠
        s.engine.heap.liveCount)) = true := by
    decide +kernel
  obtain ⟨s, followed, fewer⟩ := (Option.any_eq_true _ _).1 run
  exact of_decide_eq_true fewer (all s (Reached.start.follow followed))

end CountedHeap
