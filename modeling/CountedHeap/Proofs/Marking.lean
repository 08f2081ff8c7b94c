import CountedHeap.Proofs.Balance
import Mathlib.Data.Finset.Lattice.Lemmas

/-!
What the scan of a collection finds. An object stays if it is owned from outside
the heap or if an object that stays refers to it; that is the least set with
these two properties, and the scan computes it. The module says so as an equation
between heaps: after the scan and the dismissal the heap is the one before it,
with a mark on each live object that does not stay.

The scan changes nothing but two bits of live headers. So the heaps in the middle
of it are described by the set of objects reached so far, and its invariant is
about that set and the stack.
-/

namespace CountedHeap

/-- A live object stays if its count exceeds the references on it from live
payloads, or if an object that stays refers to it. -/
inductive Heap.Kept (H : Heap) : Handle → Prop
  | seed {h : Handle} {o : Object} (slot : H.slot h = .live o)
      (owned : (H.references.count h : Int) < o.count) : H.Kept h
  | child {h k : Handle} (parent : H.Kept h) (edge : k ∈ H.ownedBy h) (live : H.isLive k = true) :
      H.Kept k

/-- A live object with a positive count. -/
def Heap.Counted (H : Heap) (h : Handle) : Prop :=
  ∃ o, H.slot h = .live o ∧ 0 < o.count

/-- A live object that is owned from outside the heap: its count exceeds the references on
it from live payloads. -/
def Heap.Rooted (H : Heap) (h : Handle) : Prop :=
  ∃ o, H.slot h = .live o ∧ (H.references.count h : Int) < o.count

/-- A live payload refers to a counted object. -/
def Heap.Leads (H : Heap) (h k : Handle) : Prop :=
  k ∈ H.ownedBy h ∧ H.Counted k

/-- A path of references leads from a root to the object. -/
def Heap.Linked (H : Heap) (k : Handle) : Prop :=
  ∃ h, H.Rooted h ∧ Relation.ReflTransGen H.Leads h k

/-- Changes the header of every live object, each in its own way. -/
def Heap.mapLiveIdx (H : Heap) (f : Handle → Object → Object) : Heap :=
  { H with slots := H.slots.mapIdx fun h s => s.mapLive (f h) }

/-- Every live object takes part in the pass, and those of `S` are reached. -/
def Heap.paint (H : Heap) (S : Finset Handle) : Heap :=
  H.mapLiveIdx fun h o => { o with marked := true, reached := decide (h ∈ S) }

/-- The live objects outside `S` are marked. -/
def Heap.stain (H : Heap) (S : Finset Handle) : Heap :=
  H.mapLiveIdx fun h o => { o with marked := !decide (h ∈ S) }

section

variable {H : Heap} {S : Finset Handle} {h k : Handle} {o : Object}

theorem Heap.isLive_iff : H.isLive h = true ↔ ∃ o, H.slot h = .live o := by
  rw [Heap.isLive]
  cases H.slot h <;> simp [Slot.isLive, Slot.live?]

theorem Heap.Kept.isLive (kept : H.Kept h) : H.isLive h = true := by
  cases kept with
  | seed slot _ => exact Heap.isLive_iff.2 ⟨_, slot⟩
  | child _ _ live => exact live

theorem Heap.Counted.isLive (counted : H.Counted h) : H.isLive h = true :=
  let ⟨o, slot, _⟩ := counted
  Heap.isLive_iff.2 ⟨o, slot⟩

theorem Heap.Rooted.counted (rooted : H.Rooted h) : H.Counted h := by
  obtain ⟨o, slot, owned⟩ := rooted
  exact ⟨o, slot, by omega⟩

theorem Heap.Linked.tail (linked : H.Linked h) (leads : H.Leads h k) : H.Linked k :=
  let ⟨root, rooted, path⟩ := linked
  ⟨root, rooted, path.tail leads⟩

theorem Heap.Linked.counted (linked : H.Linked k) : H.Counted k := by
  obtain ⟨h, rooted, path⟩ := linked
  cases path with
  | refl => exact rooted.counted
  | tail _ leads => exact leads.2

theorem Heap.Linked.kept (linked : H.Linked k) : H.Kept k := by
  obtain ⟨h, ⟨o, slot, owned⟩, path⟩ := linked
  induction path with
  | refl => exact .seed slot owned
  | tail _ leads ih => exact .child ih leads.1 leads.2.isLive

/-- Where every live object is counted, what stays is what is linked to a root. -/
theorem Heap.linked_iff_kept (clean : H.Sound 0 0) : H.Linked k ↔ H.Kept k := by
  refine ⟨Heap.Linked.kept, fun kept => ?_⟩
  induction kept with
  | seed slot owned => exact ⟨_, ⟨_, slot, owned⟩, .refl⟩
  | child _ edge live ih =>
      obtain ⟨o, slot⟩ := Heap.isLive_iff.1 live
      exact ih.tail ⟨edge, o, slot, (clean.live slot).2.2⟩

theorem Heap.mem_listed : (h, o) ∈ H.listed ↔ H.slot h = .live o := by
  simp only [Heap.listed, List.mem_filterMap, Prod.exists, List.mem_zipIdx_iff_getElem?,
    Option.map_eq_some_iff, Prod.mk.injEq]
  constructor
  · rintro ⟨s, i, found, content, live, rfl, rfl⟩
    rw [Heap.slot, Array.getD_eq_getD_getElem?, ← Array.getElem?_toList, found]
    cases s <;> simp_all [Slot.live?]
  · intro slot
    refine ⟨H.slot h, h, H.slots_getElem? ?_, o, by rw [slot]; rfl, rfl, rfl⟩
    exact Heap.lt_size_of_live slot

/-! ### Marks on live objects -/

theorem Heap.ext_slot {H' : Heap} (size : H'.slots.size = H.slots.size)
    (slots : ∀ k, H'.slot k = H.slot k) (liveCount : H'.liveCount = H.liveCount)
    (parkedCount : H'.parkedCount = H.parkedCount) (bytes : H'.bytes = H.bytes)
    (overdrawn : H'.overdrawn = H.overdrawn) : H' = H := by
  have same : H'.slots = H.slots := by
    apply Array.ext size
    intro k inside' inside
    have slot := slots k
    rw [Heap.slot, Heap.slot, Array.getD_eq_getD_getElem?, Array.getD_eq_getD_getElem?] at slot
    simpa [inside, inside'] using slot
  cases H
  cases H'
  simp only at *
  subst_vars
  rfl

theorem Heap.slot_mapLiveIdx (H : Heap) (f : Handle → Object → Object) (k : Handle) :
    (H.mapLiveIdx f).slot k = (H.slot k).mapLive (f k) := by
  simp only [Heap.mapLiveIdx, Heap.slot, Array.getD_eq_getD_getElem?, Array.getElem?_mapIdx]
  cases H.slots[k]? <;> rfl

theorem Heap.mapLiveIdx_congr {f g : Handle → Object → Object}
    (same : ∀ h o, H.slot h = .live o → f h o = g h o) : H.mapLiveIdx f = H.mapLiveIdx g := by
  refine Heap.ext_slot (by simp [Heap.mapLiveIdx]) (fun k => ?_) rfl rfl rfl rfl
  rw [Heap.slot_mapLiveIdx, Heap.slot_mapLiveIdx]
  cases slot : H.slot k with
  | live o => exact congrArg Slot.live (same k o slot)
  | parked o => rfl
  | reclaimed => rfl

theorem Heap.mapLive_mapLiveIdx (f : Handle → Object → Object) (g : Object → Object) :
    (H.mapLiveIdx f).mapLive g = H.mapLiveIdx fun h o => g (f h o) := by
  refine Heap.ext_slot (by simp [Heap.mapLiveIdx, Heap.mapLive]) (fun k => ?_) rfl rfl rfl rfl
  rw [Heap.slot_mapLive, Heap.slot_mapLiveIdx, Heap.slot_mapLiveIdx]
  cases H.slot k <;> rfl

theorem Heap.mapLive_eq_mapLiveIdx (f : Object → Object) :
    H.mapLive f = H.mapLiveIdx fun _ => f := by
  refine Heap.ext_slot (by simp [Heap.mapLiveIdx, Heap.mapLive]) (fun k => ?_) rfl rfl rfl rfl
  rw [Heap.slot_mapLive, Heap.slot_mapLiveIdx]

theorem Heap.enlist_eq (tidy : H.Tidy) : H.enlist = H.paint ∅ := by
  rw [Heap.enlist, Heap.mapLive_eq_mapLiveIdx]
  apply Heap.mapLiveIdx_congr
  intro h o slot
  obtain ⟨⟨-, reached⟩, -⟩ := tidy.live slot
  cases o
  simp_all

theorem Heap.dismiss_paint (tidy : H.Tidy) : (H.paint S).dismiss = H.stain S := by
  rw [Heap.dismiss, Heap.paint, Heap.mapLive_mapLiveIdx]
  apply Heap.mapLiveIdx_congr
  intro h o slot
  obtain ⟨⟨-, reached⟩, -⟩ := tidy.live slot
  by_cases hS : h ∈ S <;> cases o <;> simp_all

theorem Heap.slot_paint (k : Handle) : (H.paint S).slot k =
    (H.slot k).mapLive fun o => { o with marked := true, reached := decide (k ∈ S) } :=
  H.slot_mapLiveIdx _ k

@[simp] theorem Heap.ownedBy_paint (k : Handle) : (H.paint S).ownedBy k = H.ownedBy k := by
  rw [Heap.ownedBy, Heap.slot_paint, Heap.ownedBy]
  cases H.slot k <;> rfl

theorem Heap.references_paint : (H.paint S).references = H.references :=
  Heap.references_congr Heap.ownedBy_paint

theorem Heap.awaitsScan_paint (tidy : H.Tidy) (k : Handle) :
    ((H.paint S).slot k).awaitsScan = true ↔ H.Counted k ∧ k ∉ S := by
  rw [Heap.slot_paint, Heap.Counted]
  cases slot : H.slot k with
  | live o =>
      obtain ⟨-, fresh⟩ := tidy.live slot
      simp [Slot.mapLive, Slot.awaitsScan, Slot.object?, fresh, and_comm]
  | parked o =>
      obtain ⟨⟨marked, -⟩, -⟩ := tidy.parked slot
      simp [Slot.mapLive, Slot.awaitsScan, Slot.object?, marked]
  | reclaimed => simp [Slot.mapLive, Slot.awaitsScan, Slot.object?]

theorem Heap.reach_paint (live : H.isLive h = true) :
    (H.paint S).reach h = H.paint (insert h S) := by
  refine Heap.ext_slot (by simp [Heap.reach, Heap.paint, Heap.mapLiveIdx]) (fun k => ?_)
    rfl rfl rfl rfl
  rw [Heap.reach, Heap.slot_update, Heap.slot_paint, Heap.slot_paint]
  by_cases same : k = h
  · subst k
    rw [if_pos rfl]
    obtain ⟨o, slot⟩ := Heap.isLive_iff.1 live
    simp [slot, Slot.mapLive, Slot.map]
  · rw [if_neg same]
    simp [same]

end

/-! ### Trial deletion -/

section

variable (H : Heap)

theorem Heap.getD_deduct (scratch : Array Nat) (hs : List Handle) (k : Handle) :
    (H.deduct scratch hs).getD k 0 =
      scratch.getD k 0 - if H.isTracked k then (hs : Multiset Handle).count k else 0 := by
  induction hs generalizing scratch with
  | nil => simp [Heap.deduct]
  | cons h rest ih =>
      have step : H.deduct scratch (h :: rest) =
          H.deduct (if H.isTracked h then scratch.modify h (· - 1) else scratch) rest := rfl
      rw [step, ih, ← Multiset.cons_coe]
      by_cases same : k = h
      · subst k
        rw [Multiset.count_cons_self]
        cases tracked : H.isTracked h with
        | false => rfl
        | true =>
            simp only [if_true, Array.getD_eq_getD_getElem?, Array.getElem?_modify]
            cases scratch[h]? with
            | none => simp
            | some n =>
                simp only [Option.map_some, Option.getD_some]
                omega
      · rw [Multiset.count_cons_of_ne same]
        cases H.isTracked h with
        | false => rfl
        | true =>
            simp only [if_true, Array.getD_eq_getD_getElem?, Array.getElem?_modify,
              if_neg (Ne.symm same)]

theorem Heap.getD_foldl_deduct (scratch : Array Nat) (slots : List Slot) (k : Handle) :
    (slots.foldl (fun scratch s => H.deduct scratch s.owned) scratch).getD k 0 =
      scratch.getD k 0 - if H.isTracked k then
        ((slots.map fun s => (s.owned : Multiset Handle)).sum).count k else 0 := by
  induction slots generalizing scratch with
  | nil => simp
  | cons s rest ih =>
      rw [List.foldl_cons, ih, Heap.getD_deduct, List.map_cons, List.sum_cons, Multiset.count_add]
      split <;> omega

/-- What trial deletion leaves of a count. -/
theorem Heap.getD_trialCounts (k : Handle) :
    H.trialCounts.getD k 0 =
      (H.slot k).scratch - if H.isTracked k then H.references.count k else 0 := by
  rw [Heap.trialCounts, ← Array.foldl_toList, Heap.getD_foldl_deduct, ← Heap.references]
  congr 1
  simp only [Heap.slot, Array.getD_eq_getD_getElem?, Array.getElem?_map]
  cases H.slots[k]? <;> rfl

end

section

variable {H : Heap} {S : Finset Handle} {h k : Handle} {o : Object} {stack hs : List Handle}

theorem Heap.mem_seeds_paint (tidy : H.Tidy) : k ∈ (H.paint S).seeds ↔ H.Rooted k := by
  simp only [Heap.seeds, List.mem_map, List.mem_filter, Prod.exists, exists_and_right,
    exists_eq_right, Heap.mem_listed, Bool.and_eq_true, decide_eq_true_eq, Heap.getD_trialCounts,
    Heap.references_paint]
  rw [Heap.slot_paint, Heap.isTracked, Heap.object?, Heap.slot_paint, Heap.Rooted]
  cases slot : H.slot k with
  | live o =>
      obtain ⟨-, fresh⟩ := tidy.live slot
      simp only [Slot.mapLive, Slot.scratch, Slot.live?, Slot.object?, Option.any_some, fresh,
        Slot.live.injEq, exists_eq_left', Bool.not_false, Bool.and_self, if_true]
      omega
  | parked o => simp [Slot.mapLive]
  | reclaimed => simp [Slot.mapLive]

/-! ### The scan -/

/-- One step of the scan reaches exactly the counted ones among the objects it is given,
and pushes each of those that it is the first to reach. -/
theorem Heap.reachEach_paint (tidy : H.Tidy) (S : Finset Handle) (stack hs : List Handle) :
    ∃ pushed, (H.paint S).reachEach stack hs = (H.paint (S ∪ pushed.toFinset), pushed ++ stack) ∧
      pushed.Nodup ∧ ∀ k, k ∈ pushed ↔ k ∈ hs ∧ H.Counted k ∧ k ∉ S := by
  induction hs generalizing S stack with
  | nil => exact ⟨[], by simp [Heap.reachEach], List.nodup_nil, by simp⟩
  | cons h rest ih =>
      rw [Heap.reachEach]
      by_cases awaits : ((H.paint S).slot h).awaitsScan = true
      · -- This is the first time that `h` is reached.
        obtain ⟨counted, fresh⟩ := (Heap.awaitsScan_paint tidy h).1 awaits
        obtain ⟨pushed, result, nodup, mem⟩ := ih (insert h S) (h :: stack)
        have later : h ∉ pushed := fun again =>
          ((mem h).1 again).2.2 (Finset.mem_insert_self h S)
        refine ⟨pushed ++ [h], ?_, ?_, ?_⟩
        · rw [if_pos awaits, Heap.reach_paint counted.isLive, result, List.append_assoc,
            List.singleton_append]
          congr 2
          ext k
          simp only [Finset.mem_union, Finset.mem_insert, List.mem_toFinset, List.mem_append,
            List.mem_singleton]
          tauto
        · rw [List.nodup_append_comm]
          exact List.nodup_cons.2 ⟨later, nodup⟩
        · intro k
          rw [List.mem_append, List.mem_singleton, mem k, Finset.mem_insert, List.mem_cons]
          by_cases same : k = h
          · simp [same, counted, fresh]
          · simp [same]
      · -- Either `h` was reached before, or it is not counted.
        obtain ⟨pushed, result, nodup, mem⟩ := ih S stack
        refine ⟨pushed, by rw [if_neg awaits, result], nodup, fun k => ?_⟩
        rw [mem k, List.mem_cons]
        by_cases same : k = h
        · subst k
          have old : ¬ (H.Counted h ∧ h ∉ S) := fun both =>
            awaits ((Heap.awaitsScan_paint tidy h).2 both)
          tauto
        · simp [same]

/-- The loop that works off the stack of the scan: begun on `H` it stops with the last
heap, after it has pushed the given objects, the latest first. -/
inductive Heap.Scans : Heap → List Handle → List Handle → Heap → Prop
  | done {H : Heap} : Scans H [] [] H
  | pop {H H' H'' : Heap} {h : Handle} {rest pushed later : List Handle}
      (turn : H.reachEach rest (H.ownedBy h) = (H', pushed ++ rest))
      (goesOn : Scans H' (pushed ++ rest) later H'') : Scans H (h :: rest) (later ++ pushed) H''

/-- The invariant of the scan. What is reached is linked to a root, and the objects that a
reached one leads to are reached too, unless it is still on the stack. -/
structure Heap.Scanning (H : Heap) (S : Finset Handle) (stack : List Handle) : Prop where
  sound : ∀ k ∈ S, H.Linked k
  stacked : ∀ k ∈ stack, k ∈ S
  closed : ∀ h ∈ S, h ∉ stack → ∀ k, H.Leads h k → k ∈ S

theorem Heap.Scanning.step {rest pushed : List Handle} (hi : H.Scanning S (h :: rest))
    (mem : ∀ k, k ∈ pushed ↔ k ∈ H.ownedBy h ∧ H.Counted k ∧ k ∉ S) :
    H.Scanning (S ∪ pushed.toFinset) (pushed ++ rest) where
  sound k hk := by
    rw [Finset.mem_union, List.mem_toFinset, mem k] at hk
    rcases hk with old | ⟨edge, counted, -⟩
    · exact hi.sound k old
    · exact (hi.sound h (hi.stacked h List.mem_cons_self)).tail ⟨edge, counted⟩
  stacked k hk := by
    rw [Finset.mem_union, List.mem_toFinset]
    exact (List.mem_append.1 hk).symm.imp_left fun old => hi.stacked k (List.mem_cons_of_mem h old)
  closed j hj off k leads := by
    -- The one object that leaves the stack is `h`, and its references were just
    -- followed.
    rw [Finset.mem_union, List.mem_toFinset] at hj ⊢
    rw [List.mem_append, not_or] at off
    have old : j ∈ S := hj.resolve_right off.1
    by_cases same : j = h
    · subst j
      by_cases reached : k ∈ S
      · exact .inl reached
      · exact .inr ((mem k).2 ⟨leads.1, leads.2, reached⟩)
    · exact .inl (hi.closed j old (by simp [same, off.2]) k leads)

/-- The scan ends. It pushes no object that was reached before, and none twice. -/
theorem Heap.scans_paint (tidy : H.Tidy) {H' : Heap} (hH : H' = H.paint S)
    (hi : H.Scanning S stack) : ∃ pushed, H'.Scans stack pushed (H'.reachFrom stack) ∧
      H'.reachFrom stack = H.paint (S ∪ pushed.toFinset) ∧ pushed.Nodup ∧
        (∀ k ∈ pushed, k ∉ S) ∧ H.Scanning (S ∪ pushed.toFinset) [] := by
  fun_induction Heap.reachFrom H' stack generalizing S with
  | case1 H' =>
      refine ⟨[], .done, ?_, List.nodup_nil, fun k mem => absurd mem List.not_mem_nil, ?_⟩
      · simpa using hH
      · simpa using hi
  | case2 H' h rest H'' stack'' step ih =>
      subst hH
      obtain ⟨pushed, result, nodup, mem⟩ := H.reachEach_paint tidy S rest (H.ownedBy h)
      have turn := step
      rw [Heap.ownedBy_paint, result, Prod.mk.injEq] at step
      obtain ⟨rfl, rfl⟩ := step
      obtain ⟨later, scans, painted, nodup', fresh, done⟩ := ih rfl (hi.step mem)
      have union : S ∪ (later ++ pushed).toFinset = S ∪ pushed.toFinset ∪ later.toFinset := by
        rw [List.toFinset_append, Finset.union_assoc, Finset.union_comm pushed.toFinset]
      refine ⟨later ++ pushed, .pop turn scans, ?_, ?_, ?_, ?_⟩
      · rw [painted, union]
      · refine List.nodup_append'.2 ⟨nodup', nodup, fun k hk hk' => ?_⟩
        exact fresh k hk (Finset.mem_union_right _ (List.mem_toFinset.2 hk'))
      · intro k hk
        rcases List.mem_append.1 hk with hk | hk
        · exact fun old => fresh k hk (Finset.mem_union_left _ old)
        · exact ((mem k).1 hk).2.2
      · rw [union]
        exact done

theorem Heap.foldl_reach_paint (live : ∀ k ∈ hs, H.isLive k = true) :
    hs.foldl Heap.reach (H.paint S) = H.paint (S ∪ hs.toFinset) := by
  induction hs generalizing S with
  | nil =>
      rw [List.toFinset_nil, Finset.union_empty]
      rfl
  | cons h rest ih =>
      rw [List.foldl_cons, Heap.reach_paint (live h List.mem_cons_self),
        ih fun k hk => live k (List.mem_cons_of_mem h hk)]
      congr 1
      ext k
      simp

/-- The scan reaches exactly what is linked to a root. It begins with the roots on the
stack, and pushes no object that was on it before. -/
theorem Heap.Tidy.scan_eq (tidy : H.Tidy) : ∃ (S : Finset Handle) (pushed : List Handle),
    (∀ k, k ∈ S ↔ H.Linked k) ∧ H.enlist.scan = H.paint S ∧
      Heap.Scans (H.enlist.seeds.foldl Heap.reach H.enlist) H.enlist.seeds.reverse pushed
        H.enlist.scan ∧
      pushed.Nodup ∧ (∀ k ∈ pushed, k ∉ H.enlist.seeds) ∧ ∀ k ∈ pushed, H.Linked k := by
  have seeds := fun k => H.mem_seeds_paint (S := ∅) (k := k) tidy
  have live : ∀ k ∈ (H.paint ∅).seeds, H.isLive k = true :=
    fun k hk => ((seeds k).1 hk).counted.isLive
  have mem (k : Handle) : k ∈ ∅ ∪ (H.paint ∅).seeds.toFinset ↔ H.Rooted k := by
    rw [Finset.empty_union, List.mem_toFinset, seeds]
  -- At the start the seeds are reached, and all of them are on the stack.
  have start : H.Scanning (∅ ∪ (H.paint ∅).seeds.toFinset) (H.paint ∅).seeds.reverse := by
    refine ⟨fun k hk => ⟨k, (mem k).1 hk, .refl⟩, fun k hk => ?_, fun k hk off => ?_⟩
    · rw [mem, ← seeds]
      exact List.mem_reverse.1 hk
    · rw [mem, ← seeds] at hk
      exact absurd (List.mem_reverse.2 hk) off
  obtain ⟨pushed, scans, painted, nodup, fresh, done⟩ :=
    Heap.scans_paint tidy (Heap.foldl_reach_paint live) start
  rw [Heap.enlist_eq tidy]
  refine ⟨_, pushed, fun k => ⟨done.sound k, ?_⟩, painted, scans, nodup, fun k hk => ?_,
    fun k hk => done.sound k (Finset.mem_union_right _ (List.mem_toFinset.2 hk))⟩
  · rintro ⟨h, root, path⟩
    induction path with
    | refl => exact Finset.mem_union_left _ ((mem h).2 root)
    | tail _ leads ih => exact done.closed _ ih List.not_mem_nil _ leads
  · rw [seeds, ← mem]
    exact fresh k hk

/-- The scan reaches exactly what stays, and what is not reached keeps its mark. -/
theorem Heap.scan_eq (clean : H.Sound 0 0) :
    ∃ S : Finset Handle, (∀ k, k ∈ S ↔ H.Kept k) ∧ H.enlist.scan.dismiss = H.stain S := by
  obtain ⟨S, pushed, linked, scan, -⟩ := clean.tidy.scan_eq
  refine ⟨S, fun k => (linked k).trans (Heap.linked_iff_kept clean), ?_⟩
  rw [scan, Heap.dismiss_paint clean.tidy]

end

end CountedHeap
