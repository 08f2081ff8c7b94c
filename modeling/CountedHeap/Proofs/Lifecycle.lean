import CountedHeap.Proofs.Accounting
import CountedHeap.Proofs.Finalization

/-!
The life of an object, whoever the host is. In the middle of a cascade an object
may be live without a count, or without a payload, and in the middle of a
collection it may carry a mark. When an operation is done nothing of that is left:
the queue is empty, every live object is counted and holds what objects of its
class hold, and every parked header is empty and known to the host. And an object
only ever goes one way: from live to parked, and from either to nothing.
-/

namespace CountedHeap

/-! ### Cascades -/

section

variable {e : Engine} {B Q : Multiset Handle} {h : Handle}

theorem Engine.sound_dropAll {found : List Handle} (hs : List Handle)
    (sound : e.heap.Sound B (↑found + Q)) :
    (e.dropAll found hs).2.heap.Sound B (↑(e.dropAll found hs).1 + Q) := by
  induction hs generalizing e found with
  | nil =>
      rw [Engine.dropAll, Multiset.coe_reverse]
      exact sound
  | cons h rest ih =>
      have step := Engine.sound_dropReference (h := h) sound
      rw [Engine.dropAll]
      split
      · rename_i e' drop
        rw [drop] at step
        apply ih
        rw [← Multiset.cons_coe, Multiset.cons_add]
        simpa using step
      · rename_i e' drop
        rw [drop] at step
        apply ih
        simpa using step

/-- The object at the front of the queue leaves the list, and those that lose their
last reference with it wait behind the others. -/
theorem Engine.sound_dispose (sound : e.heap.Sound 0 (h ::ₘ Q)) :
    (e.dispose h).2.heap.Sound 0 (↑(e.dispose h).1 + Q) := by
  obtain ⟨o, found, zero⟩ := sound.waiting h (by simp)
  rcases Heap.object?_eq_some.1 found with slot | slot
  · have fresh : o.freed = false := (sound.tidy.live slot).2
    have released : ((e.updateObject h Object.release).finalize h o).heap.Sound {h}
        (↑([] : List Handle) + Q) := by
      rw [Engine.heap_finalize, Multiset.coe_nil, zero_add]
      exact sound.release slot
    have dropped := Engine.sound_dropAll o.payload.owned released
    have retired := dropped.retire (Engine.slot_dropAll_released slot zero) o.size
    simp only [Engine.dispose, found, fresh, Bool.false_eq_true, if_false]
    exact retired
  · have freed : o.freed = true := (sound.tidy.parked slot).2.1
    simp only [Engine.dispose, found, freed, if_true, Multiset.coe_nil, zero_add]
    exact sound.skip slot

theorem Engine.sound_drain {queue : List Handle} (sound : e.heap.Sound 0 ↑queue) :
    (e.drain queue).heap.Sound 0 0 := by
  fun_induction Engine.drain e queue with
  | case1 e => exact sound
  | case2 e h rest zeroed e' step ih =>
      rw [← Multiset.cons_coe] at sound
      have disposed := Engine.sound_dispose sound
      rw [step] at disposed
      apply ih
      rw [enqueue_eq_append, ← Multiset.coe_add, add_comm]
      exact disposed

theorem Engine.sound_releaseReference (rested : e.Rested) (sound : e.heap.Sound 0 0) :
    (e.releaseReference h).heap.Sound 0 0 := by
  have dropped := Engine.sound_dropReference (h := h) sound
  rw [Engine.releaseReference_of_rested rested]
  split <;> rename_i e' drop <;> rw [drop] at dropped
  · exact Engine.sound_drain dropped
  · exact dropped

end

/-! ### Counts that stay in range -/

section

variable {C : Set Handle} {K : Prop} {e e' : Engine} {a : Action} {requests : List Action}

/-- That a count left its range is noted for good. -/
theorem Engine.Move.inRange (move : Engine.Move C K e e') (range : e'.InRange) : e.InRange := by
  cases move with
  | aside heap made finalized finalizers isClosed work countWrapped =>
      exact countWrapped.symm.trans range
  | check n => exact (Engine.inRange_checkCount.1 range).2
  | take h => exact Engine.inRange_of_retain (v := .reference h) range
  | give h => exact (inRange_of_frame (e.frame_releaseReference h)).1 range
  | claim mem => exact range
  | @relinquish h mem =>
      cases found : e.heap.object? h with
      | none =>
          simp only [Engine.relinquish, Value.handle?, found] at range
          exact range
      | some o =>
          obtain ⟨-, result⟩ := Engine.relinquish_eq found range
          rw [result, inRange_of_frame (Engine.frame_afterRelinquish _ _ _)] at range
          exact range
  | lengthen found bare size => exact range
  | shorten found bare size => exact range
  | collect => exact (inRange_of_frame e.frame_collect).1 range
  | place hopen fits => exact range
  | close closing =>
      obtain ⟨finalized, cleared⟩ := e.clear_eq
      rw [cleared] at range
      exact range

theorem Engine.inRange_of_perform (range : (e.perform a).2.InRange) : e.InRange := by
  obtain ⟨e', finalizers, moves, result⟩ := e.moves_perform a
  rw [result] at range
  exact moves.keep (P := fun e' => e'.InRange → e.InRange)
    (fun move back range => back (move.inRange range)) id range

theorem Engine.inRange_of_run (range : (e.run requests).2.InRange) : e.InRange :=
  Engine.run_keep (P := fun e' => e'.InRange → e.InRange)
    (fun _ _ back range => back (Engine.inRange_of_perform range)) id requests range

end

/-! ### Between two operations -/

/-- Nothing is under way, and as long as no count has left its range every header
is sound. -/
structure Engine.Steady (e : Engine) : Prop where
  idle : e.work = {}
  sound : e.InRange → e.heap.Sound 0 0

section

variable {C : Set Handle} {K : Prop} {e e' : Engine} {h : Handle} {o : Object}
  {f : Payload → Payload}

theorem Engine.Steady.rested (steady : e.Steady) : e.Rested :=
  Engine.rested_of_idle steady.idle

theorem Engine.Steady.releaseReference (steady : e.Steady) : (e.releaseReference h).Steady where
  idle := (Engine.work_releaseReference steady.rested).trans steady.idle
  sound range := Engine.sound_releaseReference steady.rested
    (steady.sound ((inRange_of_frame (e.frame_releaseReference h)).1 range))

theorem Engine.Steady.foldl_releaseReference (steady : e.Steady) (hs : List Handle) :
    (hs.foldl Engine.releaseReference e).Steady := by
  induction hs generalizing e with
  | nil => exact steady
  | cons h rest ih => exact ih steady.releaseReference

/-- A header changes in its count and its marks only, and a live one stays counted. -/
theorem Engine.Steady.recount {g : Object → Object} (steady : e.Steady) (hg : Object.Recounts g)
    (counted : e.InRange → ∀ o, e.heap.slot h = .live o → 0 < (g o).count) :
    (e.updateObject h g).Steady where
  idle := steady.idle
  sound range := (steady.sound range).recount hg (Multiset.notMem_zero h) (counted range)

theorem Engine.Steady.addReference (steady : e.Steady) : (e.addReference h).Steady := by
  cases found : e.heap.object? h with
  | none =>
      have missing : e.addReference h = e.stray := by rw [Engine.addReference, found]
      rw [missing]
      exact ⟨steady.idle, steady.sound⟩
  | some o =>
      have result : e.addReference h = (e.checkCount (o.count + 1)).updateObject h
          fun o => { o with count := wrapCount (o.count + 1) } := by
        rw [Engine.addReference, found]
      have checked : (e.checkCount (o.count + 1)).Steady := by
        refine ⟨?_, fun range => ?_⟩
        · rw [Engine.checkCount]
          split <;> exact steady.idle
        · rw [Engine.heap_checkCount]
          exact steady.sound (Engine.inRange_checkCount.1 range).2
      rw [result]
      refine checked.recount (Object.recounts_count _) fun range o' slot => ?_
      have fits := (Engine.inRange_checkCount.1 range).1
      obtain ⟨-, -, positive⟩ := (checked.sound range).live slot
      rw [Engine.heap_checkCount] at slot
      obtain rfl : o = o' := Option.some.inj (found.symm.trans (Heap.object?_of_live slot))
      show 0 < wrapCount (o.count + 1)
      rw [wrapCount_of_inRange fits]
      omega

theorem Engine.Steady.relinquish (steady : e.Steady) :
    (e.relinquish (.reference h)).2.Steady := by
  cases found : e.heap.object? h with
  | none =>
      simp only [Engine.relinquish, Value.handle?, found]
      exact ⟨steady.idle, steady.sound⟩
  | some o =>
      refine ⟨?_, fun range => ?_⟩
      · simp only [Engine.relinquish, Value.handle?, found]
        apply Engine.work_afterRelinquish
        rw [Engine.checkCount]
        split <;> exact steady.idle
      · obtain ⟨fits, result⟩ := Engine.relinquish_eq found range
        have before : e.InRange := by
          rw [result, inRange_of_frame (Engine.frame_afterRelinquish _ _ _)] at range
          exact range
        have sound := steady.sound before
        have recounts := Object.recounts_relinquish (o.count - 1)
        rw [result, Engine.afterRelinquish]
        by_cases last : o.count - 1 = 0
        · rw [if_pos last,
            Engine.queueZero_eq (show (e.updateObject h _).Rested from steady.rested)]
          apply Engine.sound_drain
          exact sound.enqueue recounts (Multiset.notMem_zero h) found last
        · have kept : (e.updateObject h fun o' =>
              { o'.adopt with count := o.count - 1 }).heap.Sound 0 0 := by
            apply sound.recount recounts (Multiset.notMem_zero h)
            intro o' slot
            obtain rfl : o = o' := Option.some.inj (found.symm.trans (Heap.object?_of_live slot))
            have positive := (sound.live slot).2.2
            show 0 < o.count - 1
            omega
          rw [if_neg last]
          split <;> exact kept

/-- What a live object holds does not matter, and a parked header holds nothing
before and after. -/
theorem Engine.Steady.updatePayload (steady : e.Steady) (found : e.heap.object? h = some o)
    (bare : (f o.payload).bare = o.payload.bare) (slots : e'.heap.slots =
      (e.heap.update h fun o => { o with payload := f o.payload }).slots)
    (work : e'.work = e.work) (range : e'.InRange → e.InRange) : e'.Steady := by
  refine ⟨work.trans steady.idle, fun fine => ?_⟩
  have sound := steady.sound (range fine)
  have slot : ∀ k, e'.heap.slot k =
      (e.heap.update h fun o => { o with payload := f o.payload }).slot k := by
    intro k
    rw [Heap.slot, Heap.slot, slots]
  refine ⟨fun k => ?_, fun k mem => ?_, Multiset.nodup_zero⟩
  · have before := sound.slots k
    rw [slot, Heap.slot_update]
    split
    · subst k
      rcases Heap.object?_eq_some.1 found with live | parked
      · obtain ⟨unmarked, fresh, positive⟩ := sound.live live
        rw [live]
        exact ⟨unmarked, .inl ⟨fresh, .inl positive⟩⟩
      · obtain ⟨unmarked, adopted, freed, empty⟩ := sound.parked parked
        rw [empty] at bare
        rw [parked]
        refine ⟨unmarked, adopted, freed, ?_⟩
        show f o.payload = .released
        rw [empty]
        exact Payload.bare_eq_released.1 bare
    · exact before
  · exact absurd mem (Multiset.notMem_zero k)

theorem Engine.Steady.collect (steady : e.Steady) : e.collect.2.Steady := by
  have checked : (if e.heap.hasDangling then e.stray else e).Steady := by
    split
    · exact ⟨steady.idle, steady.sound⟩
    · exact steady
  rw [Engine.collect_of_idle steady.idle]
  dsimp only
  generalize (if e.heap.hasDangling then e.stray else e) = e₁ at checked
  have swept : e₁.sweep.Steady := by
    refine ⟨(Engine.work_foldl_discard _ _).trans checked.idle, fun range => ?_⟩
    have sound := checked.sound (by
      rw [Engine.sweep, inRange_of_frame (Engine.frame_foldl_discard _ _)] at range
      exact range)
    obtain ⟨S, result⟩ := Engine.sweep_eq sound.tidy
    rw [result]
    exact Heap.Sound.swept sound
  exact swept.foldl_releaseReference _

theorem Engine.Move.steady (move : Engine.Move C K e e') (steady : e.Steady) : e'.Steady := by
  cases move with
  | aside heap made finalized finalizers isClosed work countWrapped =>
      refine ⟨work.trans steady.idle, fun range => ?_⟩
      rw [heap]
      exact steady.sound (countWrapped.symm.trans range)
  | check n =>
      refine ⟨?_, fun range => ?_⟩
      · rw [Engine.checkCount]
        split <;> exact steady.idle
      · rw [Engine.heap_checkCount]
        exact steady.sound (Engine.inRange_checkCount.1 range).2
  | take h => exact steady.addReference
  | give h => exact steady.releaseReference
  | claim mem =>
      refine steady.recount Object.recounts_adopt fun range o slot => ?_
      exact ((steady.sound range).live slot).2.2
  | relinquish mem => exact steady.relinquish
  | lengthen found bare size => exact steady.updatePayload found bare rfl rfl id
  | shorten found bare size => exact steady.updatePayload found bare rfl rfl id
  | collect => exact steady.collect
  | place hopen fits =>
      refine ⟨steady.idle, fun range => ⟨fun k => ?_, fun k mem => ?_, Multiset.nodup_zero⟩⟩
      · rw [Engine.slot_place]
        split
        · exact ⟨⟨rfl, rfl⟩, .inl ⟨rfl, .inl Int.one_pos⟩⟩
        · exact (steady.sound range).slots k
      · exact absurd mem (Multiset.notMem_zero k)
  | close closing =>
      obtain ⟨finalized, cleared⟩ := e.clear_eq
      rw [cleared]
      refine ⟨steady.idle, fun range => ⟨fun k => ?_, fun k mem => ?_, Multiset.nodup_zero⟩⟩
      · show (e.heap.clear.slot k).Sound _ _
        rw [Heap.slot_clear]
        trivial
      · exact absurd mem (Multiset.notMem_zero k)

theorem Engine.Steady.perform (steady : e.Steady) (a : Action) : (e.perform a).2.Steady := by
  obtain ⟨e', finalizers, moves, result⟩ := e.moves_perform a
  have kept : e'.Steady := moves.keep (fun move steady => move.steady steady) steady
  rw [result]
  exact ⟨kept.idle, kept.sound⟩

theorem Engine.steady_new (limits : Limits) : (Engine.new limits).Steady :=
  ⟨rfl, fun _ => ⟨fun _ => trivial, fun k mem => absurd mem (Multiset.notMem_zero k),
    Multiset.nodup_zero⟩⟩

/-! ### One way only -/

/-- How far an object has come: it is live at first, then it may be parked, and at
last there is nothing left of it. -/
def Slot.age : Slot → Nat
  | .live _ => 0
  | .parked _ => 1
  | .reclaimed => 2

/-- No object that was ever made goes back, and unless the engine is closed no
parked header goes away. -/
structure Heap.Ages (closes : Prop) (H H' : Heap) : Prop where
  size : H.slots.size ≤ H'.slots.size
  forward : ∀ h, h < H.slots.size → (H.slot h).age ≤ (H'.slot h).age
  parked : ¬ closes → ∀ h, H.isParked h = true → H'.isParked h = true

variable {H H' H'' : Heap} {s : Slot}

theorem Heap.lt_size_of_isParked (parked : H.isParked h = true) : h < H.slots.size := by
  by_contra outside
  rw [Heap.isParked, H.slot_of_size_le (by simpa using outside)] at parked
  cases parked

/-- Each slot ages for itself. -/
theorem Heap.Ages.ofSlots (size : H'.slots.size = H.slots.size)
    (forward : ∀ k, (H.slot k).age ≤ (H'.slot k).age)
    (parked : ∀ k, H.isParked k = true → H'.isParked k = true) : H.Ages K H' :=
  ⟨Nat.le_of_eq size.symm, fun k _ => forward k, fun _ k => parked k⟩

theorem Heap.Ages.refl (H : Heap) : H.Ages K H :=
  .ofSlots rfl (fun _ => Nat.le_refl _) fun _ => id

theorem Heap.Ages.trans (first : H.Ages K H') (later : H'.Ages K H'') : H.Ages K H'' where
  size := first.size.trans later.size
  forward h inside := (first.forward h inside).trans (later.forward h (inside.trans_le first.size))
  parked stays h was := later.parked stays h (first.parked stays h was)

@[simp] theorem Slot.age_map (s : Slot) (f : Object → Object) : (s.map f).age = s.age := by
  cases s <;> rfl

theorem Slot.age_le_discard (s : Slot) : s.age ≤ s.discard.age := by
  cases s with
  | live o => exact Nat.zero_le _
  | parked o => exact Nat.le_refl _
  | reclaimed => exact Nat.le_refl _

theorem Heap.ages_update (H : Heap) (h : Handle) (f : Object → Object) :
    H.Ages K (H.update h f) := by
  refine .ofSlots Heap.size_update (fun k => ?_) fun k parked => ?_
  · rw [Heap.slot_update]
    split <;> simp
  · rw [Heap.isParked, Heap.slot_update]
    split
    · rw [Slot.isParked_map]
      exact parked
    · exact parked

theorem Heap.ages_disposed (slot : H.slot h = .live o) (dropped : List Handle) (size : Nat)
    (park : Bool) :
    H.Ages K (((H.update h Object.release).countDown dropped).retire h size park) := by
  refine .ofSlots (Heap.size_disposed dropped size park) (fun k => ?_) fun k parked => ?_
  · rw [Heap.slot_disposed slot]
    split
    · subst k
      rw [slot]
      exact Nat.zero_le _
    · rw [Slot.age_map]
  · rw [Heap.isParked, Heap.slot_disposed slot]
    split
    · subst k
      rw [Heap.isParked, slot] at parked
      cases parked
    · rw [Slot.isParked_map]
      exact parked

theorem Engine.Change.ages (change : Engine.Change C K e e') (tidy : e.heap.Tidy) :
    e.heap.Ages K e'.heap := by
  cases change with
  | aside heap =>
      rw [heap]
      exact .refl _
  | recount h g => exact e.heap.ages_update h _
  | claim mem g => exact e.heap.ages_update _ _
  | @lengthen h o f n =>
      obtain ⟨size, forward, parked⟩ := e.heap.ages_update (K := K) h
        fun o => { o with payload := f o.payload }
      exact ⟨size, forward, parked⟩
  | @shorten h o f n =>
      obtain ⟨size, forward, parked⟩ := e.heap.ages_update (K := K) h
        fun o => { o with payload := f o.payload }
      exact ⟨size, forward, parked⟩
  | dispose h =>
      by_cases live : e.heap.isLive h = true
      · obtain ⟨o, slot⟩ := Heap.isLive_iff.1 live
        obtain ⟨dropped, diagnostics, breaches, result⟩ := Engine.dispose_eq_of_live tidy slot
        rw [result]
        exact Heap.ages_disposed slot dropped o.size o.adopted
      · obtain ⟨breaches, result⟩ :=
          Engine.dispose_eq_of_not_live tidy (Bool.eq_false_iff.2 live)
        rw [result]
        exact .refl _
  | sweep =>
      obtain ⟨S, result⟩ := Engine.sweep_eq tidy
      rw [result]
      refine .ofSlots Engine.size_swept (fun k => ?_) fun k parked => ?_
      · rw [Engine.slot_swept tidy]
        split
        · exact Nat.le_refl _
        · exact Slot.age_le_discard _
      · rw [Heap.isParked] at parked ⊢
        rw [Engine.slot_swept tidy]
        split
        · exact parked
        · cases slot : e.heap.slot k <;> rw [slot] at parked
          · cases parked
          · rfl
          · cases parked
  | place hopen fits =>
      refine ⟨Engine.size_place ▸ Nat.le_succ _, fun k inside => ?_, fun _ k parked => ?_⟩
      · rw [Engine.slot_place, if_neg (Nat.ne_of_lt inside)]
      · rw [Heap.isParked, Engine.slot_place,
          if_neg (Nat.ne_of_lt (Heap.lt_size_of_isParked parked))]
        exact parked
  | close closing =>
      rw [Engine.heap_close]
      refine ⟨Nat.le_of_eq (by simp [Heap.clear]), fun k _ => ?_, fun stays => absurd closing stays⟩
      rw [Heap.slot_clear]
      cases e.heap.slot k <;> simp [Slot.age]

/-- What one request does to the objects there are. -/
theorem Engine.ages_perform (tidy : e.heap.Tidy) (a : Action) :
    (e.perform a).2.heap.Tidy ∧ e.heap.Ages a.Closes (e.perform a).2.heap := by
  obtain ⟨e', finalizers, moves, result⟩ := e.moves_perform a
  rw [result]
  exact moves.changes.keep (P := fun e' => e'.heap.Tidy ∧ e.heap.Ages a.Closes e'.heap)
    (fun change holds => ⟨change.tidy holds.1, holds.2.trans (change.ages holds.1)⟩)
    ⟨tidy, .refl _⟩

theorem Heap.Ages.mono {K' : Prop} (ages : H.Ages K H') (weaker : K → K') : H.Ages K' H' :=
  ⟨ages.size, ages.forward, fun stays => ages.parked fun closes => stays (weaker closes)⟩

theorem Engine.ages_run (tidy : e.heap.Tidy) (requests : List Action) :
    e.heap.Ages (.shutdown ∈ requests) (e.run requests).2.heap := by
  induction requests generalizing e with
  | nil => exact .refl _
  | cons a rest ih =>
      obtain ⟨tidy', ages⟩ := Engine.ages_perform tidy a
      refine (ages.mono fun closes => ?_).trans ((ih tidy').mono fun later => ?_)
      · rw [← closes]
        exact List.mem_cons_self
      · exact List.mem_cons_of_mem a later

/-! ### Runs -/

/-- What holds between two operations. No object waits for its end, and neither a
cascade nor a collection is under way. A live object is counted and holds what
objects of its class hold, a parked header is empty, marked by the host and off the
list, and the numbers of both are known. -/
structure Engine.WellFormed (e : Engine) : Prop where
  waiting : e.work.waiting = []
  draining : e.work.draining = false
  collecting : e.work.collecting = false
  live : ∀ h o, (h, o) ∈ e.heap.listed → 0 < o.count ∧ o.freed = false ∧ o.marked = false ∧
    o.reached = false ∧ o.payload.Fits o.objectClass
  parked : ∀ h o, e.heap.slot h = .parked o → o.freed = true ∧ o.adopted = true ∧
    o.payload = .released ∧ h ∉ e.heap.listed.map (·.1)
  liveCount : e.heap.liveCount = e.heap.listed.length
  parkedCount : e.heap.parkedCount = e.heap.slots.countP Slot.isParked

theorem Payload.fits_of_bare {p q : Payload} {c : ObjectClass} (same : q.bare = p.bare)
    (fits : p.Fits c) : q.Fits c := by
  cases p <;> cases q <;> simp only [Payload.bare, reduceCtorEq] at same <;> exact fits

theorem Engine.Steady.wellFormed (steady : e.Steady) (recorded : e.Recorded)
    (accounted : e.heap.Accounted) (range : e.InRange) : e.WellFormed where
  waiting := by rw [steady.idle]
  draining := by rw [steady.idle]
  collecting := by rw [steady.idle]
  live h o listed := by
    rw [Heap.mem_listed] at listed
    obtain ⟨⟨marked, reached⟩, fresh, positive⟩ := (steady.sound range).live listed
    obtain ⟨m, made, classId, bare⟩ := recorded.kin h o listed
    have fits := recorded.fits h m made
    rw [Object.objectClass, ← classId] at fits
    exact ⟨positive, fresh, marked, reached, Payload.fits_of_bare bare fits⟩
  parked h o slot := by
    obtain ⟨-, adopted, freed, empty⟩ := (steady.sound range).parked slot
    refine ⟨freed, adopted, empty, fun mem => ?_⟩
    obtain ⟨⟨h', o'⟩, listed, rfl⟩ := List.mem_map.1 mem
    rw [Heap.mem_listed, slot] at listed
    cases listed
  liveCount := accounted.liveCount
  parkedCount := accounted.parkedCount

/-- Whoever makes which requests, as long as no count leaves its range the engine is
well-formed between any two of them, and whatever is requested next, an object only
goes from live to parked or to nothing, and a parked header goes away at shutdown
only. -/
theorem Engine.wellFormed_run (limits : Limits) (past future : List Action)
    (range : (((Engine.new limits).run past).2.run future).2.InRange) :
    (((Engine.new limits).run past).2.run future).2.WellFormed ∧
      ((Engine.new limits).run past).2.heap.Ages (.shutdown ∈ future)
        (((Engine.new limits).run past).2.run future).2.heap := by
  have recorded := (Engine.recorded_new limits).run past
  have steady : (((Engine.new limits).run past).2.run future).2.Steady :=
    Engine.run_keep (fun _ a steady => steady.perform a)
      (Engine.run_keep (fun _ a steady => steady.perform a) (Engine.steady_new limits) past) future
  have booked : ((Engine.new limits).run past).2.heap.Booked 0 :=
    (Engine.booked_run (Engine.recorded_new limits).tidy (Engine.booked_new limits) past).2
  have accounted := (Engine.booked_run recorded.tidy booked future).2.accounted
  exact ⟨steady.wellFormed (recorded.run future) accounted range,
    Engine.ages_run recorded.tidy future⟩

/-- The header of an over-released object counts again, and is given back once
more. -/
def revivedAndReleased : List Action :=
  [.makePlain Value.null, .relinquish (.reference 0), .relinquish (.reference 0),
    .retain (.reference 0), .retain (.reference 0), .release (.reference 0)]

theorem wellFormed_revivedAndReleased :
    ((Engine.new {}).run revivedAndReleased).2.heap.isParked 0 = true ∧
      (((Engine.new {}).run revivedAndReleased).2.run [.collect, .shutdown]).2.WellFormed ∧
        ((Engine.new {}).run revivedAndReleased).2.heap.Ages
          (.shutdown ∈ [Action.collect, .shutdown])
          (((Engine.new {}).run revivedAndReleased).2.run [.collect, .shutdown]).2.heap :=
  ⟨by decide +kernel, Engine.wellFormed_run {} revivedAndReleased [.collect, .shutdown]
    (by decide +kernel)⟩

end

end CountedHeap
