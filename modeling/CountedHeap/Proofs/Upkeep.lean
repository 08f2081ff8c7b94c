import CountedHeap.Proofs.Tidy

/-!
What a request leaves of the payloads. An object that is still live afterwards holds
what it held before, unless the request wrote into it, and then it holds what the
request says. Counting and collecting may end an object, but never touch what a live
one holds; so it is enough to know what the three requests that write do to the payload
of the one object they name.
-/

namespace CountedHeap

/-- Each object that is live in `H'` was live in `H` and holds what `w` made of its
payload, or it is new and has no properties. -/
structure Heap.Rewritten (w : Handle → Payload → Payload) (H H' : Heap) : Prop where
  size : H.slots.size ≤ H'.slots.size
  kept : ∀ {k : Handle} {o' : Object}, H'.slot k = .live o' → k < H.slots.size →
    ∃ o, H.slot k = .live o ∧ o'.classId = o.classId ∧ o'.payload = w k o.payload
  fresh : ∀ {k : Handle} {o' : Object}, H'.slot k = .live o' → H.slots.size ≤ k →
    o'.payload.properties = []

/-- Nothing is written into any object. -/
def Heap.Upkeep : Heap → Heap → Prop :=
  Heap.Rewritten fun _ p => p

/-- On a tidy heap nothing is written into any object, and the heap stays tidy. -/
def Engine.Preserves (e e' : Engine) : Prop :=
  e.heap.Tidy → e'.heap.Tidy ∧ e.heap.Upkeep e'.heap

section

variable {H H' H'' : Heap} {w : Handle → Payload → Payload} {h k : Handle} {o o' : Object}

/-! ### Payloads -/

/-- Each slot for itself, where no object is made. -/
theorem Heap.Rewritten.ofSlots (size : H'.slots.size = H.slots.size)
    (kept : ∀ k o', H'.slot k = .live o' →
      ∃ o, H.slot k = .live o ∧ o'.classId = o.classId ∧ o'.payload = w k o.payload) :
    H.Rewritten w H' where
  size := size.ge
  kept live _ := kept _ _ live
  fresh live outside := absurd (Heap.lt_size_of_live live) (by rw [size]; exact outside.not_gt)

theorem Heap.Upkeep.refl (H : Heap) : H.Upkeep H :=
  .ofSlots rfl fun _ o live => ⟨o, live, rfl, rfl⟩

/-- What was written is kept. -/
theorem Heap.Rewritten.trans (first : H.Rewritten w H') (later : H'.Upkeep H'') :
    H.Rewritten w H'' where
  size := first.size.trans later.size
  kept live inside := by
    obtain ⟨o', live', classId', payload'⟩ := later.kept live (inside.trans_le first.size)
    obtain ⟨o, before, classId, payload⟩ := first.kept live' inside
    exact ⟨o, before, classId'.trans classId, payload'.trans payload⟩
  fresh {k _} live outside := by
    by_cases inside : k < H'.slots.size
    · obtain ⟨o', live', -, payload⟩ := later.kept live inside
      rw [payload]
      exact first.fresh live' outside
    · exact later.fresh live (Nat.le_of_not_lt inside)

/-- Writing what is there already. -/
theorem Heap.Upkeep.rewritten (upkeep : H.Upkeep H')
    (same : ∀ k o, H.slot k = .live o → w k o.payload = o.payload) : H.Rewritten w H' where
  size := upkeep.size
  kept live inside := by
    obtain ⟨o, before, classId, payload⟩ := upkeep.kept live inside
    exact ⟨o, before, classId, payload.trans (same _ o before).symm⟩
  fresh := upkeep.fresh

/-- What is charged for is another matter. -/
theorem Heap.Rewritten.charged (rewritten : H.Rewritten w H') (slots : H''.slots = H'.slots) :
    H.Rewritten w H'' := by
  have same (k : Handle) : H''.slot k = H'.slot k := by rw [Heap.slot, slots, Heap.slot]
  refine ⟨slots ▸ rewritten.size, fun live inside => ?_, fun live outside => ?_⟩
  · exact rewritten.kept (same _ ▸ live) inside
  · exact rewritten.fresh (same _ ▸ live) outside

/-- An object that is there and is still live. -/
theorem Heap.Rewritten.payload_eq (rewritten : H.Rewritten w H') (before : H.slot k = .live o)
    (after : H'.slot k = .live o') : o'.classId = o.classId ∧ o'.payload = w k o.payload := by
  obtain ⟨_, before', same⟩ := rewritten.kept after (Heap.lt_size_of_live before)
  rw [before] at before'
  cases before'
  exact same

theorem Heap.rewritten_update {f : Object → Object} (classId : ∀ o, (f o).classId = o.classId)
    (payload : ∀ o, (f o).payload = w h o.payload) (other : ∀ k p, k ≠ h → w k p = p) :
    H.Rewritten w (H.update h f) := by
  refine .ofSlots Heap.size_update fun k o' live => ?_
  rw [Heap.slot_update] at live
  split at live
  · subst k
    cases slot : H.slot h <;> rw [slot] at live <;> cases live
    exact ⟨_, rfl, classId _, payload _⟩
  · rename_i differ
    exact ⟨o', live, rfl, (other k _ differ).symm⟩

theorem Heap.upkeep_update {f : Object → Object} (classId : ∀ o, (f o).classId = o.classId)
    (payload : ∀ o, (f o).payload = o.payload) : H.Upkeep (H.update h f) :=
  Heap.rewritten_update classId payload fun _ _ _ => rfl

theorem Heap.upkeep_disposed (slot : H.slot h = .live o) (dropped : List Handle) (size : Nat)
    (park : Bool) :
    H.Upkeep (((H.update h Object.release).countDown dropped).retire h size park) := by
  refine .ofSlots (Heap.size_disposed dropped size park) fun k o' live => ?_
  rw [Heap.slot_disposed slot] at live
  split at live
  · split at live <;> cases live
  · cases before : H.slot k <;> rw [before] at live <;> cases live
    exact ⟨_, rfl, rfl, rfl⟩

end

section

variable {C : Set Handle} {K : Prop} {e e' e'' : Engine} {h : Handle} {v : Value}

/-! ### Counting -/

theorem Engine.Preserves.refl (e : Engine) : e.Preserves e :=
  fun tidy => ⟨tidy, .refl _⟩

theorem Engine.Preserves.trans (first : e.Preserves e') (later : e'.Preserves e'') :
    e.Preserves e'' := by
  intro tidy
  obtain ⟨tidy', upkeep⟩ := first tidy
  obtain ⟨tidy'', upkeep'⟩ := later tidy'
  exact ⟨tidy'', upkeep.trans upkeep'⟩

theorem Engine.Preserves.ofHeap (heap : e'.heap = e.heap) : e.Preserves e' := by
  intro tidy
  rw [heap]
  exact ⟨tidy, .refl _⟩

/-- Of a single change only the payloads are in question. -/
theorem Engine.Change.preserves (change : Engine.Change C K e e')
    (upkeep : e.heap.Tidy → e.heap.Upkeep e'.heap) : e.Preserves e' :=
  fun tidy => ⟨change.tidy tidy, upkeep tidy⟩

theorem Engine.preserves_recount (h : Handle) (g : Object → Int) :
    e.Preserves (e.updateObject h fun o => { o with count := g o }) := by
  have change : Engine.Change ∅ False e _ := .recount h g
  exact change.preserves fun _ => Heap.upkeep_update (fun _ => rfl) fun _ => rfl

theorem Engine.preserves_addReference : e.Preserves (e.addReference h) := by
  rw [Engine.addReference]
  split
  · exact (Engine.Preserves.ofHeap (Engine.heap_checkCount _ _)).trans
      (Engine.preserves_recount h fun o => wrapCount (o.count + 1))
  · exact .ofHeap rfl

theorem Engine.preserves_dropReference : e.Preserves (e.dropReference h).2 := by
  rw [Engine.dropReference]
  split
  · split
    · exact Engine.preserves_recount h fun o => o.count - 1
    · exact .ofHeap rfl
  · exact .ofHeap rfl

theorem Engine.preserves_dispose : e.Preserves (e.dispose h).2 := by
  have change : Engine.Change ∅ False e _ := .dispose h
  refine change.preserves fun tidy => ?_
  by_cases live : e.heap.isLive h = true
  · obtain ⟨o, slot⟩ := Heap.isLive_iff.1 live
    obtain ⟨dropped, diagnostics, breaches, result⟩ := Engine.dispose_eq_of_live tidy slot
    rw [result]
    exact Heap.upkeep_disposed slot dropped o.size o.adopted
  · obtain ⟨breaches, result⟩ := Engine.dispose_eq_of_not_live tidy (Bool.eq_false_iff.2 live)
    rw [result]
    exact .refl _

theorem Engine.preserves_drain (queue : List Handle) : e.Preserves (e.drain queue) := by
  fun_induction Engine.drain e queue with
  | case1 e => exact .refl e
  | case2 e h rest zeroed e' step ih =>
      have first : e.Preserves (e.dispose h).2 := Engine.preserves_dispose
      rw [step] at first
      exact first.trans ih

theorem Engine.preserves_queueZero : e.Preserves (e.queueZero h) := by
  rw [Engine.queueZero]
  split
  · exact .ofHeap rfl
  · have begun : e.Preserves ((e.join [h]).setDraining true) := .ofHeap rfl
    rw [Engine.workOff_eq]
    exact (begun.trans (Engine.preserves_drain _)).trans (.ofHeap rfl)

theorem Engine.preserves_releaseReference : e.Preserves (e.releaseReference h) := by
  have first : e.Preserves (e.dropReference h).2 := Engine.preserves_dropReference
  rw [Engine.releaseReference]
  split <;> rename_i e' drop <;> rw [drop] at first
  · exact first.trans Engine.preserves_queueZero
  · exact first

theorem Engine.preserves_release : e.Preserves (e.release v) := by
  rw [Engine.release]
  split
  · exact Engine.preserves_releaseReference
  · exact .refl e

theorem Engine.preserves_foldl {α : Type} {f : Engine → α → Engine} (as : List α)
    (step : ∀ e a, Engine.Preserves e (f e a)) : e.Preserves (as.foldl f e) := by
  induction as generalizing e with
  | nil => exact .refl e
  | cons a rest ih => exact (step e a).trans ih

theorem Engine.preserves_relinquish : e.Preserves (e.relinquish (.reference h)).2 := by
  rw [Engine.relinquish]
  simp only [Value.handle?]
  split
  · exact .ofHeap rfl
  · rename_i o found
    have checked : e.Preserves (e.checkCount (o.count - 1)) :=
      .ofHeap (Engine.heap_checkCount _ _)
    have change : Engine.Change {h} False (e.checkCount (o.count - 1)) _ :=
      .claim (Set.mem_singleton h) fun _ => wrapCount (o.count - 1)
    have moved := change.preserves fun _ => Heap.upkeep_update (fun _ => rfl) fun _ => rfl
    refine (checked.trans moved).trans ?_
    rw [Engine.afterRelinquish]
    split
    · exact Engine.preserves_queueZero
    · split <;> exact .ofHeap rfl

/-! ### Collecting and allocating -/

theorem Engine.preserves_sweep : e.Preserves e.sweep := by
  have change : Engine.Change ∅ False e _ := .sweep
  refine change.preserves fun tidy => ?_
  obtain ⟨S, result⟩ := Engine.sweep_eq tidy
  rw [result]
  refine .ofSlots Engine.size_swept fun k o' live => ?_
  rw [Engine.slot_swept tidy] at live
  split at live
  · exact ⟨o', live, rfl, rfl⟩
  · cases slot : e.heap.slot k with
    | live o =>
        rw [slot, Slot.discard] at live
        split at live <;> cases live
    | parked o =>
        rw [slot] at live
        cases live
    | reclaimed =>
        rw [slot] at live
        cases live

theorem Engine.preserves_collect : e.Preserves e.collect.2 := by
  rw [Engine.collect]
  split
  · exact .refl e
  · have checked : e.Preserves (if e.heap.hasDangling then e.stray else e) := by
      split <;> exact .ofHeap rfl
    dsimp only
    generalize (if e.heap.hasDangling then e.stray else e) = e₁ at checked
    have begun : e.Preserves (e₁.setCollecting true) := checked.trans (.ofHeap rfl)
    have swept : (e₁.setCollecting true).Preserves _ := Engine.preserves_sweep
    exact ((begun.trans swept).trans
      (Engine.preserves_foldl _ fun _ _ => Engine.preserves_releaseReference)).trans (.ofHeap rfl)

theorem Engine.preserves_place {classId : ClassId} {payload : Payload} (hopen : e.isClosed = false)
    (fits : payload.Fits (ObjectClass.ofId classId)) (unwritten : payload.properties = []) :
    e.Preserves (e.place classId payload).2 := by
  have change : Engine.Change ∅ False e _ := .place hopen fits
  refine change.preserves fun _ => ?_
  refine ⟨Engine.size_place ▸ Nat.le_succ _, fun {k o'} live inside => ?_,
    fun {k o'} live outside => ?_⟩
  · rw [Engine.slot_place, if_neg inside.ne] at live
    exact ⟨o', live, rfl, rfl⟩
  · rw [Engine.slot_place] at live
    split at live
    · cases live
      exact unwritten
    · exact absurd (Heap.lt_size_of_live live) outside.not_gt

/-! ### Live objects -/

/-- What is read from an object, key by key. -/
def Engine.reads (e : Engine) (h : Handle) (key : String) : Value :=
  (e.fetch (.reference h) key).1

variable {f g : Payload → Payload} {o : Object}

theorem Engine.keysOf_of_live (slot : e.heap.slot h = .live o) :
    e.keysOf (.reference h) = o.payload.keys := by
  rw [Engine.keysOf, Engine.object?_of_live slot]

theorem Engine.slot_updatePayload (slot : e.heap.slot h = .live o) (f : Payload → Payload) :
    (e.updatePayload (.reference h) f).heap.slot h =
      .live { o with payload := f o.payload } := by
  show (e.heap.update h _).slot h = _
  rw [Heap.slot_update, if_pos rfl, slot]
  rfl

/-- A change of a payload is what it makes of the one that is there. -/
theorem Engine.updatePayload_congr (slot : e.heap.slot h = .live o)
    (same : f o.payload = g o.payload) :
    e.updatePayload (.reference h) f = e.updatePayload (.reference h) g := by
  have heap : (e.heap.update h fun o => { o with payload := f o.payload }) =
      e.heap.update h fun o => { o with payload := g o.payload } :=
    Heap.update_congr slot (by rw [same])
  exact congrArg (fun H => { e with heap := H }) heap

/-! ### Requests that do not write -/

theorem Engine.Turn.preserves (turn : Engine.Turn C K e e') : e.Preserves e' := by
  cases turn with
  | aside heap => exact .ofHeap heap
  | check n => exact .ofHeap (Engine.heap_checkCount _ _)
  | take h => exact Engine.preserves_addReference
  | give h => exact Engine.preserves_releaseReference
  | claim mem =>
      have change : Engine.Change C False e _ := .claim mem fun o => o.count
      exact change.preserves fun _ => Heap.upkeep_update (fun _ => rfl) fun _ => rfl
  | relinquish mem => exact Engine.preserves_relinquish
  | collect => exact Engine.preserves_collect
  | place hopen fits unwritten => exact Engine.preserves_place hopen fits unwritten
  | close closing =>
      have change : Engine.Change ∅ K e _ := .close closing
      refine change.preserves fun _ => ?_
      rw [Engine.heap_close]
      refine .ofSlots (by simp [Heap.clear]) fun k o' live => ?_
      rw [Heap.slot_clear] at live
      cases live

theorem Engine.Turns.preserves (turns : Engine.Turns C K e e') : e.Preserves e' := by
  induction turns with
  | refl => exact .refl e
  | tail _ turn ih => exact ih.trans turn.preserves

/-! ### Requests that write -/

/-- A payload without a property. -/
def Payload.erase (key : String) (p : Payload) : Payload :=
  p.setProperties (eraseKey key p.properties)

/-- What a request makes of the payload of an object. -/
def Action.written : Action → Handle → Payload → Payload
  | .store (.reference h) key v, k, p => if k = h then p.store key v else p
  | .erase (.reference h) key, k, p => if k = h then p.erase key else p
  | .append (.reference h) v, k, p => if k = h then p.append v else p
  | _, _, p => p

variable {key : String} {target : Value} {p : Payload}

theorem Payload.store_of_refused (refused : p.placement? key = none) : p.store key v = p := by
  cases p with
  | array proto items =>
      rw [Payload.placement?] at refused
      rw [Payload.store]
      split
      · rfl
      · rename_i i index
        simp only [index] at refused
        split at refused
        · cases refused
        · rename_i outside
          split at refused
          · cases refused
          · rename_i more
            rw [if_neg more, Array.setIfInBounds, dif_neg (by simpa using outside)]
  | string text => rfl
  | number d => rfl
  | released => rfl
  | _ =>
      rw [Payload.placement?_of_table rfl] at refused
      cases refused

theorem Payload.erase_of_absent (absent : findKey? p.properties key = none) :
    p.erase key = p := by
  have same : eraseKey key p.properties = p.properties := by
    rw [findKey?, Option.map_eq_none_iff, List.find?_eq_none] at absent
    exact List.eraseP_of_forall_not absent
  rw [Payload.erase, same]
  cases p <;> rfl

theorem Payload.append_of_other (other : p.isArray = false) : p.append v = p := by
  cases p with
  | array proto items => cases other
  | _ => rfl

theorem Engine.rewritten_updatePayload :
    e.heap.Rewritten (fun k p => if k = h then f p else p)
      (e.updatePayload (.reference h) f).heap :=
  Heap.rewritten_update (fun _ => rfl) (fun _ => (if_pos rfl).symm) fun _ _ differ => if_neg differ

/-- Where nothing is written, the named object held the same anyway. -/
theorem Engine.Preserves.rewritten (keeps : e.Preserves e') (tidy : e.heap.Tidy)
    (same : ∀ o, e.object? (.reference h) = some o → f o.payload = o.payload) :
    e.heap.Rewritten (fun k p => if k = h then f p else p) e'.heap := by
  refine (keeps tidy).2.rewritten fun k o slot => ?_
  split
  · subst k
    exact same o (Heap.object?_of_live slot)
  · rfl

theorem Engine.rewritten_store (tidy : e.heap.Tidy) :
    e.heap.Rewritten (Action.written (.store target key v)) (e.store target key v).2.heap := by
  cases target with
  | immediate w => exact (Engine.preserves_release tidy).2
  | reference h =>
      rw [Engine.store]
      split
      · rename_i refused
        refine Engine.preserves_release.rewritten tidy fun o found => ?_
        rw [found] at refused
        exact Payload.store_of_refused refused
      · rename_i old placed
        obtain ⟨o, found, -⟩ := Option.bind_eq_some_iff.1 placed
        exact Engine.rewritten_updatePayload.trans
          (Engine.preserves_release (tidy.updatePayload found Payload.bare_store)).2
      · exact Engine.rewritten_updatePayload.charged rfl

theorem Engine.rewritten_erase (tidy : e.heap.Tidy) :
    e.heap.Rewritten (Action.written (.erase target key)) (e.erase target key).2.heap := by
  cases target with
  | immediate w => exact Heap.Upkeep.refl _
  | reference h =>
      rw [Engine.erase]
      split
      · rename_i absent
        refine (Engine.Preserves.refl e).rewritten tidy fun o found => ?_
        rw [found] at absent
        exact Payload.erase_of_absent absent
      · rename_i old placed
        obtain ⟨o, found, -⟩ := Option.bind_eq_some_iff.1 placed
        have erased : e.heap.Rewritten (fun k p => if k = h then p.erase key else p)
            ((e.updatePayload (.reference h) (Payload.erase key)).shrink (propertySize key)).heap :=
          Engine.rewritten_updatePayload.charged rfl
        have stays : ((e.updatePayload (.reference h) (Payload.erase key)).shrink
            (propertySize key)).heap.Tidy :=
          tidy.updatePayload (f := Payload.erase key) found (Payload.bare_setProperties _)
        exact erased.trans (Engine.preserves_release stays).2

theorem Engine.rewritten_append (tidy : e.heap.Tidy) :
    e.heap.Rewritten (Action.written (.append target v)) (e.append target v).2.heap := by
  cases target with
  | immediate w => exact (Engine.preserves_release tidy).2
  | reference h =>
      rw [Engine.append]
      split
      · exact Engine.rewritten_updatePayload.charged rfl
      · rename_i other
        refine Engine.preserves_release.rewritten tidy fun o found => ?_
        rw [found] at other
        exact Payload.append_of_other (Bool.eq_false_iff.2 other)

/-- What any request writes. -/
theorem Engine.rewritten_perform (tidy : e.heap.Tidy) (a : Action) :
    e.heap.Rewritten a.written (e.perform a).2.heap := by
  by_cases quiet : a.writes = false
  · obtain ⟨e', finalizers, turns, result⟩ := Engine.turns_perform (e := e) quiet
    rw [result]
    refine (turns.preserves tidy).2.rewritten fun k o _ => ?_
    cases a <;> first | rfl | cases quiet
  · obtain ⟨e₁, heap, -, result⟩ := e.perform_cases a
    rw [← heap] at tidy ⊢
    rw [result]
    cases a with
    | store target key v =>
        rw [Engine.carryOut, snd_answered]
        exact Engine.rewritten_store tidy
    | erase target key => exact Engine.rewritten_erase tidy
    | append target v =>
        rw [Engine.carryOut, snd_answered]
        exact Engine.rewritten_append tidy
    | _ => exact absurd rfl quiet

end

end CountedHeap
