import CountedHeap.Proofs.Building

/-!
Steps of a building. Taking a reference and placing an object add to what was built;
giving back and collecting take away from it, and from what was there before. None of
them records anything: a host that gives back what it owns is not accused. An allocation
is refused only after a collection, so what is left then is no garbage.
-/

namespace CountedHeap

section

variable {e e' e₁ e₂ : Engine} {X Y : Multiset Handle}

/-! ### What is recorded -/

/-- Where nobody was accused of anything, nothing was recorded. -/
theorem Engine.NotesSurplus.diagnostics_eq (noted : e.NotesSurplus e') (hs : e'.Settled ∅ X) :
    e'.diagnostics = e.diagnostics := by
  obtain ⟨ds, added, surplus⟩ := noted
  have none : ds = [] := by
    refine List.eq_nil_iff_forall_not_mem.2 fun d mem => ?_
    have kept : d ∈ e'.diagnostics.toList := added ▸ List.mem_append_right _ mem
    obtain ⟨h, o, rfl⟩ := surplus d mem
    have misused := (hs.blameless.excused _ (Array.mem_toList_iff.1 kept)).2.2 h rfl
    exact Finset.notMem_empty h misused
  rw [none, List.append_nil] at added
  exact Array.toList_inj.1 added

theorem Engine.Settled.diagnostics_releaseReference {h : Handle} (hs : e.Settled ∅ (h ::ₘ X)) :
    (e.releaseReference h).diagnostics = e.diagnostics :=
  (Engine.heapWork_notesSurplus.slotWork.releaseReference e h).diagnostics_eq hs.releaseReference

theorem Engine.Settled.diagnostics_release {v : Value} (hs : e.Settled ∅ (v.refs + X)) :
    (e.release v).diagnostics = e.diagnostics := by
  cases v with
  | immediate w => rfl
  | reference h => exact Engine.Settled.diagnostics_releaseReference hs

/-! ### Steps of a building -/

theorem Engine.Building.refl (hs : e.Settled ∅ X) : e.Building X 0 e where
  settled := by rwa [zero_add]
  grown := ⟨Nat.le_refl _, fun _ _ => .refl _, fun k new => by
    rw [e.heap.slot_of_size_le new]
    trivial⟩
  young := fun h mem => absurd mem (Multiset.notMem_zero h)
  frame := rfl
  diagnostics := rfl

/-- A step that only takes away. -/
theorem Engine.Building.fade {Y' : Multiset Handle} (building : e.Building X Y e₁)
    (settled : e₂.Settled ∅ (Y' + X)) (fades : e₁.heap.Fades e₂.heap) (fewer : Y' ≤ Y)
    (frame : e₂.frame = e₁.frame) (diagnostics : e₂.diagnostics = e₁.diagnostics) :
    e.Building X Y' e₂ where
  settled := settled
  grown := by
    refine ⟨building.grown.size.trans fades.size.ge,
      fun k old => (building.grown.old k old).trans (fades.slots k), fun k new => ?_⟩
    have young := building.grown.young k new
    have step := fades.slots k
    cases slot₂ : e₂.heap.slot k with
    | live o₂ =>
        obtain ⟨o₁, slot₁, -, adopted, payload⟩ := fades.live_of_live settled.sound slot₂
        rw [slot₁] at young
        exact ⟨adopted.trans young.1, payload ▸ young.2⟩
    | parked o₂ =>
        rw [slot₂] at step
        cases slot₁ : e₁.heap.slot k with
        | live o₁ =>
            rw [slot₁] at young step
            cases step with
            | parks _ adopted _ => exact adopted.trans young.1
        | parked o₁ =>
            rw [slot₁] at young step
            cases step with
            | parked _ adopted _ => exact adopted.trans young
        | reclaimed =>
            rw [slot₁] at step
            cases step
    | reclaimed => trivial
  young := fun h mem => building.young h (Multiset.mem_of_le fewer mem)
  frame := frame.trans building.frame
  diagnostics := diagnostics.trans building.diagnostics

/-- A step that only takes away brings back no garbage. -/
theorem Engine.Pruned.fade (pruned : e.Pruned e₁) (fades : e₁.heap.Fades e₂.heap)
    (clean : e₂.heap.Sound 0 0) : e.Pruned e₂ := by
  intro k old live
  obtain ⟨o₂, slot₂⟩ := Heap.isLive_iff.1 live
  obtain ⟨o₁, slot₁, -⟩ := fades.live_of_live clean slot₂
  exact pruned k old (Heap.isLive_iff.2 ⟨o₁, slot₁⟩)

theorem Engine.Building.collect (building : e.Building X Y e') : e.Building X Y e'.collect.2 :=
  building.fade building.settled.collect building.settled.fades_collect (le_refl Y)
    (Engine.frame_collect e') building.settled.collects.diagnostics

/-- A collection leaves none of the garbage that there was at the beginning. -/
theorem Engine.Building.pruned_collect (building : e.Building X Y e') (hs : e.Settled ∅ X) :
    e.Pruned e'.collect.2 :=
  fun _ old live => building.kept hs (building.settled.isLive_collect.1 live) old

theorem Engine.Building.collectAtThreshold (building : e.Building X Y e') :
    e.Building X Y e'.collectAtThreshold := by
  have settled := building.settled.collectAtThreshold
  rw [Engine.collectAtThreshold] at settled ⊢
  by_cases full : e'.work.collecting = false ∧ e'.threshold ≤ e'.heap.liveCount
  · rw [if_pos full] at settled ⊢
    exact building.collect.fade settled (.refl _) (le_refl Y) rfl rfl
  · rw [if_neg full]
    exact building

theorem Engine.Building.makeRoom (building : e.Building X Y e') (size : Nat) :
    e.Building X Y (e'.makeRoom size) := by
  rw [Engine.makeRoom]
  split
  · exact building.collectAtThreshold.collect
  · exact building.collectAtThreshold

/-- There is too little room only after a collection. -/
theorem Engine.Building.pruned_makeRoom {size : Nat} (building : e.Building X Y e')
    (hs : e.Settled ∅ X) (short : ((e'.makeRoom size).exceeded? size).isSome = true) :
    e.Pruned (e'.makeRoom size) := by
  rw [Engine.makeRoom] at short ⊢
  by_cases before : (e'.collectAtThreshold.exceeded? size).isSome = true
  · rw [if_pos before]
    exact building.collectAtThreshold.pruned_collect hs
  · rw [if_neg before] at short
    exact absurd short before

theorem Engine.Building.release {v : Value} (building : e.Building X (v.refs + Y) e') :
    e.Building X Y (e'.release v) := by
  have hs := building.settled
  rw [add_assoc] at hs
  exact building.fade hs.release hs.fades_release (Multiset.le_add_left _ _)
    (e'.frame_release v) hs.diagnostics_release

/-- Giving back many is giving back one after the other. -/
theorem Engine.Building.releaseAll {vs : List Value} (building : e.Building X (refsOf vs + Y) e') :
    e.Building X Y (e'.releaseAll vs) := by
  rw [Engine.releaseAll]
  induction vs generalizing e' with
  | nil =>
      rw [refsOf_nil, zero_add] at building
      exact building
  | cons v rest ih =>
      rw [refsOf_cons, add_assoc] at building
      exact ih building.release

theorem Engine.abandon_eq (payload : Payload) :
    e.abandon payload = e.releaseAll payload.values := by
  rw [Engine.abandon, Engine.releaseAll, Payload.owned]
  induction payload.values generalizing e with
  | nil => rfl
  | cons v rest ih =>
      cases v with
      | immediate w => exact ih
      | reference h => exact ih

theorem Engine.Building.retain {v : Value} (building : e.Building X Y e')
    (held : ∀ h ∈ v.refs, h ∈ Y) (range : (e'.retain v).InRange) :
    e.Building X (v.refs + Y) (e'.retain v) := by
  cases v with
  | immediate w =>
      rw [Value.refs_immediate, zero_add]
      exact building
  | reference h =>
      have mem : h ∈ Y := held h (Multiset.mem_singleton_self h)
      have new := building.young h mem
      obtain ⟨o, found⟩ := building.settled.owned.named h
        (Multiset.mem_add.2 (.inl (Multiset.mem_add.2 (.inl mem))))
      obtain ⟨-, result⟩ := Engine.addReference_eq found range
      have settled := building.settled.retain (Engine.names_reference.2 ⟨o, found⟩) range
      rw [← add_assoc] at settled
      refine ⟨settled, ?_, ?_, (Engine.frame_retain range).trans building.frame, ?_⟩
      · have heap : (e'.retain (.reference h)).heap =
            e'.heap.update h fun o => { o with count := wrapCount (o.count + 1) } :=
          congrArg Engine.heap result
        rw [heap]
        refine ⟨building.grown.size.trans Heap.size_update.ge, fun k old => ?_, fun k young => ?_⟩
        · rw [Heap.slot_update, if_neg (old.trans_le new).ne]
          exact building.grown.old k old
        · have before := building.grown.young k young
          rw [Heap.slot_update]
          split
          · cases slot : e'.heap.slot k <;> rw [slot] at before <;> exact before
          · exact before
      · intro k mem
        rcases Multiset.mem_add.1 mem with new' | old
        · exact building.young k (held k new')
        · exact building.young k old
      · exact (congrArg Engine.diagnostics result).trans building.diagnostics

theorem Engine.Building.place {classId : ClassId} {payload : Payload}
    (building : e.Building X (↑payload.owned + Y) e') :
    e.Building X ((e'.place classId payload).1.refs + Y) (e'.place classId payload).2 := by
  have hs := building.settled
  rw [add_assoc] at hs
  have settled : (e'.place classId payload).2.Settled ∅ _ := hs.place
  rw [← add_assoc] at settled
  refine ⟨settled, ⟨?_, fun k old => ?_, fun k new => ?_⟩, ?_, building.frame,
    building.diagnostics⟩
  · rw [Engine.size_place]
    exact Nat.le_succ_of_le building.grown.size
  · rw [Engine.slot_place, if_neg (old.trans_le building.grown.size).ne]
    exact building.grown.old k old
  · rw [Engine.slot_place]
    split
    · rename_i last
      refine ⟨rfl, fun h mem => ?_⟩
      have owned : h ∈ (payload.owned : Multiset Handle) := mem
      obtain ⟨o, found⟩ := hs.owned.named h
        (Multiset.mem_add.2 (.inl (Multiset.mem_add.2 (.inl owned))))
      exact ⟨building.young h (Multiset.mem_add.2 (.inl owned)),
        last ▸ Heap.lt_size_of_object? found⟩
    · exact building.grown.young k new
  · intro h mem
    rcases Multiset.mem_add.1 mem with new | old
    · rw [Multiset.mem_singleton.1 new]
      exact building.grown.size
    · exact building.young h (Multiset.mem_add.2 (.inr old))

/-- What is left of a building that was given back is what a collection at the beginning
would have left, if there is no garbage. -/
theorem Engine.Building.same_collect (building : e.Building X 0 e') (pruned : e.Pruned e')
    (hs : e.Settled ∅ X) (hopen : e.isClosed = false) (booked : e.collect.2.heap.Booked 0)
    (booked' : e'.heap.Booked 0) : e.collect.2.heap.Same e'.heap := by
  have began := Engine.Building.refl hs
  exact Heap.same_of_slots booked booked' (Engine.Building.slot_eq hs hopen began.collect building
    (began.pruned_collect hs) pruned)

/-! ### Allocating -/

theorem Engine.allocate_eq {classId : ClassId} {payload : Payload} (hopen : e.isClosed = false) :
    e.allocate classId payload =
      match (e.makeRoom (headerSize + payload.size)).exceeded? (headerSize + payload.size) with
      | some limit => (.error (.outOfMemory limit (headerSize + payload.size)),
          (e.makeRoom (headerSize + payload.size)).abandon payload)
      | none => ((.ok ((e.makeRoom (headerSize + payload.size)).place classId payload).1),
          ((e.makeRoom (headerSize + payload.size)).place classId payload).2) := by
  rw [Engine.allocate, if_neg (Bool.eq_false_iff.1 hopen)]
  rfl

/-- Something more is built, or it is refused, and then no garbage is left. -/
structure Engine.Outcome {α : Type} (gained : Except Refusal α → Multiset Handle) (e : Engine)
    (X Y : Multiset Handle) (r : Except Refusal α × Engine) : Prop where
  building : e.Building X (gained r.1 + Y) r.2
  pruned : ∀ refusal, r.1 = .error refusal → e.Pruned r.2

theorem Engine.Building.allocate {classId : ClassId} {payload : Payload}
    (building : e.Building X (↑payload.owned + Y) e') (hs : e.Settled ∅ X)
    (hopen : e.isClosed = false) :
    Engine.Outcome handedOver e X Y (e'.allocate classId payload) := by
  have hopen' : e'.isClosed = false := (isClosed_of_frame building.frame).trans hopen
  have room := building.makeRoom (headerSize + payload.size)
  rw [Engine.allocate_eq hopen']
  split
  · rename_i limit short
    have pruned := building.pruned_makeRoom hs (Option.isSome_iff_exists.2 ⟨limit, short⟩)
    have owned := room.settled
    rw [add_assoc] at owned
    have abandoned :
        e.Building X Y ((e'.makeRoom (headerSize + payload.size)).abandon payload) := by
      rw [Engine.abandon_eq]
      exact room.releaseAll
    refine ⟨?_, fun _ _ => pruned.fade owned.fades_foldl_releaseReference abandoned.settled.sound⟩
    rw [handedOver, zero_add]
    exact abandoned
  · exact ⟨room.place, fun refusal same => by cases same⟩

end

end CountedHeap
