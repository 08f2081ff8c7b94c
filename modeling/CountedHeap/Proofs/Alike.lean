import CountedHeap.Proofs.Fading

/-!
Two engines that look alike from outside. The same requests may find more garbage
on one heap than on the other: its counts are higher then, and a release ends
fewer objects. But what is owned from outside or by an open context, and whatever
is reached from there through payloads, is live on both heaps and is the same
object there. Every move that requests are made of keeps it so. Giving back and
collecting may go a different way on each side, and a collection may be on one
side only; whatever adds a reference or changes a payload is done on both sides.
-/

namespace CountedHeap

/-- What is reached from the references in `X` through the payloads of live objects. -/
inductive Heap.Reaches (H : Heap) (X : Multiset Handle) : Handle → Prop
  | root {h : Handle} (mem : h ∈ X) : H.Reaches X h
  | within {h k : Handle} (reached : H.Reaches X h) (edge : k ∈ H.ownedBy h) : H.Reaches X k

/-- The objects that can be come by from outside, by way of the references `X` and
of the open contexts. -/
def Engine.Sees (X : Multiset Handle) (e : Engine) (h : Handle) : Prop :=
  e.heap.Reaches (X + e.anchors) h

/-- What a value refers to, if anything, is seen. -/
def Engine.InSight (X : Multiset Handle) (e : Engine) (v : Value) : Prop :=
  ∀ h ∈ v.refs, e.Sees X h

/-- Two slots hold the same live object, whatever its counts and its bits. -/
def Slot.Alike (s₁ s₂ : Slot) : Prop :=
  ∃ o₁ o₂, s₁ = .live o₁ ∧ s₂ = .live o₂ ∧ o₁.classId = o₂.classId ∧ o₁.payload = o₂.payload

/-- An engine that is not shut down and has no memory limit, while `X` is owned
outside. -/
structure Engine.Running (X : Multiset Handle) (e : Engine) : Prop where
  settled : e.Settled ∅ X
  hopen : e.isClosed = false
  unlimited : e.limits.memory = none

/-- Two engines that look alike to whoever owns the references `X`. -/
structure Engine.Alike (X : Multiset Handle) (e₁ e₂ : Engine) : Prop where
  first : e₁.Running X
  later : e₂.Running X
  size : e₂.heap.slots.size = e₁.heap.slots.size
  contexts : e₂.contexts = e₁.contexts
  seen : ∀ h, e₁.Sees X h → (e₁.heap.slot h).Alike (e₂.heap.slot h)

/-- Two results of an operation, on engines that look alike afterwards too. -/
structure Engine.Twin {α : Type} (gained : α → Multiset Handle) (X : Multiset Handle)
    (r₁ r₂ : α × Engine) : Prop where
  answer : r₂.1 = r₁.1
  alike : Engine.Alike (gained r₁.1 + X) r₁.2 r₂.2

/-- A change of a heap that leaves the live objects live and what they are. -/
structure Heap.Conserves (H H' : Heap) : Prop where
  size : H'.slots.size = H.slots.size
  live : ∀ k o, H.slot k = .live o →
    ∃ o', H'.slot k = .live o' ∧ o'.classId = o.classId ∧ o'.payload = o.payload

section

variable {H H' : Heap} {e e' e₁ e₂ e₁' e₂' : Engine} {X X' : Multiset Handle} {h k : Handle}
  {o : Object} {v : Value}

/-! ### One engine -/

theorem Heap.Reaches.mono (reached : H.Reaches X h) (more : ∀ k ∈ X, k ∈ X') :
    H.Reaches X' h := by
  induction reached with
  | root mem => exact .root (more _ mem)
  | within _ edge ih => exact .within ih edge

theorem Engine.Running.next (running : e.Running X) (settled : e'.Settled ∅ X')
    (isClosed : e'.isClosed = e.isClosed) (limits : e'.limits = e.limits) : e'.Running X' :=
  ⟨settled, isClosed.trans running.hopen, by rw [limits, running.unlimited]⟩

theorem Engine.Running.ofFrame (running : e.Running X) (settled : e'.Settled ∅ X')
    (frame : e'.frame = e.frame) : e'.Running X' :=
  running.next settled (isClosed_of_frame frame) (congrArg Frame.limits frame)

theorem Engine.Running.anchors_eq (running : e.Running X) (running' : e'.Running X')
    (contexts : e'.contexts = e.contexts) : e'.anchors = e.anchors :=
  Engine.anchors_congr contexts (running'.hopen.trans running.hopen.symm)

theorem Heap.Conserves.ofSlots (slots : H'.slots = H.slots) : H.Conserves H' := by
  refine ⟨congrArg Array.size slots, fun k o slot => ⟨o, ?_, rfl, rfl⟩⟩
  rw [Heap.slot, slots]
  exact slot

theorem Heap.Conserves.refl (H : Heap) : H.Conserves H :=
  .ofSlots rfl

theorem Heap.Conserves.update {f : Object → Object} (hf : Object.Recounts f)
    (classId : ∀ o, (f o).classId = o.classId) : H.Conserves (H.update h f) := by
  refine ⟨Heap.size_update, fun k o slot => ?_⟩
  rw [Heap.slot_update, slot]
  split
  · exact ⟨f o, rfl, classId o, hf.payload o⟩
  · exact ⟨o, rfl, rfl, rfl⟩

theorem Engine.conserves_retain : e.heap.Conserves (e.retain v).heap := by
  rw [Engine.retain]
  split
  · rw [Engine.addReference]
    split
    · rw [Engine.heap_updateObject, Engine.heap_checkCount]
      exact .update (Object.recounts_count _) fun _ => rfl
    · exact .refl _
  · exact .refl _

/-! ### Both engines -/

theorem Slot.Alike.symm {s₁ s₂ : Slot} (alike : s₁.Alike s₂) : s₂.Alike s₁ := by
  obtain ⟨o₁, o₂, slot₁, slot₂, classId, payload⟩ := alike
  exact ⟨o₂, o₁, slot₂, slot₁, classId.symm, payload.symm⟩

theorem Slot.Alike.owned_eq {s₁ s₂ : Slot} (alike : s₁.Alike s₂) : s₁.owned = s₂.owned := by
  obtain ⟨o₁, o₂, rfl, rfl, -, payload⟩ := alike
  rw [Slot.owned_live, Slot.owned_live, payload]

/-- It is enough to know a set of objects that takes in the roots, is closed under
references and agrees on both sides. -/
theorem Engine.Alike.of_closed {P : Handle → Prop} (first : e₁.Running X) (later : e₂.Running X)
    (size : e₂.heap.slots.size = e₁.heap.slots.size) (contexts : e₂.contexts = e₁.contexts)
    (roots : ∀ h ∈ X + e₁.anchors, P h)
    (slots : ∀ h, P h → (e₁.heap.slot h).Alike (e₂.heap.slot h) ∧ ∀ k ∈ e₁.heap.ownedBy h, P k) :
    Engine.Alike X e₁ e₂ := by
  refine ⟨first, later, size, contexts, fun h sees => ?_⟩
  have closed : P h := by
    induction sees with
    | root mem => exact roots _ mem
    | within _ edge ih => exact (slots _ ih).2 _ edge
  exact (slots h closed).1

theorem Engine.Alike.sees_symm (alike : Engine.Alike X e₁ e₂) (sees : e₂.Sees X h) :
    e₁.Sees X h := by
  rw [Engine.Sees, alike.first.anchors_eq alike.later alike.contexts] at sees
  induction sees with
  | root mem => exact .root mem
  | @within h k _ edge ih =>
      refine .within ih ?_
      rw [Heap.ownedBy, (alike.seen h ih).owned_eq]
      exact edge

theorem Engine.Alike.symm (alike : Engine.Alike X e₁ e₂) : Engine.Alike X e₂ e₁ :=
  ⟨alike.later, alike.first, alike.size.symm, alike.contexts.symm,
    fun h sees => (alike.seen h (alike.sees_symm sees)).symm⟩

/-! ### Taking away -/

/-- What fades on both sides leaves what somebody still owns. -/
theorem Engine.Alike.fade (alike : Engine.Alike X e₁ e₂) (first : e₁'.Running X')
    (later : e₂'.Running X') (fades₁ : e₁.heap.Fades e₁'.heap) (fades₂ : e₂.heap.Fades e₂'.heap)
    (contexts : e₂'.contexts = e₁'.contexts)
    (roots : ∀ h ∈ X' + e₁'.anchors, e₁.Sees X h) : Engine.Alike X' e₁' e₂' := by
  have size : e₂'.heap.slots.size = e₁'.heap.slots.size := by
    rw [fades₂.size, fades₁.size, alike.size]
  -- The objects that were seen and that something on each side still refers to.
  refine .of_closed (P := fun h => e₁.Sees X h ∧ h ∈ X' + e₁'.references ∧ h ∈ X' + e₂'.references)
    first later size contexts ?_ ?_
  · intro h mem
    refine ⟨roots h mem, ?_, ?_⟩
    · rw [Engine.references, add_left_comm]
      exact Multiset.mem_add.2 (.inr mem)
    · rw [Engine.references, first.anchors_eq later contexts, add_left_comm]
      exact Multiset.mem_add.2 (.inr mem)
  · rintro h ⟨sees, owned₁, owned₂⟩
    obtain ⟨o₁, o₂, slot₁, slot₂, classId, payload⟩ := alike.seen h sees
    obtain ⟨o₁', slot₁', classId₁, -, payload₁⟩ := fades₁.live_of_mem first.settled owned₁ slot₁
    obtain ⟨o₂', slot₂', classId₂, -, payload₂⟩ := fades₂.live_of_mem later.settled owned₂ slot₂
    have same : (e₁'.heap.slot h).Alike (e₂'.heap.slot h) :=
      ⟨o₁', o₂', slot₁', slot₂', by rw [classId₁, classId₂, classId],
        by rw [payload₁, payload₂, payload]⟩
    refine ⟨same, fun k edge => ⟨.within sees ?_, ?_, ?_⟩⟩
    · rw [Heap.ownedBy_of_live slot₁, ← payload₁, ← Heap.ownedBy_of_live slot₁']
      exact edge
    · refine Multiset.mem_add.2 (.inr (Multiset.mem_add.2 (.inl ?_)))
      exact Heap.mem_references.2 ⟨h, edge⟩
    · refine Multiset.mem_add.2 (.inr (Multiset.mem_add.2 (.inl (Heap.mem_references.2 ⟨h, ?_⟩))))
      rw [Heap.ownedBy, ← same.owned_eq]
      exact edge

theorem Engine.Sees.ofLess (mem : h ∈ X' + e.anchors) (less : ∀ h ∈ X', h ∈ X) : e.Sees X h := by
  refine .root ?_
  rcases Multiset.mem_add.1 mem with outside | anchored
  · exact Multiset.mem_add.2 (.inl (less h outside))
  · exact Multiset.mem_add.2 (.inr anchored)

theorem Engine.Alike.release (alike : Engine.Alike (v.refs + X) e₁ e₂) :
    Engine.Alike X (e₁.release v) (e₂.release v) := by
  have frame₁ := e₁.frame_release v
  have frame₂ := e₂.frame_release v
  refine alike.fade (alike.first.ofFrame alike.first.settled.release frame₁)
    (alike.later.ofFrame alike.later.settled.release frame₂) alike.first.settled.fades_release
    alike.later.settled.fades_release ?_ ?_
  · rw [contexts_of_frame frame₁, contexts_of_frame frame₂, alike.contexts]
  · intro h mem
    rw [Engine.anchors_of_frame frame₁] at mem
    exact .ofLess mem fun h outside => Multiset.mem_add.2 (.inr outside)

theorem Engine.Alike.releaseAll {vs : List Value} (alike : Engine.Alike (refsOf vs + X) e₁ e₂) :
    Engine.Alike X (e₁.releaseAll vs) (e₂.releaseAll vs) := by
  rw [Engine.releaseAll, Engine.releaseAll]
  induction vs generalizing e₁ e₂ with
  | nil =>
      rw [refsOf_nil, zero_add] at alike
      exact alike
  | cons v rest ih =>
      rw [refsOf_cons, add_assoc] at alike
      exact ih alike.release

/-! ### Moving references and contexts -/

/-- Whoever owns what was seen before sees the same objects as before. -/
theorem Engine.Alike.conserve (alike : Engine.Alike X e₁ e₂) (first : e₁'.Running X')
    (later : e₂'.Running X') (kept₁ : e₁.heap.Conserves e₁'.heap)
    (kept₂ : e₂.heap.Conserves e₂'.heap) (contexts : e₂'.contexts = e₁'.contexts)
    (roots : ∀ h ∈ X' + e₁'.anchors, e₁.Sees X h) : Engine.Alike X' e₁' e₂' := by
  have size : e₂'.heap.slots.size = e₁'.heap.slots.size := by
    rw [kept₂.size, kept₁.size, alike.size]
  refine .of_closed (P := e₁.Sees X) first later size contexts roots fun h sees => ?_
  obtain ⟨o₁, o₂, slot₁, slot₂, classId, payload⟩ := alike.seen h sees
  obtain ⟨o₁', slot₁', classId₁, payload₁⟩ := kept₁.live h o₁ slot₁
  obtain ⟨o₂', slot₂', classId₂, payload₂⟩ := kept₂.live h o₂ slot₂
  refine ⟨⟨o₁', o₂', slot₁', slot₂', ?_, ?_⟩, fun k edge => .within sees ?_⟩
  · rw [classId₁, classId₂, classId]
  · rw [payload₁, payload₂, payload]
  · rw [Heap.ownedBy_of_live slot₁, ← payload₁, ← Heap.ownedBy_of_live slot₁']
    exact edge

/-- Nothing happens on the heaps. -/
theorem Engine.Alike.aside (alike : Engine.Alike X e₁ e₂) (first : e₁'.Running X)
    (later : e₂'.Running X)
    (same₁ : (e₁'.heap.slots, e₁'.contexts) = (e₁.heap.slots, e₁.contexts))
    (same₂ : (e₂'.heap.slots, e₂'.contexts) = (e₂.heap.slots, e₂.contexts)) :
    Engine.Alike X e₁' e₂' := by
  obtain ⟨slots₁, contexts₁⟩ := Prod.mk.inj same₁
  obtain ⟨slots₂, contexts₂⟩ := Prod.mk.inj same₂
  refine alike.conserve first later (.ofSlots slots₁) (.ofSlots slots₂) ?_ ?_
  · rw [contexts₁, contexts₂, alike.contexts]
  · intro h mem
    rw [alike.first.anchors_eq first contexts₁] at mem
    exact .root mem

/-- A collection on one side makes no difference. -/
theorem Engine.Alike.collectFirst (alike : Engine.Alike X e₁ e₂) :
    Engine.Alike X e₁.collect.2 e₂ := by
  have frame : e₁.collect.2.frame = e₁.frame := e₁.frame_collect
  refine alike.fade (alike.first.ofFrame alike.first.settled.collect frame) alike.later
    alike.first.settled.fades_collect (.refl _) ?_ ?_
  · rw [contexts_of_frame frame, alike.contexts]
  · intro h mem
    rw [Engine.anchors_of_frame frame] at mem
    exact .root mem

theorem Engine.Alike.collectAtThresholdFirst (alike : Engine.Alike X e₁ e₂) :
    Engine.Alike X e₁.collectAtThreshold e₂ := by
  rw [Engine.collectAtThreshold]
  split
  · have collected := alike.collectFirst
    have settled := collected.first.settled
    exact collected.aside (collected.first.next (Engine.Balanced.congr settled) rfl rfl)
      collected.later rfl rfl
  · exact alike

theorem Engine.Alike.collectAtThreshold (alike : Engine.Alike X e₁ e₂) :
    Engine.Alike X e₁.collectAtThreshold e₂.collectAtThreshold :=
  alike.collectAtThresholdFirst.symm.collectAtThresholdFirst.symm

theorem Engine.InSight.names (sight : e₁.InSight X v) (alike : Engine.Alike X e₁ e₂) :
    e₁.Names v ∧ e₂.Names v := by
  refine ⟨fun h mem => ?_, fun h mem => ?_⟩
  · obtain ⟨o₁, o₂, slot₁, -⟩ := alike.seen h (sight h mem)
    exact ⟨o₁, Heap.object?_of_live slot₁⟩
  · obtain ⟨o₁, o₂, -, slot₂, -⟩ := alike.seen h (sight h mem)
    exact ⟨o₂, Heap.object?_of_live slot₂⟩

/-- Another reference on something that is seen, whichever way it is taken. -/
theorem Engine.Alike.take (alike : Engine.Alike X e₁ e₂) (sight : e₁.InSight X v)
    (settled₁ : e₁'.Settled ∅ (v.refs + X)) (settled₂ : e₂'.Settled ∅ (v.refs + X))
    (frame₁ : e₁'.frame = e₁.frame) (frame₂ : e₂'.frame = e₂.frame)
    (kept₁ : e₁.heap.Conserves e₁'.heap) (kept₂ : e₂.heap.Conserves e₂'.heap) :
    Engine.Alike (v.refs + X) e₁' e₂' := by
  refine alike.conserve (alike.first.ofFrame settled₁ frame₁) (alike.later.ofFrame settled₂ frame₂)
    kept₁ kept₂ ?_ ?_
  · rw [contexts_of_frame frame₁, contexts_of_frame frame₂, alike.contexts]
  · intro h mem
    rw [Engine.anchors_of_frame frame₁, add_assoc] at mem
    rcases Multiset.mem_add.1 mem with taken | before
    · exact sight h taken
    · exact .root before

theorem Engine.Alike.retain (alike : Engine.Alike X e₁ e₂) (sight : e₁.InSight X v)
    (range : (e₁.retain v).InRange ∧ (e₂.retain v).InRange) :
    Engine.Alike (v.refs + X) (e₁.retain v) (e₂.retain v) := by
  obtain ⟨named₁, named₂⟩ := sight.names alike
  exact alike.take sight (alike.first.settled.retain named₁ range.1)
    (alike.later.settled.retain named₂ range.2) (Engine.frame_retain range.1)
    (Engine.frame_retain range.2) Engine.conserves_retain Engine.conserves_retain

/-! ### New payloads and new objects -/

/-- A payload that is seen takes references from outside, or hands them over. -/
theorem Engine.Alike.updatePayload {f : Payload → Payload} (alike : Engine.Alike X e₁ e₂)
    (sees : e₁.Sees X h) (slot : e₁.heap.slot h = .live o)
    (moved : X' + ↑(f o.payload).owned = X + (o.payload.owned : Multiset Handle)) :
    Engine.Alike X' (e₁.updatePayload (.reference h) f) (e₂.updatePayload (.reference h) f) := by
  obtain ⟨o₁, o₂, slot₁, slot₂, classId, payload⟩ := alike.seen h sees
  obtain rfl := Slot.live.inj (slot.symm.trans slot₁)
  have first := alike.first.settled.updatePayload slot moved
  have later := alike.later.settled.updatePayload slot₂ (payload ▸ moved)
  have exchanged : ∀ k ∈ X' + ↑(f o.payload).owned, e₁.Sees X k := by
    intro k mem
    rw [moved] at mem
    rcases Multiset.mem_add.1 mem with outside | inside
    · exact .root (Multiset.mem_add.2 (.inl outside))
    · refine .within sees ?_
      rw [Heap.ownedBy_of_live slot]
      exact Multiset.mem_coe.1 inside
  refine .of_closed (P := e₁.Sees X) (alike.first.next first rfl rfl)
    (alike.later.next later rfl rfl) ?_ alike.contexts ?_ ?_
  · show (e₂.heap.update h _).slots.size = (e₁.heap.update h _).slots.size
    rw [Heap.size_update, Heap.size_update, alike.size]
  · intro k mem
    rcases Multiset.mem_add.1 mem with outside | anchored
    · exact exchanged k (Multiset.mem_add.2 (.inl outside))
    · exact .root (Multiset.mem_add.2 (.inr anchored))
  · intro k seen
    show ((e₁.heap.update h _).slot k).Alike ((e₂.heap.update h _).slot k) ∧
      ∀ k' ∈ (e₁.heap.update h _).ownedBy k, e₁.Sees X k'
    rw [Heap.ownedBy, Heap.slot_update, Heap.slot_update]
    by_cases same : k = h
    · subst k
      rw [if_pos rfl, if_pos rfl, slot, slot₂]
      refine ⟨⟨_, _, rfl, rfl, classId, congrArg f payload⟩, fun k' edge => ?_⟩
      exact exchanged k' (Multiset.mem_add.2 (.inr (Multiset.mem_coe.2 edge)))
    · rw [if_neg same, if_neg same]
      exact ⟨alike.seen k seen, fun k' edge => .within seen edge⟩

theorem Engine.Alike.grow (alike : Engine.Alike X e₁ e₂) (n : Nat) :
    Engine.Alike X (e₁.grow n) (e₂.grow n) :=
  alike.aside (alike.first.next (alike.first.settled.grow n) rfl rfl)
    (alike.later.next (alike.later.settled.grow n) rfl rfl) rfl rfl

theorem Engine.Alike.shrink (alike : Engine.Alike X e₁ e₂) (n : Nat) :
    Engine.Alike X (e₁.shrink n) (e₂.shrink n) :=
  alike.aside (alike.first.next (alike.first.settled.shrink n) rfl rfl)
    (alike.later.next (alike.later.settled.shrink n) rfl rfl) rfl rfl

/-- A new object has the same number on both sides. -/
theorem Engine.Alike.place {classId : ClassId} {payload : Payload}
    (alike : Engine.Alike (↑payload.owned + X) e₁ e₂) :
    Engine.Twin Value.refs X (e₁.place classId payload) (e₂.place classId payload) := by
  refine ⟨congrArg Value.reference alike.size, ?_⟩
  have next₁ : (e₁.place classId payload).2.heap.slots.size = e₁.heap.slots.size + 1 :=
    Engine.size_place
  have next₂ : (e₂.place classId payload).2.heap.slots.size = e₂.heap.slots.size + 1 :=
    Engine.size_place
  have later : (e₂.place classId payload).2.Settled ∅ ((e₁.place classId payload).1.refs + X) := by
    have placed : (e₂.place classId payload).2.Settled ∅ ((e₂.place classId payload).1.refs + X) :=
      alike.later.settled.place
    have same : (e₂.place classId payload).1 = (e₁.place classId payload).1 :=
      congrArg Value.reference alike.size
    rw [same] at placed
    exact placed
  refine .of_closed (P := fun h => e₁.Sees (↑payload.owned + X) h ∨ h = e₁.heap.slots.size)
    (alike.first.next alike.first.settled.place rfl rfl) (alike.later.next later rfl rfl)
    (by rw [next₁, next₂, alike.size]) alike.contexts ?_ ?_
  · intro h mem
    rw [add_assoc] at mem
    rcases Multiset.mem_add.1 mem with new | before
    · exact .inr (Multiset.mem_singleton.1 new)
    · left
      refine .root ?_
      rw [add_assoc]
      exact Multiset.mem_add.2 (.inr before)
  · intro h known
    rw [Heap.ownedBy, Engine.slot_place, Engine.slot_place, alike.size]
    by_cases new : h = e₁.heap.slots.size
    · rw [if_pos new, if_pos new]
      refine ⟨⟨_, _, rfl, rfl, rfl, rfl⟩, fun k edge => .inl (.root ?_)⟩
      rw [add_assoc]
      exact Multiset.mem_add.2 (.inl (Multiset.mem_coe.2 edge))
    · have seen := known.resolve_right new
      rw [if_neg new, if_neg new]
      exact ⟨alike.seen h seen, fun k edge => .inl (.within seen edge)⟩

theorem Engine.Alike.allocate {classId : ClassId} {payload : Payload}
    (alike : Engine.Alike (↑payload.owned + X) e₁ e₂) :
    Engine.Twin handedOver X (e₁.allocate classId payload) (e₂.allocate classId payload) := by
  have placed : Engine.Twin Value.refs X (e₁.collectAtThreshold.place classId payload)
      (e₂.collectAtThreshold.place classId payload) := alike.collectAtThreshold.place
  rw [Engine.allocate_of_unlimited classId payload alike.first.hopen alike.first.unlimited,
    Engine.allocate_of_unlimited classId payload alike.later.hopen alike.later.unlimited]
  exact ⟨congrArg Except.ok placed.answer, placed.alike⟩

/-! ### Contexts -/

/-- A context takes references from outside, or hands them over. -/
theorem Engine.Alike.updateContext {c : ContextId} {ctx : Context} {f : Context → Context}
    (alike : Engine.Alike X e₁ e₂) (found : e₁.contexts[c.toNat]? = some ctx)
    (hopen : ctx.isOpen = true) (same : (f ctx).id = ctx.id)
    (moved : X' + (f ctx).references = X + ctx.references) :
    Engine.Alike X' (e₁.updateContext c f) (e₂.updateContext c f) := by
  have found₂ : e₂.contexts[c.toNat]? = some ctx := by rw [alike.contexts, found]
  have first := alike.first.settled.updateContext found hopen same moved
  have later := alike.later.settled.updateContext found₂ hopen same moved
  refine alike.conserve (alike.first.next first rfl rfl) (alike.later.next later rfl rfl)
    (.refl _) (.refl _) ?_ ?_
  · rw [Engine.updateContext, Engine.updateContext, alike.contexts]
  · intro h mem
    rw [Engine.anchors_updateContext alike.first.hopen found moved] at mem
    exact .root mem

theorem Engine.Alike.pushContext {ctx : Context} (alike : Engine.Alike (ctx.references + X) e₁ e₂)
    (next : ctx.id = .ofNat e₁.contexts.size) :
    Engine.Alike X { e₁ with contexts := e₁.contexts.push ctx }
      { e₂ with contexts := e₂.contexts.push ctx } := by
  have next₂ : ctx.id = .ofNat e₂.contexts.size := by rw [alike.contexts, next]
  have first := alike.first.settled.pushContext alike.first.hopen next
  have later := alike.later.settled.pushContext alike.later.hopen next₂
  refine alike.conserve (alike.first.next first rfl rfl) (alike.later.next later rfl rfl)
    (.refl _) (.refl _) ?_ ?_
  · rw [alike.contexts]
  · intro h mem
    have total : X + (e₁.anchors + ctx.references) = ctx.references + X + e₁.anchors := by abel
    rw [Engine.anchors_pushContext alike.first.hopen, total] at mem
    exact .root mem

end

end CountedHeap
