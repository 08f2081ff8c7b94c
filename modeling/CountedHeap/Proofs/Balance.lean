import CountedHeap.Proofs.Frame
import CountedHeap.Proofs.References
import Mathlib.Data.Finset.Basic

/-!
The count discipline. The count of an object is the number of references on it:
those that the engine itself holds and those that somebody outside owns. The
invariant takes the outside owners as a parameter, a multiset of handles, so
that every operation can be described by what it takes from them and what it
hands to them, and descriptions compose.

Two things weaken the equation. An object that the host gave back too often is
in a set of its own, `misused`, for which no count is promised; but such an
object is known to be adopted, so its header is parked and never reclaimed. And
while a cascade of releases is under way, objects whose count has reached zero
wait in a queue, and one of them may be in the middle of its disposal. The
queue and the object being disposed of are parameters of the invariant too; the
state between two operations has neither.
-/

namespace CountedHeap

/-! ### Headers -/

/-- No collection is under way as far as this object is concerned. -/
def Object.Unmarked (o : Object) : Prop :=
  o.marked = false ∧ o.reached = false

/-- What holds of a slot. A live object is counted, or it waits for its end, or
it is being disposed of; a parked header has nothing left but its count. -/
def Slot.Sound (ending queued : Prop) : Slot → Prop
  | .live o => o.Unmarked ∧
      (o.freed = false ∧ (0 < o.count ∨ queued) ∨
        o.freed = true ∧ ending ∧ o.payload = .released)
  | .parked o => o.Unmarked ∧ o.adopted = true ∧ o.freed = true ∧ o.payload = .released
  | .reclaimed => True

/-- What holds of a slot between two operations whatever the host does. -/
def Slot.Tidy : Slot → Prop
  | .live o => o.Unmarked ∧ o.freed = false
  | .parked o => o.Unmarked ∧ o.freed = true ∧ o.payload = .released
  | .reclaimed => True

def Heap.Tidy (H : Heap) : Prop :=
  ∀ h, (H.slot h).Tidy

/-- What the count discipline reads from a header. -/
def Object.ownership (o : Object) : Int × Bool :=
  (o.count, o.adopted)

/-- Every slot is sound, and the objects that have come to their end, each of
which is listed once, have no references left. -/
structure Heap.Sound (ending queue : Multiset Handle) (H : Heap) : Prop where
  slots : ∀ h, (H.slot h).Sound (h ∈ ending) (h ∈ queue)
  waiting : ∀ h ∈ ending + queue, ∃ o, H.object? h = some o ∧ o.count = 0
  nodup : (ending + queue).Nodup

/-- A change of a header that touches its count and the mark of the host only,
and does not take that mark away. -/
structure Object.Recounts (f : Object → Object) : Prop where
  payload : ∀ o, (f o).payload = o.payload
  freed : ∀ o, (f o).freed = o.freed
  marked : ∀ o, (f o).marked = o.marked
  reached : ∀ o, (f o).reached = o.reached
  adopted : ∀ o, o.adopted = true → (f o).adopted = true

section

variable {H : Heap} {B Q : Multiset Handle} {h : Handle} {o : Object} {f : Object → Object}

theorem Heap.object?_eq_some :
    H.object? h = some o ↔ H.slot h = .live o ∨ H.slot h = .parked o := by
  rw [Heap.object?]
  cases H.slot h <;> simp [Slot.object?]

theorem Heap.object?_of_live (slot : H.slot h = .live o) : H.object? h = some o :=
  Heap.object?_eq_some.2 (.inl slot)

theorem Engine.object?_of_live {e : Engine} (slot : e.heap.slot h = .live o) :
    e.object? (.reference h) = some o :=
  Heap.object?_of_live slot

theorem Heap.lt_size_of_object? (found : H.object? h = some o) : h < H.slots.size := by
  by_contra outside
  rw [Heap.object?, H.slot_of_size_le (by simpa using outside)] at found
  simp [Slot.object?] at found

theorem Heap.lt_size_of_live (slot : H.slot h = .live o) : h < H.slots.size :=
  Heap.lt_size_of_object? (Heap.object?_of_live slot)

@[simp] theorem Heap.isLive_update (k : Handle) : (H.update h f).isLive k = H.isLive k := by
  rw [Heap.isLive, Heap.isLive, Heap.slot_update]
  split
  · cases H.slot k <;> rfl
  · rfl

@[simp] theorem Heap.size_update : (H.update h f).slots.size = H.slots.size := by
  simp [Heap.update, Heap.mapSlot]

theorem Slot.Sound.mono {ending ending' queued queued' : Prop} {s : Slot}
    (hs : s.Sound ending queued) (he : ending → ending') (hq : queued → queued') :
    s.Sound ending' queued' := by
  cases s with
  | live o =>
      obtain ⟨unmarked, ⟨fresh, count⟩ | ⟨freed, ends, empty⟩⟩ := hs
      · exact ⟨unmarked, .inl ⟨fresh, count.imp_right hq⟩⟩
      · exact ⟨unmarked, .inr ⟨freed, he ends, empty⟩⟩
  | parked o => exact hs
  | reclaimed => exact hs

theorem Slot.Sound.recount {ending queued : Prop} {s : Slot} (hf : Object.Recounts f)
    (hs : s.Sound ending queued) (counted : ∀ o, s = .live o → 0 < (f o).count ∨ queued) :
    (s.map f).Sound ending queued := by
  cases s with
  | live o =>
      obtain ⟨⟨marked, reached⟩, ⟨fresh, -⟩ | ⟨freed, ends, empty⟩⟩ := hs
      · exact ⟨⟨(hf.marked o).trans marked, (hf.reached o).trans reached⟩,
          .inl ⟨(hf.freed o).trans fresh, counted o rfl⟩⟩
      · exact ⟨⟨(hf.marked o).trans marked, (hf.reached o).trans reached⟩,
          .inr ⟨(hf.freed o).trans freed, ends, (hf.payload o).trans empty⟩⟩
  | parked o =>
      obtain ⟨⟨marked, reached⟩, adopted, freed, empty⟩ := hs
      exact ⟨⟨(hf.marked o).trans marked, (hf.reached o).trans reached⟩, hf.adopted o adopted,
        (hf.freed o).trans freed, (hf.payload o).trans empty⟩
  | reclaimed => trivial

/-- Between two operations every live object is counted. -/
theorem Heap.Sound.live (hs : H.Sound 0 0) (slot : H.slot h = .live o) :
    o.Unmarked ∧ o.freed = false ∧ 0 < o.count := by
  have sound := hs.slots h
  rw [slot] at sound
  obtain ⟨unmarked, ⟨fresh, positive | queued⟩ | ⟨-, ends, -⟩⟩ := sound
  · exact ⟨unmarked, fresh, positive⟩
  · exact absurd queued (Multiset.notMem_zero h)
  · exact absurd ends (Multiset.notMem_zero h)

theorem Heap.Sound.parked (hs : H.Sound 0 0) (slot : H.slot h = .parked o) :
    o.Unmarked ∧ o.adopted = true ∧ o.freed = true ∧ o.payload = .released := by
  have sound := hs.slots h
  rw [slot] at sound
  exact sound

theorem Heap.Tidy.live (tidy : H.Tidy) (slot : H.slot h = .live o) :
    o.Unmarked ∧ o.freed = false := by
  have holds := tidy h
  rw [slot] at holds
  exact holds

theorem Heap.Tidy.parked (tidy : H.Tidy) (slot : H.slot h = .parked o) :
    o.Unmarked ∧ o.freed = true ∧ o.payload = .released := by
  have holds := tidy h
  rw [slot] at holds
  exact holds

/-- While nothing is being disposed of a sound heap is tidy. -/
theorem Heap.Sound.tidy (hs : H.Sound 0 Q) : H.Tidy := by
  intro k
  have sound := hs.slots k
  cases slot : H.slot k with
  | live o =>
      rw [slot] at sound
      obtain ⟨unmarked, ⟨fresh, -⟩ | ⟨-, ends, -⟩⟩ := sound
      · exact ⟨unmarked, fresh⟩
      · exact absurd ends (Multiset.notMem_zero k)
  | parked o =>
      rw [slot] at sound
      obtain ⟨unmarked, -, freed, empty⟩ := sound
      exact ⟨unmarked, freed, empty⟩
  | reclaimed => trivial

/-- An object whose last reference is gone is of no other use. -/
theorem Heap.Sound.ended (hs : H.Sound B Q) (hB : h ∈ B) (slot : H.slot h = .live o) :
    o.Unmarked ∧ o.freed = true ∧ o.payload = .released ∧ o.count = 0 := by
  obtain ⟨o', found, zero⟩ := hs.waiting h (Multiset.mem_add.2 (.inl hB))
  obtain rfl : o = o' := Option.some.inj ((Heap.object?_of_live slot).symm.trans found)
  have sound := hs.slots h
  rw [slot] at sound
  obtain ⟨unmarked, ⟨-, positive | queued⟩ | ⟨freed, -, empty⟩⟩ := sound
  · omega
  · -- An object leaves the queue before it is disposed of.
    exact absurd queued (Multiset.disjoint_left.1 (Multiset.nodup_add.1 hs.nodup).2.2 hB)
  · exact ⟨unmarked, freed, empty, zero⟩

/-- An object that keeps a reference stays out of the queue. -/
theorem Heap.Sound.recount (hs : H.Sound B Q) (hf : Object.Recounts f) (hne : h ∉ B + Q)
    (counted : ∀ o, H.slot h = .live o → 0 < (f o).count) : (H.update h f).Sound B Q where
  slots k := by
    rw [Heap.slot_update]
    split
    · subst k
      exact (hs.slots h).recount hf fun o slot => .inl (counted o slot)
    · exact hs.slots k
  waiting k hk := by
    rw [Heap.object?_update, if_neg (ne_of_mem_of_not_mem hk hne)]
    exact hs.waiting k hk
  nodup := hs.nodup

/-- An object that loses its last reference joins the queue. -/
theorem Heap.Sound.enqueue (hs : H.Sound B Q) (hf : Object.Recounts f) (hne : h ∉ B + Q)
    (found : H.object? h = some o) (last : (f o).count = 0) :
    (H.update h f).Sound B (h ::ₘ Q) where
  slots k := by
    rw [Heap.slot_update]
    split
    · subst k
      exact ((hs.slots h).mono id (Multiset.mem_cons_of_mem)).recount hf fun _ _ =>
        .inr (Multiset.mem_cons_self h Q)
    · exact (hs.slots k).mono id Multiset.mem_cons_of_mem
  waiting k hk := by
    rw [Heap.object?_update]
    by_cases same : k = h
    · subst k
      exact ⟨f o, by simp [found], last⟩
    · rw [if_neg same]
      rw [Multiset.add_cons, Multiset.mem_cons] at hk
      exact hs.waiting k (hk.resolve_left same)
  nodup := by
    rw [Multiset.add_cons, Multiset.nodup_cons]
    exact ⟨hne, hs.nodup⟩

theorem Heap.Sound.notMem_of_count (hs : H.Sound B Q) (found : H.object? h = some o)
    (hc : o.count ≠ 0) : h ∉ B + Q := by
  intro hmem
  obtain ⟨o', found', zero⟩ := hs.waiting h hmem
  rw [found] at found'
  exact hc (Option.some.inj found' ▸ zero)

end

/-! ### Owners -/

/-- The object that a diagnostic says was released too often. -/
def Diagnostic.accused? (d : Diagnostic) : Option Handle :=
  match d.anomaly with
  | .objectBelowZero h _ _ => some h
  | .surplusRelease h _ _ => some h
  | _ => none

/-- A diagnostic of a run in which the host misused the given objects and the
engine made no mistake. -/
def Diagnostic.Excused (misused : Finset Handle) (d : Diagnostic) : Prop :=
  d.blame ≠ .engineDoubleFree ∧ d.blame ≠ .externalHold ∧ ∀ h, d.accused? = some h → h ∈ misused

/-- Every count is the number of references on the object, of which `X` are owned
outside; and whatever is referred to has a header. -/
structure Engine.Owned (misused : Finset Handle) (X : Multiset Handle) (e : Engine) : Prop where
  exact : ∀ h o, e.heap.object? h = some o → h ∉ misused →
    o.count = ((X + e.references + e.abandoned).count h : ℕ)
  named : ∀ h ∈ X + e.references, ∃ o, e.heap.object? h = some o
  adopted : ∀ h ∈ misused, ∀ o, e.heap.object? h = some o → o.adopted = true
  issued : ∀ h, h ∈ misused ∨ h ∈ e.abandoned → h < e.heap.slots.size

/-- Every context has the id that its place allows for, and the ids of an engine that
is closed lead to contexts that are closed. -/
structure Addressed (contexts : Array Context) (closed : Bool) : Prop where
  id_eq : ∀ (p : Nat) (ctx : Context), contexts[p]? = some ctx → ctx.id = .ofNat p
  shut : closed = true → ∀ (c : ContextId) (ctx : Context), contexts[c.toNat]? = some ctx →
    ctx.isOpen = false

/-- Nothing went wrong that was not the fault of the host, contexts are found under
their ids, and the engine keeps no work of its own. An object that a closed context
left behind is live if it was so then, and then that registration was the only
reference on it. -/
structure Engine.Blameless (misused : Finset Handle) (e : Engine) : Prop where
  excused : ∀ d ∈ e.diagnostics, d.Excused misused
  unstrayed : e.breaches.strayAccess = false
  kept : e.isClosed = false → ∀ r ∈ e.leftovers, r.target ∉ misused →
    e.heap.isLive r.target = r.wasLive
  spared : ∀ r ∈ e.leftovers, r.wasLive = true → r.count = 1
  addressed : Addressed e.contexts e.isClosed
  idle : e.work = {}

/-- The invariant of a cascade. -/
structure Engine.Balanced (misused : Finset Handle) (ending queue X : Multiset Handle)
    (e : Engine) : Prop where
  sound : e.heap.Sound ending queue
  owned : e.Owned misused X
  blameless : e.Blameless misused

/-- The invariant between two operations. -/
def Engine.Settled (misused : Finset Handle) (X : Multiset Handle) (e : Engine) : Prop :=
  e.Balanced misused 0 0 X

section

variable {e e' : Engine} {M M' : Finset Handle} {B Q X X' : Multiset Handle} {h : Handle}
  {o : Object} {f : Object → Object}

theorem Diagnostic.Excused.mono {d : Diagnostic} (hd : d.Excused M) (hM : M ⊆ M') : d.Excused M' :=
  ⟨hd.1, hd.2.1, fun h accused => hM (hd.2.2 h accused)⟩

theorem Diagnostic.excused_surplusRelease (hM : h ∈ M) (adopted : o.adopted = true) :
    (Diagnostic.surplusRelease h o).Excused M := by
  refine ⟨?_, ?_, ?_⟩
  · simp [Diagnostic.surplusRelease, adopted]
  · simp [Diagnostic.surplusRelease, adopted]
  · intro k accused
    simp only [Diagnostic.surplusRelease, Diagnostic.accused?, Option.some.injEq] at accused
    exact accused ▸ hM

theorem Diagnostic.excused_objectBelowZero (hM : h ∈ M) :
    (Diagnostic.objectBelowZero h o).Excused M := by
  refine ⟨?_, ?_, ?_⟩
  · simp [Diagnostic.objectBelowZero]
  · simp [Diagnostic.objectBelowZero]
  · intro k accused
    simp only [Diagnostic.objectBelowZero, Diagnostic.accused?, Option.some.injEq] at accused
    exact accused ▸ hM

/-- As long as there are ids for all, each context has one that leads to it. -/
theorem exists_id_of_mem {contexts : Array Context} {ctx : Context} (mem : ctx ∈ contexts)
    (few : contexts.size ≤ 0x100000000) : ∃ c : ContextId, contexts[c.toNat]? = some ctx := by
  obtain ⟨p, found⟩ := Array.getElem?_of_mem mem
  obtain ⟨inside, -⟩ := Array.getElem?_eq_some_iff.1 found
  refine ⟨.ofNat p, ?_⟩
  rw [UInt32.toNat_ofNat_of_lt' (inside.trans_le few)]
  exact found

/-- An engine in which an id leads to an open context is open. -/
theorem Addressed.eq_false_of_isOpen {contexts : Array Context} {closed : Bool} {c : ContextId}
    {ctx : Context} (addressed : Addressed contexts closed)
    (found : contexts[c.toNat]? = some ctx) (hopen : ctx.isOpen = true) : closed = false := by
  cases closed
  · rfl
  · rw [addressed.shut rfl c ctx found] at hopen
    cases hopen

theorem Addressed.empty {closed : Bool} : Addressed #[] closed where
  id_eq p ctx found := by
    rw [Array.getElem?_empty] at found
    cases found
  shut _ c ctx found := by
    rw [Array.getElem?_empty] at found
    cases found

theorem Diagnostic.excused_contextGone (c : ContextId) :
    (Diagnostic.contextGone c).Excused M := by
  simp [Diagnostic.Excused, Diagnostic.contextGone, Diagnostic.accused?]

theorem Diagnostic.excused_contextBelowZero (c : ContextId) (n : Int) :
    Diagnostic.Excused M ⟨.hostOverRelease, .contextBelowZero c n⟩ := by
  simp [Diagnostic.Excused, Diagnostic.accused?]

theorem Engine.references_updateObject (hf : ∀ o, (f o).payload = o.payload) :
    (e.updateObject h f).references = e.references :=
  congrArg (· + e.anchors) (e.heap.references_update h hf)

-- Only the object whose header changes is looked at; what is known of all others
-- is passed on.
theorem Engine.Owned.recount (ho : e.Owned M X) (hf : Object.Recounts f)
    (found : e.heap.object? h = some o) (hM : ∀ k, k ≠ h → (k ∈ M' ↔ k ∈ M))
    (hX : ∀ k, k ≠ h → X'.count k = X.count k)
    (exact : h ∉ M' → (f o).count = ((X' + e.references + e.abandoned).count h : ℕ))
    (adopted : h ∈ M' → (f o).adopted = true) : (e.updateObject h f).Owned M' X' where
  exact k o' found' hk := by
    rw [Engine.references_updateObject hf.payload]
    rw [Engine.heap_updateObject, Heap.object?_update] at found'
    by_cases same : k = h
    · subst k
      rw [if_pos rfl, found, Option.map_some, Option.some.injEq] at found'
      rw [← found']
      exact exact hk
    · rw [if_neg same] at found'
      rw [ho.exact k o' found' fun hm => hk ((hM k same).2 hm)]
      simp only [Multiset.count_add, hX k same]
      rfl
  named k hk := by
    rw [Engine.references_updateObject hf.payload] at hk
    rw [Engine.heap_updateObject, Heap.object?_update]
    by_cases same : k = h
    · subst k
      exact ⟨f o, by rw [if_pos rfl, found, Option.map_some]⟩
    · rw [if_neg same]
      apply ho.named k
      rw [Multiset.mem_add, ← Multiset.count_pos, hX k same, Multiset.count_pos,
        ← Multiset.mem_add] at hk
      exact hk
  adopted k hk o' found' := by
    rw [Engine.heap_updateObject, Heap.object?_update] at found'
    by_cases same : k = h
    · subst k
      rw [if_pos rfl, found, Option.map_some, Option.some.injEq] at found'
      rw [← found']
      exact adopted hk
    · rw [if_neg same] at found'
      exact ho.adopted k ((hM k same).1 hk) o' found'
  issued k hk := by
    rw [Engine.heap_updateObject, Heap.size_update]
    by_cases same : k = h
    · exact same ▸ Heap.lt_size_of_object? found
    · exact ho.issued k (hk.imp_left (hM k same).1)

/-- References change hands. The ones that somebody owns may become fewer, if
the others are abandoned. -/
theorem Engine.Owned.transfer (ho : e.Owned M X)
    (headers : ∀ k, (e'.heap.object? k).map Object.ownership =
      (e.heap.object? k).map Object.ownership)
    (size : e'.heap.slots.size = e.heap.slots.size)
    (total : X' + e'.references + e'.abandoned = X + e.references + e.abandoned)
    (fewer : X' + e'.references ≤ X + e.references) : e'.Owned M X' := by
  have back : ∀ k o', e'.heap.object? k = some o' →
      ∃ o, e.heap.object? k = some o ∧ o.count = o'.count ∧ o.adopted = o'.adopted := by
    intro k o' found'
    have same := headers k
    rw [found', Option.map_some, eq_comm, Option.map_eq_some_iff] at same
    obtain ⟨o, found, same⟩ := same
    rw [Object.ownership, Object.ownership, Prod.mk.injEq] at same
    exact ⟨o, found, same⟩
  refine ⟨?_, ?_, ?_, ?_⟩
  · intro k o' found' hk
    obtain ⟨o, found, count, -⟩ := back k o' found'
    rw [← count, total]
    exact ho.exact k o found hk
  · intro k hk
    obtain ⟨o, found⟩ := ho.named k (Multiset.mem_of_le fewer hk)
    have same := headers k
    rw [found, Option.map_some, Option.map_eq_some_iff] at same
    obtain ⟨o', found', -⟩ := same
    exact ⟨o', found'⟩
  · intro k hk o' found'
    obtain ⟨o, found, -, adopted⟩ := back k o' found'
    exact adopted ▸ ho.adopted k hk o found
  · rintro k (misused | left)
    · exact size ▸ ho.issued k (.inl misused)
    · have mem : k ∈ X + e.references + e.abandoned := total ▸ Multiset.mem_add.2 (.inr left)
      rw [size]
      rcases Multiset.mem_add.1 mem with owned | left
      · obtain ⟨o, found⟩ := ho.named k owned
        exact Heap.lt_size_of_object? found
      · exact ho.issued k (.inr left)

theorem Engine.Blameless.updateObject (hb : e.Blameless M) (hM : M ⊆ M') :
    (e.updateObject h f).Blameless M' where
  excused d hd := (hb.excused d hd).mono hM
  unstrayed := hb.unstrayed
  kept hopen r hr hk := by
    rw [Engine.heap_updateObject, Heap.isLive_update]
    exact hb.kept hopen r hr fun hm => hk (hM hm)
  spared := hb.spared
  addressed := hb.addressed
  idle := hb.idle

theorem Engine.Blameless.record {d : Diagnostic} (hb : e.Blameless M) (hd : d.Excused M) :
    (e.record d).Blameless M where
  excused d' hd' := by
    rcases Array.mem_push.1 hd' with old | rfl
    · exact hb.excused d' old
    · exact hd
  unstrayed := hb.unstrayed
  kept := hb.kept
  spared := hb.spared
  addressed := hb.addressed
  idle := hb.idle

theorem Engine.Balanced.record {d : Diagnostic} (hb : e.Balanced M B Q X) (hd : d.Excused M) :
    (e.record d).Balanced M B Q X :=
  ⟨hb.sound, ⟨hb.owned.exact, hb.owned.named, hb.owned.adopted, hb.owned.issued⟩,
    hb.blameless.record hd⟩

end

end CountedHeap
