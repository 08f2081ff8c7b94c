import CountedHeap.Engine.Action
import CountedHeap.Proofs.Slots
import Mathlib.Algebra.BigOperators.Group.Multiset.Basic
import Mathlib.Data.Multiset.Count

/-!
The references that an engine holds. A reference is one occurrence of a handle,
so a collection of references is a multiset of handles, and the number of
references on an object is a count in that multiset.

References are held in three places: in the payloads of live objects, in open
contexts, and, for good, by the registrations that a closed context did not give
back. The lemmas say what each change of a heap or of a context does to the
multiset. They are stated as equations between sums, so that a change that moves
a reference from one place to another is seen to keep the total.
-/

namespace CountedHeap

/-! ### References among values -/

/-- The reference that a value is, if it is one. -/
def Value.refs (v : Value) : Multiset Handle :=
  (v.handle?.toList : List Handle)

/-- The references among some values. -/
def refsOf (vs : List Value) : Multiset Handle :=
  (vs.filterMap Value.handle? : List Handle)

@[simp] theorem Value.refs_immediate (w : Word) : (Value.immediate w).refs = 0 := rfl

@[simp] theorem Value.refs_reference (h : Handle) : (Value.reference h).refs = {h} := rfl

@[simp] theorem Value.refs_undefined : Value.undefined.refs = 0 := rfl

@[simp] theorem Value.refs_null : Value.null.refs = 0 := rfl

@[simp] theorem refsOf_nil : refsOf [] = 0 := rfl

@[simp] theorem refsOf_cons (v : Value) (vs : List Value) :
    refsOf (v :: vs) = v.refs + refsOf vs := by
  cases v with
  | immediate w =>
      rw [refsOf, List.filterMap_cons_none rfl, Value.refs_immediate, zero_add, refsOf]
  | reference h =>
      have head : (Value.reference h).handle? = some h := rfl
      rw [refsOf, List.filterMap_cons_some head, Value.refs_reference, refsOf,
        Multiset.singleton_add, Multiset.cons_coe]

theorem refsOf_singleton (v : Value) : refsOf #[v].toList = v.refs := by
  rw [refsOf_cons, refsOf_nil, add_zero]

@[simp] theorem refsOf_append (vs ws : List Value) : refsOf (vs ++ ws) = refsOf vs + refsOf ws := by
  simp [refsOf]

theorem Value.mem_refs {v : Value} {h : Handle} : h ∈ v.refs ↔ v = .reference h := by
  cases v <;> simp [eq_comm]

theorem mem_refsOf {vs : List Value} {h : Handle} : h ∈ refsOf vs ↔ Value.reference h ∈ vs := by
  induction vs with
  | nil => simp
  | cons v vs ih => simp [ih, Value.mem_refs, eq_comm]

theorem coe_owned (p : Payload) : (p.owned : Multiset Handle) = refsOf p.values := rfl

/-! ### Where references are held -/

/-- The references that live payloads own. -/
def Heap.references (H : Heap) : Multiset Handle :=
  (H.slots.toList.map fun s => (s.owned : Multiset Handle)).sum

/-- The references that a context owns while it is open. -/
def Context.references (ctx : Context) : Multiset Handle :=
  if ctx.isOpen then refsOf (ctx.global :: (ctx.prototypes.toList ++ ctx.registered.toList)) else 0

/-- The references that open contexts own. In an engine that is closed nothing is
left for them to refer to. -/
def Engine.anchors (e : Engine) : Multiset Handle :=
  if e.isClosed then 0 else (e.contexts.toList.map Context.references).sum

/-- The references of registrations that were not given back. -/
def Engine.abandoned (e : Engine) : Multiset Handle :=
  (e.leftovers.toList.map (·.target) : List Handle)

/-- The references that can be found from the engine: in live payloads and in
open contexts. -/
def Engine.references (e : Engine) : Multiset Handle :=
  e.heap.references + e.anchors

theorem Engine.anchors_of_open {e : Engine} (hopen : e.isClosed = false) :
    e.anchors = (e.contexts.toList.map Context.references).sum :=
  if_neg (Bool.eq_false_iff.1 hopen)

theorem Engine.anchors_congr {e e' : Engine} (contexts : e'.contexts = e.contexts)
    (isClosed : e'.isClosed = e.isClosed) : e'.anchors = e.anchors := by
  rw [Engine.anchors, Engine.anchors, contexts, isClosed]

theorem Engine.mem_abandoned {e : Engine} {h : Handle} :
    h ∈ e.abandoned ↔ ∃ r ∈ e.leftovers, r.target = h := by
  simp [Engine.abandoned]

theorem Engine.target_mem_abandoned {e : Engine} {r : Leftover} (hr : r ∈ e.leftovers) :
    r.target ∈ e.abandoned :=
  Engine.mem_abandoned.2 ⟨r, hr, rfl⟩

theorem mem_sum_map {α β : Type} (g : α → Multiset β) (l : List α) (b : β) :
    b ∈ (l.map g).sum ↔ ∃ a ∈ l, b ∈ g a := by
  induction l with
  | nil => simp
  | cons a l ih => simp [ih]

/-! ### References in a changed heap -/

@[simp] theorem Slot.owned_live (o : Object) : Slot.owned (.live o) = o.payload.owned := rfl

@[simp] theorem Slot.owned_parked (o : Object) : Slot.owned (.parked o) = [] := rfl

@[simp] theorem Slot.owned_reclaimed : Slot.owned .reclaimed = [] := rfl

theorem Heap.ownedBy_of_live {H : Heap} {h : Handle} {o : Object} (slot : H.slot h = .live o) :
    H.ownedBy h = o.payload.owned := by
  rw [Heap.ownedBy, slot, Slot.owned_live]

theorem Slot.owned_map {f : Object → Object} (hf : ∀ o, (f o).payload = o.payload) (s : Slot) :
    (s.map f).owned = s.owned := by
  cases s <;> simp [Slot.map, hf]

theorem Heap.references_mapSlot (H : Heap) (h : Handle) {f : Slot → Slot}
    (hf : f .reclaimed = .reclaimed) :
    (H.mapSlot h f).references + ((H.slot h).owned : Multiset Handle) =
      H.references + ((f (H.slot h)).owned : Multiset Handle) :=
  Heap.sum_mapSlot (g := fun s => (s.owned : Multiset Handle)) hf

/-- A change that leaves what the slot owns alone leaves the references alone. -/
theorem Heap.references_mapSlot_eq (H : Heap) (h : Handle) {f : Slot → Slot}
    (hf : f .reclaimed = .reclaimed) (same : (f (H.slot h)).owned = (H.slot h).owned) :
    (H.mapSlot h f).references = H.references := by
  have moved := H.references_mapSlot h hf
  rw [same] at moved
  exact add_right_cancel moved

theorem Heap.references_update (H : Heap) (h : Handle) {f : Object → Object}
    (hf : ∀ o, (f o).payload = o.payload) : (H.update h f).references = H.references :=
  H.references_mapSlot_eq h rfl (Slot.owned_map hf _)

theorem Heap.references_update_live (H : Heap) {h : Handle} {o : Object} (f : Object → Object)
    (slot : H.slot h = .live o) :
    (H.update h f).references + (o.payload.owned : Multiset Handle) =
      H.references + ((f o).payload.owned : Multiset Handle) := by
  have moved := H.references_mapSlot h (f := Slot.map f) rfl
  rw [slot] at moved
  exact moved

theorem Heap.references_retire (H : Heap) (h : Handle) (size : Nat) (park : Bool)
    (empty : (H.slot h).owned = []) : (H.retire h size park).references = H.references := by
  have same (f : Slot → Slot) (hf : f .reclaimed = .reclaimed) (hs : (f (H.slot h)).owned = []) :
      (H.mapSlot h f).references = H.references :=
    H.references_mapSlot_eq h hf (hs.trans empty.symm)
  rw [Heap.retire]
  split
  · split
    · apply same Slot.park rfl
      cases slot : H.slot h <;> simp [Slot.park]
    · apply same Slot.reclaim rfl
      cases slot : H.slot h <;> simp [Slot.reclaim]
  · rfl

theorem Heap.references_allocate (H : Heap) (o : Object) :
    (H.allocate o).2.references = H.references + (o.payload.owned : Multiset Handle) := by
  simp [Heap.references, Heap.allocate]

theorem Heap.references_congr {H H' : Heap} (owned : ∀ k, H'.ownedBy k = H.ownedBy k) :
    H'.references = H.references :=
  Heap.sum_eq_of_slots rfl fun k => congrArg Multiset.ofList (owned k)

theorem Heap.mem_references {H : Heap} {k : Handle} :
    k ∈ H.references ↔ ∃ h, k ∈ H.ownedBy h := by
  rw [Heap.references, mem_sum_map]
  constructor
  · rintro ⟨s, hs, hk⟩
    obtain ⟨h, inside, rfl⟩ := List.getElem_of_mem hs
    refine ⟨h, ?_⟩
    rw [Array.length_toList] at inside
    simpa [Heap.ownedBy, Heap.slot, inside] using hk
  · rintro ⟨h, hk⟩
    by_cases inside : h < H.slots.size
    · exact ⟨H.slot h, List.mem_of_getElem? (H.slots_getElem? inside), hk⟩
    · rw [Heap.ownedBy, H.slot_of_size_le (by simpa using inside)] at hk
      simp at hk

end CountedHeap
