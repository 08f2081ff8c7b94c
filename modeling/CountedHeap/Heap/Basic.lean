import CountedHeap.Heap.Object

/-!
The heap: one slot for each object ever allocated, in the order of allocation.
An object is live at first. When its payload is released the header is either
parked, so that a host which still holds a handle finds a header to count on,
or reclaimed, after which the slot is empty for good. So the list of live
objects, in the order in which the collector walks it, is the list of live slots.

The heap also keeps what is asked for often: how many objects are live, how
many headers are parked, and the bytes charged for both. Bytes are never taken
off below zero; the heap notes if that was ever tried.
-/

namespace CountedHeap

/-- What became of one allocation. -/
inductive Slot
  | live (content : Object)
  | parked (content : Object)
  | reclaimed
  deriving DecidableEq, Repr

instance : Inhabited Slot := ⟨.reclaimed⟩

/-- The header in the slot, unless it is reclaimed. -/
def Slot.object? : Slot → Option Object
  | .live o => some o
  | .parked o => some o
  | .reclaimed => none

def Slot.live? : Slot → Option Object
  | .live o => some o
  | _ => none

def Slot.isLive (s : Slot) : Bool :=
  s.live?.isSome

def Slot.isParked : Slot → Bool
  | .parked _ => true
  | _ => false

/-- The references that a live object owns. -/
def Slot.owned (s : Slot) : List Handle :=
  match s.live? with
  | some o => o.payload.owned
  | none => []

/-- Changes the header in the slot. -/
def Slot.map (f : Object → Object) : Slot → Slot
  | .live o => .live (f o)
  | .parked o => .parked (f o)
  | .reclaimed => .reclaimed

/-- Changes the header of a live object. -/
def Slot.mapLive (f : Object → Object) : Slot → Slot
  | .live o => .live (f o)
  | s => s

/-- A live object leaves its header behind. -/
def Slot.park : Slot → Slot
  | .live o => .parked o
  | s => s

/-- A live object leaves nothing behind. -/
def Slot.reclaim : Slot → Slot
  | .live _ => .reclaimed
  | s => s

/-- Whether the slot holds a header with a positive count. -/
def Slot.isCounted (s : Slot) : Bool :=
  match s.object? with
  | some o => 0 < o.count
  | none => false

structure Heap where
  slots : Array Slot := #[]
  liveCount : Nat := 0
  parkedCount : Nat := 0
  bytes : Nat := 0
  overdrawn : Bool := false
  deriving DecidableEq, Repr, Inhabited

/-- The slot of a handle. A handle that was never given out has an empty one. -/
def Heap.slot (H : Heap) (h : Handle) : Slot :=
  H.slots.getD h .reclaimed

/-- The header that a handle names, live or parked. -/
def Heap.object? (H : Heap) (h : Handle) : Option Object :=
  (H.slot h).object?

def Heap.live? (H : Heap) (h : Handle) : Option Object :=
  (H.slot h).live?

def Heap.isLive (H : Heap) (h : Handle) : Bool :=
  (H.slot h).isLive

def Heap.isParked (H : Heap) (h : Handle) : Bool :=
  (H.slot h).isParked

/-- The references that a live object owns. -/
def Heap.ownedBy (H : Heap) (h : Handle) : List Handle :=
  (H.slot h).owned

/-- The live objects, in the order in which they were allocated. -/
def Heap.listed (H : Heap) : List (Handle × Object) :=
  H.slots.toList.zipIdx.filterMap fun (s, h) => s.live?.map fun o => (h, o)

/-- The number of headers with a positive count. A cascade of releases can
bring no more than so many to zero. -/
def Heap.countedHeaders (H : Heap) : Nat :=
  H.slots.countP Slot.isCounted

/-! ### Changes -/

def Heap.mapSlot (H : Heap) (h : Handle) (f : Slot → Slot) : Heap :=
  { H with slots := H.slots.modify h f }

/-- Changes the header that a handle names. -/
def Heap.update (H : Heap) (h : Handle) (f : Object → Object) : Heap :=
  H.mapSlot h (Slot.map f)

/-- Changes the header of every live object. -/
def Heap.mapLive (H : Heap) (f : Object → Object) : Heap :=
  { H with slots := H.slots.map (Slot.mapLive f) }

/-- A new live object. -/
def Heap.allocate (H : Heap) (o : Object) : Handle × Heap :=
  (H.slots.size,
    { slots := H.slots.push (.live o)
      liveCount := H.liveCount + 1
      parkedCount := H.parkedCount
      bytes := H.bytes + o.size
      overdrawn := H.overdrawn })

def Heap.grow (H : Heap) (n : Nat) : Heap :=
  { H with bytes := H.bytes + n }

/-- Takes bytes off, but no more than are charged. -/
def Heap.shrink (H : Heap) (n : Nat) : Heap :=
  { H with bytes := H.bytes - n, overdrawn := H.overdrawn || decide (H.bytes < n) }

/-- A live object of `size` bytes, whose payload is released, leaves the list.
A parked header stays charged for. -/
def Heap.retire (H : Heap) (h : Handle) (size : Nat) (park : Bool) : Heap :=
  if H.isLive h then
    if park then
      { slots := H.slots.modify h Slot.park
        liveCount := H.liveCount - 1
        parkedCount := H.parkedCount + 1
        bytes := H.bytes - (size - headerSize)
        overdrawn := H.overdrawn || decide (size < headerSize) ||
          decide (H.bytes < size - headerSize) }
    else
      { slots := H.slots.modify h Slot.reclaim
        liveCount := H.liveCount - 1
        parkedCount := H.parkedCount
        bytes := H.bytes - size
        overdrawn := H.overdrawn || decide (H.bytes < size) }
  else
    H

/-- Every slot empty and nothing charged. -/
def Heap.clear (H : Heap) : Heap :=
  { slots := H.slots.map fun _ => .reclaimed
    liveCount := 0
    parkedCount := 0
    bytes := 0
    overdrawn := H.overdrawn }

/-! ### Reading a changed heap -/

theorem Heap.slot_mapSlot (H : Heap) (h k : Handle) {f : Slot → Slot}
    (hf : f .reclaimed = .reclaimed) :
    (H.mapSlot h f).slot k = if k = h then f (H.slot k) else H.slot k := by
  simp only [Heap.mapSlot, Heap.slot, Array.getD_eq_getD_getElem?, Array.getElem?_modify]
  by_cases same : k = h
  · subst same
    cases H.slots[k]? <;> simp [hf]
  · rw [if_neg same, if_neg (Ne.symm same)]

theorem Heap.slot_update (H : Heap) (h k : Handle) (f : Object → Object) :
    (H.update h f).slot k = if k = h then (H.slot k).map f else H.slot k :=
  H.slot_mapSlot h k rfl

theorem Heap.object?_update (H : Heap) (h k : Handle) (f : Object → Object) :
    (H.update h f).object? k = if k = h then (H.object? k).map f else H.object? k := by
  simp only [Heap.object?, Heap.slot_update]
  split
  · cases H.slot k <;> rfl
  · rfl

theorem Heap.slot_allocate (H : Heap) (o : Object) (k : Handle) :
    (H.allocate o).2.slot k = if k = (H.allocate o).1 then .live o else H.slot k := by
  simp only [Heap.allocate, Heap.slot, Array.getD_eq_getD_getElem?, Array.getElem?_push]
  split <;> rfl

theorem Heap.slot_retire (H : Heap) (h k : Handle) (size : Nat) (park : Bool) :
    (H.retire h size park).slot k =
      if k = h then (if park then (H.slot k).park else (H.slot k).reclaim) else H.slot k := by
  unfold Heap.retire
  by_cases live : H.isLive h
  · cases park
    · simp only [live, if_true, Bool.false_eq_true, if_false]
      exact H.slot_mapSlot h k (f := Slot.reclaim) rfl
    · simp only [live, if_true]
      exact H.slot_mapSlot h k (f := Slot.park) rfl
  · rw [if_neg live]
    split
    · subst k
      cases slot : H.slot h with
      | live o => simp [Heap.isLive, slot, Slot.isLive, Slot.live?] at live
      | parked o => cases park <;> rfl
      | reclaimed => cases park <;> rfl
    · rfl

@[simp] theorem Heap.size_retire (H : Heap) (h : Handle) (size : Nat) (park : Bool) :
    (H.retire h size park).slots.size = H.slots.size := by
  unfold Heap.retire
  split
  · split <;> simp
  · rfl

theorem Heap.slot_mapLive (H : Heap) (f : Object → Object) (k : Handle) :
    (H.mapLive f).slot k = (H.slot k).mapLive f := by
  simp only [Heap.mapLive, Heap.slot, Array.getD_eq_getD_getElem?, Array.getElem?_map]
  cases H.slots[k]? <;> rfl

@[simp] theorem Heap.slot_grow (H : Heap) (n : Nat) (k : Handle) :
    (H.grow n).slot k = H.slot k := rfl

@[simp] theorem Heap.slot_shrink (H : Heap) (n : Nat) (k : Handle) :
    (H.shrink n).slot k = H.slot k := rfl

/-! ### Positive counts

These bound the work of a cascade: no step of one raises a count, and each
object that it puts into its queue has lost its positive count. -/

theorem countP_modify_le {α : Type} (p : α → Bool) (f : α → α)
    (hf : ∀ a, p (f a) = true → p a = true) (l : List α) (i : Nat) :
    (l.modify i f).countP p ≤ l.countP p := by
  induction l generalizing i with
  | nil => simp
  | cons a l ih =>
    cases i with
    | zero =>
      have step := hf a
      simp only [List.modify_zero_cons, List.countP_cons]
      by_cases fa : p (f a) = true
      · simp [fa, step fa]
      · simp [fa]
    | succ i =>
      have step := ih i
      simp only [List.modify_succ_cons, List.countP_cons]
      omega

theorem countP_modify_lt {α : Type} (p : α → Bool) (f : α → α) (l : List α) (i : Nat)
    {a : α} (ha : l[i]? = some a) (before : p a = true) (after : p (f a) = false) :
    (l.modify i f).countP p + 1 = l.countP p := by
  induction l generalizing i with
  | nil => simp at ha
  | cons b l ih =>
    cases i with
    | zero =>
      simp only [List.getElem?_cons_zero, Option.some.injEq] at ha
      subst ha
      simp [before, after]
    | succ i =>
      have step := ih i (by simpa using ha)
      simp only [List.modify_succ_cons, List.countP_cons]
      omega

theorem Heap.countedHeaders_mapSlot_le (H : Heap) (h : Handle) {f : Slot → Slot}
    (hf : ∀ s, (f s).isCounted = true → s.isCounted = true) :
    (H.mapSlot h f).countedHeaders ≤ H.countedHeaders := by
  simp only [Heap.countedHeaders, Heap.mapSlot, ← Array.countP_toList, Array.toList_modify]
  exact countP_modify_le _ _ hf _ _

theorem Heap.countP_mapSlot_lt (H : Heap) (h : Handle) (p : Slot → Bool) {f : Slot → Slot}
    (hp : p .reclaimed = false) (before : p (H.slot h) = true)
    (after : p (f (H.slot h)) = false) :
    (H.mapSlot h f).slots.countP p + 1 = H.slots.countP p := by
  simp only [Heap.mapSlot, ← Array.countP_toList, Array.toList_modify]
  have found : H.slots.toList[h]? = some (H.slot h) := by
    simp only [Heap.slot, Array.getD_eq_getD_getElem?] at before ⊢
    cases slot : H.slots[h]? with
    | none => simp [slot, hp] at before
    | some s => simp [slot]
  exact countP_modify_lt _ _ _ _ found before after

theorem Heap.countedHeaders_mapSlot_lt (H : Heap) (h : Handle) {f : Slot → Slot}
    (before : (H.slot h).isCounted = true) (after : (f (H.slot h)).isCounted = false) :
    (H.mapSlot h f).countedHeaders + 1 = H.countedHeaders :=
  H.countP_mapSlot_lt h Slot.isCounted rfl before after

theorem Heap.countedHeaders_retire_le (H : Heap) (h : Handle) (size : Nat) (park : Bool) :
    (H.retire h size park).countedHeaders ≤ H.countedHeaders := by
  unfold Heap.retire
  split
  · split
    · refine H.countedHeaders_mapSlot_le h (f := Slot.park) fun s => ?_
      cases s <;> exact id
    · refine H.countedHeaders_mapSlot_le h (f := Slot.reclaim) fun s => ?_
      cases s <;> simp [Slot.reclaim, Slot.isCounted, Slot.object?]
  · exact Nat.le_refl _

end CountedHeap
