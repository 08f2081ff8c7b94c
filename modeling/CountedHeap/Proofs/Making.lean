import CountedHeap.Proofs.Collection
import CountedHeap.Proofs.Taking

/-!
New objects. A new object takes over the references in its payload and is owned
by whoever made it. Where there is no room for it, the references in its payload
are given back, so that a refused constructor leaves the owners as they were.
-/

namespace CountedHeap

/-- The reference that an operation hands over, unless it was refused. -/
def handedOver : Except Refusal Value → Multiset Handle
  | .ok v => v.refs
  | .error _ => 0

section

variable {e : Engine} {M : Finset Handle} {X X' : Multiset Handle} {h : Handle} {o : Object}
  {v : Value} {classId : ClassId} {payload : Payload}

/-! ### New objects -/

theorem Engine.Settled.collectAtThreshold (hs : e.Settled M X) :
    e.collectAtThreshold.Settled M X := by
  rw [Engine.collectAtThreshold]
  split
  · exact Engine.Balanced.congr hs.collect
  · exact hs

theorem Engine.Settled.abandon (hs : e.Settled M (↑payload.owned + X)) :
    (e.abandon payload).Settled M X :=
  hs.foldl_releaseReference

/-- The next handle is not known to anybody. -/
theorem Engine.Settled.fresh (hs : e.Settled M X) :
    e.heap.slots.size ∉ M ∧ e.heap.slots.size ∉ X + e.references + e.abandoned := by
  refine ⟨fun misused => ?_, fun owned => ?_⟩
  · exact absurd (hs.owned.issued _ (.inl misused)) (Nat.lt_irrefl _)
  · rcases Multiset.mem_add.1 owned with named | left
    · obtain ⟨o, found⟩ := hs.owned.named _ named
      exact absurd (Heap.lt_size_of_object? found) (Nat.lt_irrefl _)
    · exact absurd (hs.owned.issued _ (.inr left)) (Nat.lt_irrefl _)

theorem Engine.slot_place (k : Handle) : (e.place classId payload).2.heap.slot k =
    if k = e.heap.slots.size then .live (Object.new classId payload) else e.heap.slot k :=
  e.heap.slot_allocate (Object.new classId payload) k

theorem Engine.object?_place (k : Handle) : (e.place classId payload).2.heap.object? k =
    if k = e.heap.slots.size then some (Object.new classId payload) else e.heap.object? k := by
  rw [Heap.object?, Engine.slot_place]
  split <;> rfl

theorem Engine.size_place :
    (e.place classId payload).2.heap.slots.size = e.heap.slots.size + 1 := by
  simp [Engine.place, Heap.allocate]

/-- The one new reference is that of whoever asked for the object. -/
theorem Engine.owners_place :
    (e.place classId payload).1.refs + X + (e.place classId payload).2.references =
      e.heap.slots.size ::ₘ (↑payload.owned + X + e.references) := by
  have heap : (e.place classId payload).2.heap.references =
      e.heap.references + (payload.owned : Multiset Handle) :=
    e.heap.references_allocate (Object.new classId payload)
  have refs : (e.place classId payload).1.refs = {e.heap.slots.size} := rfl
  have anchors : (e.place classId payload).2.anchors = e.anchors := rfl
  rw [refs, Engine.references, heap, anchors, Engine.references, ← Multiset.singleton_add]
  abel

theorem Engine.Settled.owned_place (hs : e.Settled M (↑payload.owned + X)) :
    (e.place classId payload).2.Owned M ((e.place classId payload).1.refs + X) := by
  obtain ⟨notMisused, notKnown⟩ := hs.fresh
  refine ⟨?_, ?_, ?_, ?_⟩
  · intro k o found hM
    have abandoned : (e.place classId payload).2.abandoned = e.abandoned := rfl
    rw [Engine.owners_place, abandoned, Multiset.cons_add]
    rw [Engine.object?_place] at found
    by_cases new : k = e.heap.slots.size
    · rw [if_pos new] at found
      rw [new, Multiset.count_cons_self, Multiset.count_eq_zero.2 notKnown]
      exact Option.some.inj found ▸ rfl
    · rw [if_neg new] at found
      rw [Multiset.count_cons_of_ne new]
      exact hs.owned.exact k o found hM
  · intro k hk
    rw [Engine.owners_place, Multiset.mem_cons] at hk
    rw [Engine.object?_place]
    by_cases new : k = e.heap.slots.size
    · rw [if_pos new]
      exact ⟨_, rfl⟩
    · rw [if_neg new]
      exact hs.owned.named k (hk.resolve_left new)
  · intro k hM o found
    rw [Engine.object?_place, if_neg (ne_of_mem_of_not_mem hM notMisused)] at found
    exact hs.owned.adopted k hM o found
  · intro k hk
    rw [Engine.size_place]
    exact Nat.lt_succ_of_lt (hs.owned.issued k hk)

theorem Engine.Settled.place (hs : e.Settled M (↑payload.owned + X)) :
    (e.place classId payload).2.Settled M ((e.place classId payload).1.refs + X) := by
  refine ⟨⟨?_, ?_, Multiset.nodup_zero⟩, hs.owned_place,
    ⟨hs.blameless.excused, hs.blameless.unstrayed, ?_, hs.blameless.spared,
      hs.blameless.addressed, hs.blameless.idle⟩⟩
  · intro k
    rw [Engine.slot_place]
    split
    · exact ⟨⟨rfl, rfl⟩, .inl ⟨rfl, .inl Int.one_pos⟩⟩
    · exact hs.sound.slots k
  · exact fun k hk => absurd hk (Multiset.notMem_zero k)
  · intro hopen r hr hM
    have old : r.target < e.heap.slots.size :=
      hs.owned.issued _ (.inr (Engine.target_mem_abandoned hr))
    rw [Heap.isLive, Engine.slot_place, if_neg old.ne]
    exact hs.blameless.kept hopen r hr hM

theorem Engine.Settled.allocate (hs : e.Settled M (↑payload.owned + X)) :
    (e.allocate classId payload).2.Settled M (handedOver (e.allocate classId payload).1 + X) := by
  rw [Engine.allocate]
  split
  · rw [handedOver, zero_add]
    exact hs.abandon
  · -- One collection may be due anyway, and another one for want of room.
    have room (size : Nat) : (if (e.collectAtThreshold.exceeded? size).isSome then
        e.collectAtThreshold.collect.2 else e.collectAtThreshold).Settled M
          (↑payload.owned + X) := by
      split
      · exact hs.collectAtThreshold.collect
      · exact hs.collectAtThreshold
    dsimp only
    split
    · rw [handedOver, zero_add]
      exact (room _).abandon
    · exact (room _).place

/-! ### Constructors -/

variable {proto : Value} {taken : Multiset Handle}

/-- Only the prototype's count can leave the range: nothing else of a constructor adds to one. -/
theorem Engine.inRange_allocateWithProto :
    (e.allocateWithProto proto classId payload).2.InRange ↔ (e.retain proto).InRange :=
  inRange_of_frame (Engine.frame_allocate _ _ _)

theorem Engine.Settled.allocateWithProto (hs : e.Settled M (taken + X)) (named : e.Names proto)
    (range : (e.allocateWithProto proto classId payload).2.InRange)
    (owned : (payload.owned : Multiset Handle) = proto.refs + taken) :
    (e.allocateWithProto proto classId payload).2.Settled M
      (handedOver (e.allocateWithProto proto classId payload).1 + X) := by
  have retained : (e.retain proto).Settled M (proto.refs + (taken + X)) :=
    hs.retain named (Engine.inRange_allocateWithProto.1 range)
  rw [← add_assoc, ← owned] at retained
  exact retained.allocate

theorem Engine.inRange_of_allocateWithProto
    (range : (e.allocateWithProto proto classId payload).2.InRange) : e.InRange :=
  Engine.inRange_of_retain (Engine.inRange_allocateWithProto.1 range)

theorem Payload.values_empty? {c : ObjectClass} (made : Payload.empty? c proto = some payload) :
    payload.values = [proto] := by
  cases c <;> simp only [Payload.empty?, Option.some.injEq, reduceCtorEq] at made <;>
    (subst made; rfl)

theorem Payload.owned_empty? {c : ObjectClass} (made : Payload.empty? c proto = some payload) :
    (payload.owned : Multiset Handle) = proto.refs + 0 := by
  rw [coe_owned, Payload.values_empty? made, refsOf_cons, refsOf_nil]

theorem Engine.Settled.makeWithProto (hs : e.Settled M X) (named : e.Names proto)
    (range : (e.makeWithProto proto classId).2.InRange) :
    (e.makeWithProto proto classId).2.Settled M
      (handedOver (e.makeWithProto proto classId).1 + X) := by
  rw [Engine.makeWithProto] at range ⊢
  split
  · rename_i made
    simp only [made] at range
    rw [← zero_add X] at hs
    exact hs.allocateWithProto named range (Payload.owned_empty? made)
  · rw [handedOver, zero_add]
    exact hs

theorem Engine.inRange_of_makeWithProto (range : (e.makeWithProto proto classId).2.InRange) :
    e.InRange := by
  rw [Engine.makeWithProto] at range
  split at range
  · exact Engine.inRange_of_allocateWithProto range
  · exact range

theorem Engine.Settled.makePlain (hs : e.Settled M X) (named : e.Names proto)
    (range : (e.makePlain proto).2.InRange) :
    (e.makePlain proto).2.Settled M (handedOver (e.makePlain proto).1 + X) :=
  hs.makeWithProto named range

theorem Engine.Settled.makeArray {items : Array Value} (hs : e.Settled M (refsOf items.toList + X))
    (named : e.Names proto) (range : (e.makeArray proto items).2.InRange) :
    (e.makeArray proto items).2.Settled M (handedOver (e.makeArray proto items).1 + X) := by
  apply hs.allocateWithProto named range
  rw [coe_owned, Payload.values, refsOf_cons]

theorem Engine.Settled.makeFunction {name : String} (hs : e.Settled M X) (named : e.Names proto)
    (range : (e.makeFunction name proto).2.InRange) :
    (e.makeFunction name proto).2.Settled M (handedOver (e.makeFunction name proto).1 + X) := by
  rw [← zero_add X] at hs
  apply hs.allocateWithProto named range
  rw [coe_owned, Payload.values, refsOf_cons]
  rfl

theorem Engine.Settled.makeHost {cookie : UInt64} (hs : e.Settled M X) (named : e.Names proto)
    (range : (e.makeHost proto classId cookie).2.InRange) :
    (e.makeHost proto classId cookie).2.Settled M
      (handedOver (e.makeHost proto classId cookie).1 + X) := by
  rw [Engine.makeHost] at range ⊢
  split
  · rename_i host
    rw [if_pos host] at range
    rw [← zero_add X] at hs
    apply hs.allocateWithProto named range
    rw [coe_owned, Payload.values, refsOf_cons]
    rfl
  · rw [handedOver, zero_add]
    exact hs

theorem Engine.Settled.makeString (hs : e.Settled M X) (text : String) :
    (e.makeString text).2.Settled M (handedOver (e.makeString text).1 + X) := by
  rw [← zero_add X] at hs
  exact Engine.Settled.allocate hs

theorem Engine.Settled.boxNumber (hs : e.Settled M X) (d : Binary64) :
    (e.boxNumber d).2.Settled M (handedOver (e.boxNumber d).1 + X) := by
  rw [← zero_add X] at hs
  exact Engine.Settled.allocate hs

theorem Engine.Settled.makeNumber (hs : e.Settled M X) (d : Binary64) :
    (e.makeNumber d).2.Settled M (handedOver (e.makeNumber d).1 + X) := by
  rw [Engine.makeNumber]
  split
  · rw [handedOver, Value.refs_immediate, zero_add]
    exact hs
  · exact hs.boxNumber d

end

end CountedHeap
