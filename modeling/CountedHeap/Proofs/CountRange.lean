import CountedHeap.Proofs.Interchange
import CountedHeap.Proofs.Lifecycle
import CountedHeap.Proofs.Lowering

/-!
How far counts can get. A request takes no more than one reference on anything that was
there before, and where it takes a second one on the way, it gives one back. Only what a
new context is made of gets more, and not more than there are slots for prototypes. On the
other side, only the bridge and the host's own references on contexts are given back
without a look at what is left. So counts move no faster than there are requests. The
module bounds the counts after each operation by the counts before it.
-/

namespace CountedHeap

/-- Every count is at least `-n` and at most what `β` says, which for contexts is `t`, and none
has left its range. -/
structure Engine.Within (β : Handle → Nat) (t n : Nat) (e : Engine) : Prop where
  counts : ∀ h m, e.heap.count? h = some m → -(n : Int) ≤ m ∧ m ≤ β h
  contexts : ∀ (p : Nat) (ctx : Context), e.contexts[p]? = some ctx →
    -(n : Int) ≤ ctx.count ∧ ctx.count ≤ t
  inRange : e.InRange

section

variable {β β' : Handle → Nat} {t t' n n' : Nat} {e e' : Engine} {h : Handle} {o : Object}
  {v proto : Value} {c : ContextId} {classId : ClassId} {payload : Payload}

theorem Engine.within_new (limits : Limits) (m t : Nat) :
    (Engine.new limits).Within (fun _ => m) t 0 := by
  refine ⟨fun h k found => ?_, fun p ctx found => ?_, rfl⟩
  · cases found
  · cases found

theorem Engine.Within.mono (within : e.Within β t n) (le : ∀ h, β h ≤ β' h) (top : t ≤ t')
    (low : n ≤ n') :
    e.Within β' t' n' where
  counts h m found := by
    have bound := within.counts h m found
    have more := le h
    omega
  contexts p ctx found := by
    have bound := within.contexts p ctx found
    omega
  inRange := within.inRange

theorem Engine.Within.raiseTop (within : e.Within β t n) : e.Within β (t + 1) n :=
  within.mono (fun _ => Nat.le_refl _) (Nat.le_succ t) (Nat.le_refl n)

theorem Engine.Within.lowerFloor (within : e.Within β t n) : e.Within β t (n + 1) :=
  within.mono (fun _ => Nat.le_refl _) (Nat.le_refl t) (Nat.le_succ n)

theorem Engine.Within.lowers (within : e.Within β t n) (lowers : e.Lowers e') :
    e'.Within β t n where
  counts h m found := by
    obtain ⟨m', found', towards⟩ := lowers.counts h m found
    have bound := within.counts h m' found'
    simp only [TowardsZero] at towards
    omega
  contexts p ctx found := by
    obtain ⟨ctx', found', same⟩ := lowers.contexts p ctx found
    rw [same]
    exact within.contexts p ctx' found'
  inRange := lowers.countWrapped.trans within.inRange

theorem Heap.count?_of_object? {H : Heap} (found : H.object? h = some o) :
    H.count? h = some o.count := by
  rw [Heap.count?, found]
  rfl

/-- A header gets another count, and all others keep theirs. -/
theorem Engine.Within.updateObject {f : Object → Object} (within : e.Within β t n)
    (found : e.heap.object? h = some o) (bound : -(n : Int) ≤ (f o).count ∧ (f o).count ≤ β' h)
    (le : ∀ k, k ≠ h → β k ≤ β' k) : (e.updateObject h f).Within β' t n := by
  refine ⟨fun k m count => ?_, within.contexts, within.inRange⟩
  rw [Engine.heap_updateObject, Heap.count?_update] at count
  split at count
  · rename_i same
    subst same
    rw [found, Option.map_some, Option.some.injEq] at count
    rw [← count]
    exact bound
  · rename_i other
    have before := within.counts k m count
    have more := le k other
    omega

/-- Other bounds that the counts do not exceed. -/
theorem Engine.Within.tighten (within : e.Within β t n)
    (tight : ∀ h m, e.heap.count? h = some m → m ≤ β h → m ≤ β' h) : e.Within β' t n :=
  ⟨fun h m found => ⟨(within.counts h m found).1, tight h m found (within.counts h m found).2⟩,
    within.contexts, within.inRange⟩

/-! ### Taking and giving back -/

theorem Value.count_refs_le (v : Value) (h : Handle) : v.refs.count h ≤ 1 := by
  cases v with
  | immediate w => exact Nat.zero_le 1
  | reference k =>
      rw [Value.refs_reference, Multiset.count_singleton]
      split <;> decide

/-- Where there is room for two references, there is room for one above any other. -/
theorem Value.room_above (v : Value) (h : Handle) (room : β h + 2 < 0x80000000) :
    β h + v.refs.count h + 1 < 0x80000000 := by
  have one := v.count_refs_le h
  omega

theorem Engine.Within.retain (within : e.Within β t n) (room : ∀ h, β h + 1 < 0x80000000)
    (few : n ≤ 0x80000000) : (e.retain v).Within (fun h => β h + v.refs.count h) t n := by
  cases v with
  | immediate w => exact within
  | reference h =>
      have raised (k : Handle) : β k ≤ β k + (Value.reference h).refs.count k :=
        Nat.le_add_right _ _
      show (e.addReference h).Within _ t n
      rw [Engine.addReference]
      split
      · rename_i o found
        have bound := within.counts h o.count (Heap.count?_of_object? found)
        have top := room h
        have fits : CountInRange (o.count + 1) := by
          simp only [CountInRange]
          omega
        rw [Engine.checkCount_of_inRange fits]
        refine within.updateObject found ?_ fun k _ => raised k
        show -(n : Int) ≤ wrapCount (o.count + 1) ∧ wrapCount (o.count + 1) ≤ _
        rw [wrapCount_of_inRange fits, Value.refs_reference, Multiset.count_singleton_self]
        omega
      · have strayed : e.Lowers e.stray := Engine.lowers_aside rfl
        exact (within.lowers strayed).mono raised (Nat.le_refl t) (Nat.le_refl n)

theorem Engine.Within.dropReference (within : e.Within β t n) :
    (e.dropReference h).2.Within (fun k => β k - (Value.reference h).refs.count k) t n := by
  have other (k : Handle) (differ : k ≠ h) : β k ≤ β k - (Value.reference h).refs.count k := by
    rw [Value.refs_reference, Multiset.count_singleton, if_neg differ, Nat.sub_zero]
  rw [Engine.dropReference]
  split
  · rename_i o found
    have bound := within.counts h o.count (Heap.count?_of_object? found)
    split
    · refine within.updateObject found ?_ other
      show -(n : Int) ≤ o.count - 1 ∧ o.count - 1 ≤ _
      rw [Value.refs_reference, Multiset.count_singleton_self]
      omega
    · -- The count is not positive, and stays.
      have recorded : e.Lowers (e.record (.surplusRelease h o)) := Engine.lowers_aside rfl
      refine (within.tighten fun k m count le => ?_).lowers recorded
      by_cases same : k = h
      · subst same
        rw [Heap.count?_of_object? found] at count
        cases count
        omega
      · have more := other k same
        omega
  · rename_i absent
    have strayed : e.Lowers e.stray := Engine.lowers_aside rfl
    refine (within.tighten fun k m count le => ?_).lowers strayed
    by_cases same : k = h
    · subst same
      rw [Heap.count?, absent] at count
      cases count
    · have more := other k same
      omega

/-- A reference that is given back lowers the bound again. -/
theorem Engine.Within.release (within : e.Within β t n) :
    (e.release v).Within (fun h => β h - v.refs.count h) t n := by
  cases v with
  | immediate w => exact within
  | reference h =>
      have dropped := within.dropReference (h := h)
      show (e.releaseReference h).Within _ t n
      rw [Engine.releaseReference]
      split <;> rename_i e' drop <;> rw [drop] at dropped
      · exact dropped.lowers (Engine.slotWork_lowers.queueZero e' h)
      · exact dropped

theorem Engine.lowers_afterRelinquish (e : Engine) (h : Handle) (o : Object) :
    e.Lowers (e.afterRelinquish h o) := by
  rw [Engine.afterRelinquish]
  split
  · exact Engine.slotWork_lowers.queueZero e h
  · split
    · exact Engine.lowers_aside rfl
    · exact .refl e

theorem Engine.Within.relinquish (within : e.Within β t n) (room : ∀ h, β h < 0x80000000)
    (few : n < 0x80000000) : (e.relinquish v).2.Within β t (n + 1) := by
  have later := within.lowerFloor
  cases v with
  | immediate w => exact later
  | reference h =>
      rw [Engine.relinquish]
      simp only [Value.handle?]
      split
      · exact later.lowers (Engine.lowers_aside rfl)
      · rename_i o found
        have bound := within.counts h o.count (Heap.count?_of_object? found)
        have top := room h
        have fits : CountInRange (o.count - 1) := by
          simp only [CountInRange]
          omega
        refine Engine.Within.lowers ?_ (Engine.lowers_afterRelinquish _ h _)
        rw [Engine.checkCount_of_inRange fits]
        refine later.updateObject found ?_ fun k _ => Nat.le_refl _
        show -((n + 1 : ℕ) : Int) ≤ wrapCount (o.count - 1) ∧ wrapCount (o.count - 1) ≤ _
        rw [wrapCount_of_inRange fits]
        omega

/-! ### Contexts -/

theorem Engine.Within.updateContext {ctx : Context} {f : Context → Context}
    (within : e.Within β t n) (found : e.contexts[c.toNat]? = some ctx)
    (bound : -(n : Int) ≤ (f ctx).count ∧ (f ctx).count ≤ t) :
    (e.updateContext c f).Within β t n := by
  refine ⟨within.counts, fun k ctx' found' => ?_, within.inRange⟩
  rw [Engine.contexts_updateContext] at found'
  split at found'
  · rename_i same
    subst same
    rw [found, Option.map_some, Option.some.injEq] at found'
    rw [← found']
    exact bound
  · exact within.contexts k ctx' found'

theorem Engine.Within.shareContext (within : e.Within β t n) (room : t + 1 < 0x80000000)
    (few : n ≤ 0x80000000) : (e.shareContext c).Within β (t + 1) n := by
  have later := within.raiseTop
  rw [Engine.shareContext]
  split
  · rename_i ctx active
    have found := (Engine.activeContext_eq_ok active).1
    have bound := within.contexts c.toNat ctx found
    have fits : CountInRange (ctx.count + 1) := by
      simp only [CountInRange]
      omega
    rw [Engine.checkCount_of_inRange fits]
    refine later.updateContext found ?_
    dsimp only
    rw [wrapCount_of_inRange fits]
    omega
  · exact later.lowers (Engine.lowers_aside rfl)

theorem Engine.Within.leaveContext (within : e.Within β t n) (room : t < 0x80000000)
    (few : n < 0x80000000) : (e.leaveContext c).2.Within β t (n + 1) := by
  have later := within.lowerFloor
  rw [Engine.leaveContext]
  split
  · exact later.lowers (Engine.lowers_aside rfl)
  · rename_i ctx active
    have found := (Engine.activeContext_eq_ok active).1
    have bound := within.contexts c.toNat ctx found
    have fits : CountInRange (ctx.count - 1) := by
      simp only [CountInRange]
      omega
    dsimp only
    refine Engine.Within.lowers ?_ (Engine.lowers_settle _ c _)
    rw [Engine.checkCount_of_inRange fits]
    refine later.updateContext found ?_
    dsimp only
    rw [wrapCount_of_inRange fits]
    omega

/-! ### Making objects -/

theorem Engine.Within.place (within : e.Within β t n) :
    ∃ h, (e.place classId payload).1 = .reference h ∧
      (e.place classId payload).2.Within (Function.update β h 1) t n := by
  refine ⟨e.heap.slots.size, rfl, fun k m count => ?_, within.contexts, within.inRange⟩
  rw [Heap.count?, Engine.object?_place] at count
  by_cases fresh : k = e.heap.slots.size
  · rw [if_pos fresh] at count
    obtain rfl : 1 = m := Option.some.inj count
    subst fresh
    rw [Function.update_self]
    omega
  · rw [if_neg fresh] at count
    rw [Function.update_of_ne fresh]
    exact within.counts k m count

/-- A new object begins with one reference. -/
theorem Engine.Within.allocate_ok (within : e.Within β t n)
    (made : e.allocate classId payload = (.ok v, e')) :
    ∃ h, v = .reference h ∧ e'.Within (Function.update β h 1) t n := by
  obtain ⟨e₁, lowers, ⟨refusal, refused⟩ | placed⟩ := e.allocate_cases classId payload
  · rw [refused] at made
    cases made
  · rw [placed] at made
    cases made
    exact (within.lowers lowers).place

theorem Engine.Within.allocate (within : e.Within β t n) (pos : ∀ h, 1 ≤ β h) :
    (e.allocate classId payload).2.Within β t n := by
  rcases made : e.allocate classId payload with ⟨_ | v, e'⟩
  · -- A refused allocation gives back what the payload owns and takes nothing.
    obtain ⟨e₁, lowers, ⟨refusal, refused⟩ | placed⟩ := e.allocate_cases classId payload
    · cases made.symm.trans refused
      exact within.lowers lowers
    · cases made.symm.trans placed
  · obtain ⟨h, -, fresh⟩ := within.allocate_ok made
    refine fresh.mono (fun k => ?_) (Nat.le_refl t) (Nat.le_refl n)
    by_cases same : k = h
    · rw [same, Function.update_self]
      exact pos h
    · rw [Function.update_of_ne same]

/-! ### Constructors -/

/-- One reference more than before, whatever it is on. -/
theorem Engine.Within.oneMore (within : e.Within (fun h => β h + v.refs.count h) t n) :
    e.Within (fun h => β h + 1) t n :=
  within.mono (fun h => Nat.add_le_add_left (v.count_refs_le h) _) (Nat.le_refl t) (Nat.le_refl n)

theorem Engine.Within.raise (within : e.Within β t n) : e.Within (fun h => β h + 1) t n :=
  within.mono (fun _ => Nat.le_succ _) (Nat.le_refl t) (Nat.le_refl n)

/-- A reference that was taken is given back. -/
theorem Engine.Within.released (within : e.Within (fun h => β h + v.refs.count h) t n) :
    (e.release v).Within β t n :=
  within.release.mono (fun _ => Nat.le_of_eq (Nat.add_sub_cancel _ _)) (Nat.le_refl t)
    (Nat.le_refl n)

theorem Engine.Within.allocateWithProto (within : e.Within β t n) (pos : ∀ h, 1 ≤ β h)
    (room : ∀ h, β h + 1 < 0x80000000) (few : n ≤ 0x80000000) :
    (e.allocateWithProto proto classId payload).2.Within (fun h => β h + proto.refs.count h) t n :=
  (within.retain room few).allocate fun h => Nat.le_add_right_of_le (pos h)

theorem Engine.Within.makeWithProto (within : e.Within β t n) (pos : ∀ h, 1 ≤ β h)
    (room : ∀ h, β h + 1 < 0x80000000) (few : n ≤ 0x80000000) :
    (e.makeWithProto proto classId).2.Within (fun h => β h + proto.refs.count h) t n := by
  rw [Engine.makeWithProto]
  split
  · exact within.allocateWithProto pos room few
  · exact within.mono (fun h => Nat.le_add_right _ _) (Nat.le_refl t) (Nat.le_refl n)

theorem Engine.Within.makeOfClass (within : e.Within β t n) (pos : ∀ h, 1 ≤ β h)
    (room : ∀ h, β h + 1 < 0x80000000) (few : n ≤ 0x80000000) :
    (e.makeOfClass c classId).2.Within (fun h => β h + 1) t n := by
  rw [Engine.makeOfClass]
  split
  · exact (within.makeWithProto pos room few).oneMore
  · exact within.raise

theorem Engine.Within.makeHost {cookie : UInt64} (within : e.Within β t n) (pos : ∀ h, 1 ≤ β h)
    (room : ∀ h, β h + 1 < 0x80000000) (few : n ≤ 0x80000000) :
    (e.makeHost proto classId cookie).2.Within (fun h => β h + 1) t n := by
  rw [Engine.makeHost]
  split
  · exact (within.allocateWithProto pos room few).oneMore
  · exact within.raise

theorem Engine.Within.makeNumber {d : Binary64} (within : e.Within β t n) (pos : ∀ h, 1 ≤ β h) :
    (e.makeNumber d).2.Within β t n := by
  rw [Engine.makeNumber]
  split
  · exact within
  · exact within.allocate pos

theorem Engine.Within.globalOf (within : e.Within β t n) (room : ∀ h, β h + 1 < 0x80000000)
    (few : n ≤ 0x80000000) : (e.globalOf c).2.Within (fun h => β h + 1) t n := by
  rw [Engine.globalOf]
  split
  · exact (within.retain room few).oneMore
  · exact within.raise

theorem Engine.Within.takeProto (within : e.Within β t n) (room : ∀ h, β h + 1 < 0x80000000)
    (few : n ≤ 0x80000000) : (e.takeProto c classId).2.Within (fun h => β h + 1) t n := by
  rw [Engine.takeProto]
  split
  · exact (within.retain room few).oneMore
  · exact within.raise

/-- The prototype has two references more for a moment. -/
theorem Engine.Within.makeFunctionIn {name : String} (within : e.Within β t n)
    (pos : ∀ h, 1 ≤ β h) (room : ∀ h, β h + 2 < 0x80000000) (few : n ≤ 0x80000000) :
    (e.makeFunctionIn c name).2.Within (fun h => β h + 1) t n := by
  rcases found : e.protoFor c ClassId.function with refusal | proto
  · rw [Engine.makeFunctionIn, Engine.takeProto, found]
    exact within.raise
  · rw [Engine.makeFunctionIn, Engine.takeProto, found]
    have taken := within.retain (v := proto) (fun h => Nat.lt_of_succ_lt (room h)) few
    have made : ((e.retain proto).makeFunction name proto).2.Within _ t n :=
      taken.allocateWithProto (fun h => Nat.le_add_right_of_le (pos h))
        (fun h => proto.room_above h (room h)) few
    exact made.released.oneMore

theorem Engine.Within.construct {constructor : Value} (within : e.Within β t n)
    (pos : ∀ h, 1 ≤ β h) (room : ∀ h, β h + 2 < 0x80000000) (few : n ≤ 0x80000000) :
    (e.construct c constructor classId).2.Within (fun h => β h + 1) t n := by
  have room' (h : Handle) : β h + 1 < 0x80000000 := Nat.lt_of_succ_lt (room h)
  have fetched : e.fetch constructor "prototype" =
      ((e.fetch constructor "prototype").1, e.retain (e.fetch constructor "prototype").1) :=
    Prod.ext rfl Engine.snd_fetch
  rw [Engine.construct, fetched]
  generalize (e.fetch constructor "prototype").1 = proto
  have taken := within.retain (v := proto) room' few
  split
  · exact within.raise
  · split
    · exact within.makeOfClass pos room' few
    · dsimp only
      split
      · have made : ((e.retain proto).makeWithProto proto classId).2.Within _ t n :=
          taken.makeWithProto (fun h => Nat.le_add_right_of_le (pos h))
            (fun h => proto.room_above h (room h)) few
        exact made.released.oneMore
      · exact taken.released.makeOfClass pos room' few

theorem Engine.Within.makeKeyTable (within : e.Within β t n) (pos : ∀ h, 1 ≤ β h)
    (made : Array KeyEntry) (keys : List String) : (e.makeKeyTable made keys).2.Within β t n := by
  induction keys generalizing e made with
  | nil => exact within
  | cons key rest ih =>
      have placed : (e.makeString key).2.Within β t n := within.allocate pos
      rw [Engine.makeKeyTable]
      split <;> rename_i step <;> rw [step] at placed
      · exact ih placed _
      · exact placed.lowers (Engine.lowers_releaseAll _ _)

/-! ### References of the host -/

theorem Engine.Within.fetch {target : Value} {key : String} (within : e.Within β t n)
    (room : ∀ h, β h + 1 < 0x80000000) (few : n ≤ 0x80000000) :
    (e.fetch target key).2.Within (fun h => β h + 1) t n := by
  rw [Engine.snd_fetch]
  exact (within.retain room few).oneMore

theorem Engine.Within.adopt (within : e.Within β t n) (room : ∀ h, β h + 1 < 0x80000000)
    (few : n ≤ 0x80000000) : (e.adopt v).Within (fun h => β h + 1) t n := by
  cases v with
  | immediate w => exact within.raise
  | reference h =>
      have marked : e.Lowers (e.updateObject h Object.adopt) :=
        Engine.lowers_updateObject fun o _ => .refl o.count
      exact ((within.lowers marked).retain (v := .reference h) room few).oneMore

theorem Engine.Within.register (within : e.Within β t n) (room : ∀ h, β h + 1 < 0x80000000)
    (few : n ≤ 0x80000000) : (e.register c v).2.Within (fun h => β h + 1) t n := by
  rw [Engine.register]
  split
  · split
    · exact (within.retain room few).oneMore.lowers (Engine.lowers_updateContext fun _ => by rfl)
    · exact within.raise
  · exact within.raise
  · exact within.raise

/-! ### A new context

Its object prototype gets a reference from the context, from each other prototype and from the
global object. -/

section

variable {base : Handle} {j k : Nat} {prototypes : Array Value}

/-- One more reference on the object prototype. -/
theorem Engine.Within.makeOnBase (within : e.Within (Function.update β base j) t n)
    (pos : ∀ h, 1 ≤ β h) (begun : 1 ≤ j) (room : ∀ h, β h + 1 < 0x80000000)
    (few : j + 1 < 0x80000000) (few' : n ≤ 0x80000000) :
    (e.allocateWithProto (.reference base) classId payload).2.Within
      (Function.update β base (j + 1)) t n := by
  refine (within.allocateWithProto (fun h => ?_) (fun h => ?_) few').mono (fun h => ?_)
    (Nat.le_refl t) (Nat.le_refl n)
  all_goals
    by_cases same : h = base
    · subst same
      simp only [Function.update_self, Value.refs_reference, Multiset.count_singleton_self]
      omega
    · simp only [Function.update_of_ne same, Value.refs_reference, Multiset.count_singleton,
        if_neg same]
      have low := pos h
      have top := room h
      omega

theorem Engine.Within.makePrototypes (within : e.Within (Function.update β base j) t n)
    (pos : ∀ h, 1 ≤ β h) (begun : 1 ≤ j) (room : ∀ h, β h + 1 < 0x80000000)
    (few : j + k < 0x80000000) (few' : n ≤ 0x80000000) (made : Array Value) :
    (e.makePrototypes (.reference base) made k).2.Within (Function.update β base (j + k)) t n := by
  -- Each prototype adds a reference on the base; a refusal gives all others back at once, which
  -- moves no count up.
  induction k generalizing e made j with
  | zero => exact within
  | succ k ih =>
      have one : (e.makePlain (.reference base)).2.Within (Function.update β base (j + 1)) t n :=
        within.makeOnBase pos begun room (by omega) few'
      rw [Engine.makePrototypes]
      split <;> rename_i step <;> rw [step] at one
      · rw [← Nat.add_assoc, Nat.add_right_comm]
        exact ih one (Nat.le_add_left 1 j) (by omega) _
      · refine (one.mono (fun h => ?_) (Nat.le_refl t) (Nat.le_refl n)).lowers
          (Engine.lowers_releaseAll _ _)
        by_cases same : h = base
        · rw [same, Function.update_self, Function.update_self]
          omega
        · rw [Function.update_of_ne same, Function.update_of_ne same]

theorem Engine.Within.makeContext (within : e.Within (Function.update β base j) t n)
    (pos : ∀ h, 1 ≤ β h) (begun : 1 ≤ j) (room : ∀ h, β h + 1 < 0x80000000)
    (few : j + 1 < 0x80000000) (few' : n ≤ 0x80000000) (one : 1 ≤ t) :
    (e.makeContext (.reference base) prototypes).2.Within (Function.update β base (j + 1)) t n := by
  have placed : (e.allocateWithProto (.reference base) ClassId.global
      (.plain (.reference base) [])).2.Within _ t n :=
    within.makeOnBase pos begun room few few'
  rw [Engine.makeContext]
  split <;> rename_i step <;> rw [step] at placed
  · exact placed.lowers (Engine.lowers_releaseAll _ _)
  · refine ⟨placed.counts, fun k ctx found => ?_, placed.inRange⟩
    rw [Array.getElem?_push] at found
    split at found
    · cases found
      dsimp only
      omega
    · exact placed.contexts k ctx found

theorem Engine.Within.openContext {requested : Nat} (within : e.Within β t n)
    (wide : ∀ h, prototypeSlotLimit + 1 ≤ β h) (room : ∀ h, β h + 1 < 0x80000000)
    (few : n ≤ 0x80000000) (one : 1 ≤ t) : (e.openContext requested).2.Within β t n := by
  have pos (h : Handle) : 1 ≤ β h := Nat.le_of_add_left_le (wide h)
  have slots : 1 + (prototypeSlots requested - 1) + 1 ≤ prototypeSlotLimit + 1 := by
    simp only [prototypeSlots, prototypeSlotLimit, builtinClassCount]
    omega
  have small : 1 + (prototypeSlots requested - 1) + 1 < 0x80000000 :=
    Nat.lt_of_le_of_lt slots (by decide)
  have back {b j : Nat} {e : Engine} (within : e.Within (Function.update β b j) t n)
      (le : j ≤ prototypeSlotLimit + 1) : e.Within β t n := by
    refine within.mono (fun h => ?_) (Nat.le_refl t) (Nat.le_refl n)
    by_cases same : h = b
    · rw [same, Function.update_self]
      exact le.trans (wide b)
    · rw [Function.update_of_ne same]
  have null : e.makePlain Value.null = e.allocate ClassId.object (.plain Value.null []) := rfl
  have placed : (e.allocate ClassId.object (.plain Value.null [])).2.Within β t n :=
    within.allocate pos
  rw [Engine.openContext, null]
  split
  · exact within
  · split
    · rename_i step
      rw [step] at placed
      exact placed
    · rename_i step
      obtain ⟨b, rfl, based⟩ := within.allocate_ok step
      have prototypes := based.makePrototypes (k := prototypeSlots requested - 1) pos
        (Nat.le_refl 1) room (Nat.lt_of_succ_lt small) few #[.reference b]
      split <;> rename_i step <;> rw [step] at prototypes
      · exact back prototypes (Nat.le_of_succ_le slots)
      · exact back (prototypes.makeContext pos (Nat.le_add_right 1 _) room small few one) slots

end

end

end CountedHeap
