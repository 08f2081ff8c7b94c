import CountedHeap.Proofs.Finalization
import CountedHeap.Proofs.Ownership

/-!
The mark of the host. A header carries it if and only if the host has at least
once taken or given back a reference of its own on the object. The mark is set by
nothing but a claim on the bridge, and never taken away: ending an object leaves
it on the parked header, and a new object begins without it.
-/

namespace CountedHeap

/-- The headers that carry the mark of the host are those of the objects in `C`. -/
structure Engine.Marks (C : Set Handle) (e : Engine) : Prop where
  adopted : ∀ h o, e.heap.object? h = some o → (o.adopted = true ↔ h ∈ C)
  issued : ∀ h ∈ C, h < e.heap.slots.size

section

variable {C D : Set Handle} {K : Prop} {e e' : Engine} {h k : Handle} {o o' : Object} {v : Value}

/-! ### One change -/

theorem Slot.object?_map (s : Slot) (f : Object → Object) :
    (s.map f).object? = s.object?.map f := by
  cases s <;> rfl

theorem Slot.adopted_discard {s : Slot} (found : s.discard.object? = some o') :
    ∃ o, s.object? = some o ∧ o'.adopted = o.adopted := by
  cases s with
  | live o =>
      rw [Slot.discard] at found
      split at found
      · exact ⟨o, rfl, Option.some.inj found ▸ rfl⟩
      · cases found
  | parked o => exact ⟨o', found, rfl⟩
  | reclaimed => cases found

theorem Engine.adopted_update {f : Object → Object}
    (slots : e'.heap.slots = (e.heap.update h f).slots) (found : e'.heap.object? k = some o') :
    ∃ o, e.heap.object? k = some o ∧ o' = if k = h then f o else o := by
  have same : e'.heap.object? k = (e.heap.update h f).object? k := by
    rw [Heap.object?, Heap.slot, slots]
    rfl
  rw [same, Heap.object?_update] at found
  by_cases here : k = h
  · rw [if_pos here] at found
    obtain ⟨o, before, rfl⟩ := Option.map_eq_some_iff.1 found
    exact ⟨o, before, (if_pos here).symm⟩
  · rw [if_neg here] at found
    exact ⟨o', found, (if_neg here).symm⟩

/-- Where a header after a change comes from, and its mark. -/
theorem Engine.Change.adopted (change : Engine.Change C K e e') (tidy : e.heap.Tidy)
    (found : e'.heap.object? k = some o') :
    (∃ o, e.heap.object? k = some o ∧ (o'.adopted = o.adopted ∨ k ∈ C ∧ o'.adopted = true)) ∨
      e.heap.slots.size ≤ k ∧ o'.adopted = false := by
  cases change with
  | aside heap =>
      rw [heap] at found
      exact .inl ⟨o', found, .inl rfl⟩
  | recount h g =>
      obtain ⟨o, before, rfl⟩ := Engine.adopted_update (h := h) rfl found
      refine .inl ⟨o, before, .inl ?_⟩
      split <;> rfl
  | @claim h mem g =>
      obtain ⟨o, before, rfl⟩ := Engine.adopted_update (h := h) rfl found
      refine .inl ⟨o, before, ?_⟩
      split
      · rename_i same
        exact .inr ⟨same ▸ mem, rfl⟩
      · exact .inl rfl
  | @lengthen h _ f n =>
      obtain ⟨o, before, rfl⟩ := Engine.adopted_update (h := h) rfl found
      refine .inl ⟨o, before, .inl ?_⟩
      split <;> rfl
  | @shorten h _ f n =>
      obtain ⟨o, before, rfl⟩ := Engine.adopted_update (h := h) rfl found
      refine .inl ⟨o, before, .inl ?_⟩
      split <;> rfl
  | dispose h =>
      by_cases live : e.heap.isLive h = true
      · obtain ⟨o, slot⟩ := Heap.isLive_iff.1 live
        obtain ⟨dropped, diagnostics, breaches, result⟩ := Engine.dispose_eq_of_live tidy slot
        rw [result, Heap.object?, Heap.slot_disposed slot] at found
        by_cases same : k = h
        · subst k
          rw [if_pos rfl] at found
          refine .inl ⟨o, Heap.object?_of_live slot, .inl ?_⟩
          split at found
          · exact Option.some.inj found ▸ rfl
          · cases found
        · rw [if_neg same, Slot.object?_map] at found
          obtain ⟨o, before, rfl⟩ := Option.map_eq_some_iff.1 found
          exact .inl ⟨o, before, .inl rfl⟩
      · obtain ⟨breaches, result⟩ :=
          Engine.dispose_eq_of_not_live tidy (Bool.eq_false_iff.2 live)
        rw [result] at found
        exact .inl ⟨o', found, .inl rfl⟩
  | sweep =>
      obtain ⟨S, result⟩ := Engine.sweep_eq tidy
      rw [result, Heap.object?, Engine.slot_swept tidy] at found
      split at found
      · exact .inl ⟨o', found, .inl rfl⟩
      · obtain ⟨o, before, same⟩ := Slot.adopted_discard found
        exact .inl ⟨o, before, .inl same⟩
  | place hopen fits =>
      rw [Engine.object?_place] at found
      split at found
      · rename_i new
        exact .inr ⟨Nat.le_of_eq new.symm, Option.some.inj found ▸ rfl⟩
      · exact .inl ⟨o', found, .inl rfl⟩
  | close =>
      rw [Heap.object?, Engine.heap_close, Heap.slot_clear] at found
      cases found

theorem Engine.Change.size_le (change : Engine.Change C K e e') (tidy : e.heap.Tidy) :
    e.heap.slots.size ≤ e'.heap.slots.size := by
  rcases change.made tidy with ⟨-, same⟩ | ⟨o, -, grown, -⟩
  · exact Nat.le_of_eq same.symm
  · rw [grown]
    exact Nat.le_succ _

/-! ### Requests -/

/-- As long as its header is there, the object carries the mark of the host. -/
def Engine.Keeps (e : Engine) (h : Handle) : Prop :=
  h < e.heap.slots.size ∧ ∀ o, e.heap.object? h = some o → o.adopted = true

theorem Engine.Change.keeps (change : Engine.Change C K e e') (tidy : e.heap.Tidy)
    (keeps : e.Keeps h) : e'.Keeps h := by
  refine ⟨keeps.1.trans_le (change.size_le tidy), fun o' found => ?_⟩
  rcases change.adopted tidy found with ⟨o, before, same | ⟨-, marked⟩⟩ | ⟨new, -⟩
  · exact same.trans (keeps.2 o before)
  · exact marked
  · exact absurd keeps.1 (Nat.not_lt.2 new)

/-- Chains of changes keep the mark. -/
theorem Engine.Changes.keeps (changes : Engine.Changes C K e e') (tidy : e.heap.Tidy)
    (keeps : e.Keeps h) : e'.heap.Tidy ∧ e'.Keeps h :=
  Engine.Changes.keep (P := fun e => e.heap.Tidy ∧ e.Keeps h) changes
    (fun change holds => ⟨change.tidy holds.1, change.keeps holds.1 holds.2⟩) ⟨tidy, keeps⟩

/-- Only claimed objects get the mark. -/
theorem Engine.Changes.adopted (changes : Engine.Changes C K e e') (tidy : e.heap.Tidy)
    (adopted : ∀ h o, e.heap.object? h = some o → o.adopted = true → h ∈ D) :
    e'.heap.Tidy ∧ ∀ h o, e'.heap.object? h = some o → o.adopted = true → h ∈ D ∪ C := by
  refine Engine.Changes.keep (P := fun e => e.heap.Tidy ∧
      ∀ h o, e.heap.object? h = some o → o.adopted = true → h ∈ D ∪ C) changes ?_
    ⟨tidy, fun h o found marked => .inl (adopted h o found marked)⟩
  rintro e₁ e₂ change ⟨tidy, before⟩
  refine ⟨change.tidy tidy, fun h o' found marked => ?_⟩
  rcases change.adopted tidy found with ⟨o, found, same | ⟨mem, -⟩⟩ | ⟨-, bare⟩
  · exact before h o found (same.symm.trans marked)
  · exact .inr mem
  · rw [bare] at marked
    cases marked

theorem Engine.keeps_updateObject {f : Object → Object} (found : e.heap.object? h = some o)
    (marks : (f o).adopted = true) : (e.updateObject h f).Keeps h := by
  refine ⟨Heap.size_update.symm ▸ Heap.lt_size_of_object? found, fun o' found' => ?_⟩
  rw [Engine.heap_updateObject, Heap.object?_update, if_pos rfl, found] at found'
  exact Option.some.inj found' ▸ marks

theorem Engine.keeps_adopt (tidy : e.heap.Tidy) (found : e.heap.object? h = some o) :
    (e.adopt (.reference h)).Keeps h := by
  have marked : (e.updateObject h Object.adopt).heap.Tidy := tidy.update Object.recounts_adopt
  exact ((Engine.changes_addReference (C := ∅) (K := False)).keeps marked
    (Engine.keeps_updateObject found rfl)).2

theorem Engine.keeps_relinquish (tidy : e.heap.Tidy) (found : e.heap.object? h = some o) :
    (e.relinquish (.reference h)).2.Keeps h := by
  have checked : (e.checkCount (o.count - 1)).heap.object? h = some o := by
    rw [Engine.heap_checkCount]
    exact found
  have marked : ((e.checkCount (o.count - 1)).updateObject h fun o' =>
      { o'.adopt with count := wrapCount (o.count - 1) }).heap.Tidy := by
    rw [Engine.heap_updateObject, Engine.heap_checkCount]
    exact tidy.update (Object.recounts_relinquish _)
  have left : Engine.Changes ∅ False ((e.checkCount (o.count - 1)).updateObject h fun o' =>
      { o'.adopt with count := wrapCount (o.count - 1) }) (e.relinquish (.reference h)).2 := by
    simp only [Engine.relinquish, Value.handle?, found, Engine.afterRelinquish]
    split
    · exact Engine.changes_queueZero
    · split
      · exact Engine.changes_record
      · exact .refl _
  exact (left.keeps marked (Engine.keeps_updateObject checked rfl)).2

/-- An object that a request claims carries the mark afterwards. -/
theorem Engine.keeps_carryOut {a : Action} (tidy : e.heap.Tidy)
    (named : ∀ v ∈ a.arguments, e.Names v) (claims : h ∈ a.claimed) : (e.carryOut a).2.Keeps h := by
  have header {v : Value} (mem : v ∈ a.arguments) (same : v = .reference h) :
      ∃ o, e.heap.object? h = some o :=
    Engine.names_reference.1 (same ▸ named v mem)
  cases a with
  | adopt v =>
      obtain ⟨o, found⟩ := header List.mem_cons_self claims
      obtain rfl : v = .reference h := claims
      exact Engine.keeps_adopt tidy found
  | hold v =>
      obtain ⟨o, found⟩ := header List.mem_cons_self claims
      obtain rfl : v = .reference h := claims
      exact Engine.keeps_adopt tidy found
  | relinquish v =>
      obtain ⟨o, found⟩ := header List.mem_cons_self claims
      obtain rfl : v = .reference h := claims
      exact Engine.keeps_relinquish tidy found
  | letGo held =>
      obtain ⟨o, found⟩ := header List.mem_cons_self claims
      have same : held.value = .reference h := claims
      show (e.letGo held).2.Keeps h
      rw [Engine.letGo, same]
      exact Engine.keeps_relinquish tidy found
  | _ => exact absurd claims (Set.notMem_empty h)

/-- A request with valid arguments marks what it claims, and nothing else. -/
theorem Engine.Marks.perform {a : Action} (marks : e.Marks C) (tidy : e.heap.Tidy)
    (valid : ∀ v ∈ a.arguments, e.isValid v = true) :
    (e.perform a).2.heap.Tidy ∧ (e.perform a).2.Marks (C ∪ a.claimed) := by
  obtain ⟨e', finalizers, changes, result⟩ := e.changes_perform a
  obtain ⟨tidy', claimed⟩ := changes.adopted tidy fun h o found => (marks.adopted h o found).1
  have kept : ∀ h ∈ C ∪ a.claimed, (e.perform a).2.Keeps h := by
    rintro h (old | claims)
    · have keeps : e.Keeps h :=
        ⟨marks.issued h old, fun o found => (marks.adopted h o found).2 old⟩
      obtain ⟨-, keeps'⟩ := changes.keeps tidy keeps
      rw [result]
      exact ⟨keeps'.1, keeps'.2⟩
    · rw [Engine.perform_of_valid valid]
      exact Engine.keeps_carryOut tidy (fun v mem => Engine.isValid_iff.1 (valid v mem)) claims
  refine ⟨?_, fun h o found => ⟨?_, fun mem => (kept h mem).2 o found⟩, fun h mem => (kept h mem).1⟩
  · rw [result]
    exact tidy'
  · rw [result] at found
    exact claimed h o found

/-! ### Runs -/

/-- The objects that a host has claimed in the course of a run. -/
def claimedIn (steps : List (Action × Bool)) : Set Handle :=
  {h | ∃ step ∈ steps, h ∈ step.1.claimed}

theorem claimedIn_cons (step : Action × Bool) (rest : List (Action × Bool)) :
    claimedIn (step :: rest) = step.1.claimed ∪ claimedIn rest := by
  ext h
  simp [claimedIn]

theorem Session.marks_follow {d : Discipline} {s s' : Session} {steps : List (Action × Bool)}
    (followed : s.follow d steps = some s') (marks : s.engine.Marks C)
    (tidy : s.engine.heap.Tidy) : s'.engine.Marks (C ∪ claimedIn steps) := by
  induction steps generalizing s C with
  | nil =>
      obtain rfl : s = s' := Option.some.inj followed
      have none : claimedIn [] = ∅ := by
        ext h
        simp [claimedIn]
      rwa [none, Set.union_empty]
  | cons step rest ih =>
      obtain ⟨a, booked⟩ := step
      rw [Session.follow] at followed
      split at followed
      · rename_i fine
        obtain ⟨tidy', marks'⟩ := marks.perform tidy fine.1.valid
        rw [claimedIn_cons, ← Set.union_assoc]
        exact ih followed marks' tidy'
      · cases followed

theorem Engine.marks_new (limits : Limits) : (Engine.new limits).Marks ∅ :=
  ⟨fun h o found => (by simp [Engine.new, Heap.object?, Heap.slot, Slot.object?] at found),
    fun h mem => absurd mem (Set.notMem_empty h)⟩

/-- After a run from a new engine the marked headers are those of the objects that
the host has claimed. -/
theorem Session.marks_of_follow {d : Discipline} {limits : Limits} {s : Session}
    {steps : List (Action × Bool)} (followed : (Session.start limits).follow d steps = some s) :
    s.engine.Marks (claimedIn steps) := by
  have marks := Session.marks_follow followed (Engine.marks_new limits) (fun _ => trivial)
  rwa [Set.empty_union] at marks

end

end CountedHeap
