import CountedHeap.Proofs.Session

/-!
What the count discipline says about runs. No reference dangles, however badly a
host treats the bridge: whatever a live object, an open context or the host owns
has a header. And where the host is strict, counts are exact: each is the sum of
the references on the ledger, in live payloads, in open contexts, and in the
registrations that closed contexts did not give back.
-/

namespace CountedHeap

/-! ### No dangling references -/

/-- Every reference that somebody owns names an object that is live or parked,
and no header that is gone was ever asked for. A shutdown finds the contexts to close
by their ids, so after it this is said of contexts only if there were ids for all. -/
structure Session.Safe (s : Session) : Prop where
  payloads : ∀ h o, s.engine.heap.slot h = .live o →
    ∀ v ∈ o.payload.values, s.engine.isValid v = true
  contexts : (s.engine.isClosed = true → s.engine.contexts.size ≤ 0x100000000) →
    ∀ ctx ∈ s.engine.contexts, ctx.isOpen = true →
      ∀ v ∈ ctx.global :: (ctx.prototypes.toList ++ ctx.registered.toList),
        s.engine.isValid v = true
  ledger : ∀ h ∈ s.ledger, s.engine.isValid (.reference h) = true
  unstrayed : s.engine.breaches.strayAccess = false

section

variable {d : Discipline} {limits : Limits} {s : Session} {h : Handle} {o : Object}

theorem Reached.safe (reached : Reached d limits s) : s.Safe := by
  have hs := reached.settled
  refine ⟨?_, ?_, ?_, hs.blameless.unstrayed⟩
  · intro h o slot v mem
    rw [Engine.isValid_iff]
    have found : s.engine.object? (.reference h) = some o := Heap.object?_of_live slot
    exact hs.names_of_mem_values found mem
  · intro few ctx mem hopen v owned
    rw [Engine.isValid_iff]
    cases closed : s.engine.isClosed with
    | false => exact hs.names_of_mem_context closed mem hopen owned
    | true =>
        obtain ⟨c, found⟩ := exists_id_of_mem mem (few closed)
        exact hs.names_of_context found hopen owned
  · intro h mem
    rw [Engine.isValid_iff, Engine.names_reference]
    exact hs.owned.named h (Multiset.mem_add.2 (.inl mem))

/-- A host that stores a string in an object, and then gives back on the bridge
more references on the string than there are. -/
def overReleased : List (Action × Bool) :=
  [(.makePlain Value.null, true), (.makeString "x", true), (.retain (.reference 1), true),
    (.store (.reference 0) "k" (.reference 1), true), (.relinquish (.reference 1), false),
    (.relinquish (.reference 1), false), (.relinquish (.reference 1), false)]

/-- The string is over-released, and both the object and the host still refer to it. -/
theorem safe_overReleased : ∃ s, Reached .plain {} s ∧ s.engine.isClosed = false ∧
    s.engine.countOf (.reference 1) < 0 ∧ 1 ∈ s.engine.heap.ownedBy 0 ∧ 1 ∈ s.ledger ∧ s.Safe := by
  have run : ((Session.start {}).follow .plain overReleased).any (fun s =>
      decide (s.engine.isClosed = false ∧ s.engine.countOf (.reference 1) < 0 ∧
        1 ∈ s.engine.heap.ownedBy 0 ∧ 1 ∈ s.ledger)) = true := by
    decide +kernel
  obtain ⟨s, followed, facts⟩ := (Option.any_eq_true _ _).1 run
  obtain ⟨hopen, below, stored, owned⟩ := of_decide_eq_true facts
  have reached : Reached .plain {} s := Reached.start.follow followed
  exact ⟨s, reached, hopen, below, stored, owned, reached.safe⟩

/-! ### Exact counts -/

/-- The count of a live or parked object is the number of references that the
host owns on it, that live payloads own, that open contexts own, and that closed
contexts did not give back. -/
theorem Reached.count_eq (reached : Reached .strict limits s)
    (found : s.engine.heap.object? h = some o) :
    o.count = (s.ledger.count h + s.engine.heap.references.count h + s.engine.anchors.count h +
      s.engine.abandoned.count h : ℕ) := by
  have exact := reached.settled_strict.owned.exact h o found (Finset.notMem_empty h)
  rw [exact, Engine.references]
  simp only [Multiset.count_add, add_assoc]

/-- A host that registers a string on a context and closes that, and then owns
the string, keeps it in an array and registers it on another context. -/
def ownedFourTimes : List (Action × Bool) :=
  [(.openContext 0, true), (.openContext 0, true), (.makeString "x", true),
    (.register 0 (.reference 14), true), (.release (.reference 14), true), (.leaveContext 0, true),
    (.retain (.reference 14), true), (.adopt (.reference 14), true),
    (.makeArray Value.null #[.reference 14], true), (.register 1 (.reference 14), true)]

theorem count_eq_ownedFourTimes : ∃ s, Reached .strict {} s ∧ ∃ o,
    s.engine.heap.object? 14 = some o ∧ s.ledger.count 14 = 1 ∧
      s.engine.heap.references.count 14 = 1 ∧ s.engine.anchors.count 14 = 1 ∧
        s.engine.abandoned.count 14 = 1 ∧ o.count = (1 + 1 + 1 + 1 : ℕ) := by
  have run : ((Session.start {}).follow .strict ownedFourTimes).any (fun s =>
      decide (s.ledger.count 14 = 1 ∧ s.engine.heap.references.count 14 = 1 ∧
        s.engine.anchors.count 14 = 1 ∧ s.engine.abandoned.count 14 = 1) &&
          (s.engine.heap.object? 14).isSome) = true := by
    decide +kernel
  obtain ⟨s, followed, facts⟩ := (Option.any_eq_true _ _).1 run
  rw [Bool.and_eq_true, Option.isSome_iff_exists] at facts
  obtain ⟨counts, o, found⟩ := facts
  obtain ⟨ledger, stored, anchored, left⟩ := of_decide_eq_true counts
  have reached : Reached .strict {} s := Reached.start.follow followed
  have exact := reached.count_eq found
  rw [ledger, stored, anchored, left] at exact
  exact ⟨s, reached, o, found, ledger, stored, anchored, left, exact⟩

end

end CountedHeap
