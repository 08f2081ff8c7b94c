import CountedHeap.Proofs.Teardown

/-!
Shutting down. When all contexts are closed no context owns anything any more,
and when the heap is cleared nothing has a header any more; so no references are
left, inside or outside.
-/

namespace CountedHeap

/-- The engine of a shutdown before the last collection: every context is closed. -/
def Engine.closeAll (e : Engine) : Engine :=
  e.openContexts.foldl Engine.tearDown e

section

variable {e : Engine} {M : Finset Handle} {X : Multiset Handle}

/-! ### Closing every context -/

theorem Engine.Settled.foldl_tearDown {cs : List ContextId} (hs : e.Settled M X) :
    (cs.foldl Engine.tearDown e).Settled M X := by
  induction cs generalizing e with
  | nil => exact hs
  | cons c rest ih => exact ih hs.tearDown

theorem Engine.Settled.closeAll (hs : e.Settled M X) : e.closeAll.Settled M X :=
  hs.foldl_tearDown

theorem Engine.contexts_foldl_tearDown (cs : List ContextId) (k : Nat) :
    (cs.foldl Engine.tearDown e).contexts[k]? =
      if k ∈ cs.map UInt32.toNat then e.contexts[k]?.map Context.shut else e.contexts[k]? := by
  induction cs generalizing e with
  | nil => rfl
  | cons c rest ih =>
      rw [List.foldl_cons, ih, Engine.contexts_tearDown]
      simp only [List.map_cons, List.mem_cons]
      by_cases same : k = c.toNat
      · -- Closing a context a second time does nothing.
        simp only [same, true_or, if_true, Option.map_map, Function.comp_def, Context.shut_shut,
          ite_self]
      · simp only [same, false_or, if_false]

theorem Engine.mem_openContexts {ctx : Context} (mem : ctx ∈ e.contexts)
    (hopen : ctx.isOpen = true) : ctx.id ∈ e.openContexts :=
  List.mem_map_of_mem (List.mem_filter.2 ⟨Array.mem_toList_iff.2 mem, hopen⟩)

/-- No id leads to an open context any more. A context that was opened when all ids
were given out already is not closed, for its id leads to another. -/
theorem Engine.isOpen_closeAll {closed : Bool} {c : ContextId} {ctx : Context}
    (addressed : Addressed e.contexts closed)
    (found : e.closeAll.contexts[c.toNat]? = some ctx) : ctx.isOpen = false := by
  rw [Engine.closeAll, Engine.contexts_foldl_tearDown] at found
  split at found
  · obtain ⟨old, -, rfl⟩ := Option.map_eq_some_iff.1 found
    exact old.isOpen_shut
  · rename_i off
    by_contra hopen
    have listed := Engine.mem_openContexts (Array.mem_of_getElem? found)
      (Bool.eq_true_of_not_eq_false hopen)
    rw [addressed.id_eq c.toNat ctx found, UInt32.ofNat_toNat] at listed
    exact off (List.mem_map_of_mem listed)

theorem Engine.size_closeAll : e.closeAll.contexts.size = e.contexts.size := by
  refine size_eq_of_getElem? (f := fun k ctx =>
    if k ∈ e.openContexts.map UInt32.toNat then ctx.shut else ctx) fun k => ?_
  rw [Engine.closeAll, Engine.contexts_foldl_tearDown]
  split
  · rfl
  · exact Option.map_id'.symm

/-- Where there are ids for all contexts, none is left open. -/
theorem Engine.anchors_closeAll (addressed : Addressed e.contexts e.isClosed)
    (few : e.contexts.size ≤ 0x100000000) : e.closeAll.anchors = 0 := by
  rw [Engine.anchors]
  split
  · rfl
  · apply Multiset.eq_zero_of_forall_notMem
    intro k hk
    obtain ⟨ctx, mem, owned⟩ := (mem_sum_map _ _ _).1 hk
    obtain ⟨c, found⟩ := exists_id_of_mem (Array.mem_toList_iff.1 mem)
      (Engine.size_closeAll.trans_le few)
    rw [Context.references, Engine.isOpen_closeAll addressed found] at owned
    exact Multiset.notMem_zero k owned

/-! ### Clearing the heap -/

theorem Heap.slot_clear (H : Heap) (k : Handle) : H.clear.slot k = .reclaimed := by
  simp only [Heap.clear, Heap.slot, Array.getD_eq_getD_getElem?, Array.getElem?_map]
  cases H.slots[k]? <;> rfl

theorem Heap.references_clear (H : Heap) : H.clear.references = 0 := by
  apply Multiset.eq_zero_of_forall_notMem
  intro k hk
  obtain ⟨h, owned⟩ := Heap.mem_references.1 hk
  rw [Heap.ownedBy, Heap.slot_clear] at owned
  exact List.not_mem_nil owned

theorem Engine.clear_eq : ∃ finalized, e.clear =
    { e with finalized := finalized, heap := e.heap.clear } := by
  have noted : ∀ entries : List (Handle × Object), ∃ finalized,
      entries.foldl (fun e entry => e.finalize entry.1 entry.2) e =
        { e with finalized := finalized } := by
    intro entries
    induction entries generalizing e with
    | nil => exact ⟨_, rfl⟩
    | cons entry rest ih =>
        obtain ⟨finalized, first⟩ := e.finalize_eq entry.1 entry.2
        obtain ⟨finalized', later⟩ := ih (e := e.finalize entry.1 entry.2)
        refine ⟨finalized', ?_⟩
        rw [List.foldl_cons, later, first]
  obtain ⟨finalized, result⟩ := noted e.heap.listed
  exact ⟨finalized, congrArg (fun e' : Engine => { e' with heap := e'.heap.clear }) result⟩

/-- An engine that is closed, without headers and with nothing on record. -/
theorem Engine.settled_clear (addressed : Addressed e.contexts true)
    (issued : ∀ h, h ∈ M ∨ h ∈ e.abandoned → h < e.heap.slots.size)
    (unstrayed : e.breaches.strayAccess = false)
    (spared : ∀ r ∈ e.leftovers, r.wasLive = true → r.count = 1) (idle : e.work = {}) :
    ({ e.clear with diagnostics := #[], isClosed := true } : Engine).Settled M 0 := by
  obtain ⟨finalized, cleared⟩ := e.clear_eq
  rw [cleared]
  -- Without headers, whatever is said about headers holds.
  have object : ∀ k, e.heap.clear.object? k = none := by
    intro k
    rw [Heap.object?, Heap.slot_clear]
    rfl
  have references : e.heap.clear.references + 0 = 0 := by
    rw [Heap.references_clear, add_zero]
  refine ⟨⟨?_, ?_, Multiset.nodup_zero⟩, ⟨?_, ?_, ?_, ?_⟩,
    ⟨?_, unstrayed, ?_, spared, addressed, idle⟩⟩
  · intro k
    show (e.heap.clear.slot k).Sound _ _
    rw [Heap.slot_clear]
    trivial
  · exact fun k hk => absurd hk (Multiset.notMem_zero k)
  · intro k o found
    exact absurd ((object k).symm.trans found) (Option.some_ne_none o).symm
  · intro k hk
    rw [zero_add] at hk
    exact absurd (references ▸ hk) (Multiset.notMem_zero k)
  · intro k hM o found
    exact absurd ((object k).symm.trans found) (Option.some_ne_none o).symm
  · intro k hk
    show k < e.heap.clear.slots.size
    simpa [Heap.clear] using issued k hk
  · exact fun d hd => absurd hd (Array.not_mem_empty d)
  · intro still
    cases still

/-! ### The whole shutdown -/

/-- The engine after the last collection of a shutdown. -/
def Engine.lastCollected (e : Engine) : Engine :=
  e.closeAll.collect.2

/-- What is left after the last collection. -/
def Engine.residual (e : Engine) : List Residual :=
  e.lastCollected.heap.listed.map fun (_, o) => Residual.ofObject o

/-- The engine of a shutdown after the report of what is left. -/
def Engine.reported (e : Engine) : Engine :=
  if e.residual.isEmpty then e.lastCollected else e.lastCollected.record (.leftBehind e.residual)

theorem Engine.contexts_reported : e.reported.contexts = e.closeAll.contexts := by
  have collected : e.lastCollected.contexts = e.closeAll.contexts :=
    contexts_of_frame (Engine.frame_collect _)
  rw [Engine.reported]
  split
  · exact collected
  · exact collected

theorem Engine.shutdown_eq (hopen : e.isClosed = false) : e.shutdown =
    ({ contextsClosed := e.openContexts.length
       collected := e.closeAll.collect.1
       residual := e.residual
       parkedReclaimed := e.reported.heap.parkedCount
       diagnostics := e.reported.clear.diagnostics.toList },
      { e.reported.clear with diagnostics := #[], isClosed := true }) := by
  rcases step : e.closeAll.collect with ⟨n, e'⟩
  have last : e.lastCollected = e' := by rw [Engine.lastCollected, step]
  have left : e.residual = e'.heap.listed.map fun (_, o) => Residual.ofObject o := by
    rw [Engine.residual, last]
  rw [Engine.closeAll] at step
  rw [Engine.shutdown, if_neg (Bool.eq_false_iff.1 hopen)]
  simp only [step]
  rw [Engine.reported, left, last, Engine.flushDiagnostics]

theorem Engine.Settled.shutdown (hs : e.Settled M X) (hopen : e.isClosed = false) :
    e.shutdown.2.Settled M 0 := by
  have collected : e.lastCollected.Settled M X := hs.closeAll.collect
  have addressed : Addressed e.reported.contexts true := by
    rw [Engine.contexts_reported]
    exact ⟨hs.closeAll.blameless.addressed.id_eq,
      fun _ c ctx found => Engine.isOpen_closeAll hs.blameless.addressed found⟩
  rw [Engine.shutdown_eq hopen]
  refine Engine.settled_clear addressed ?_ ?_ ?_ ?_ <;> unfold Engine.reported <;> split
  · exact collected.owned.issued
  · exact collected.owned.issued
  · exact collected.blameless.unstrayed
  · exact collected.blameless.unstrayed
  · exact collected.blameless.spared
  · exact collected.blameless.spared
  · exact collected.blameless.idle
  · exact collected.blameless.idle

end

end CountedHeap
