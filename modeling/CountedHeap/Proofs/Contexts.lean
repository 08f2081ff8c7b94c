import CountedHeap.Proofs.Properties

/-!
Contexts as owners. An open context owns one reference for its global object,
for each of its prototypes and for each value registered on it. To open it is to
hand it the references of whoever made these objects, and to close it is to take
them back: those of the global object and of the prototypes are given up, and
so is each registration, unless it is the last reference on a live object or the
object is not live. Those references stay in the counts for good.
-/

namespace CountedHeap

section

variable {e : Engine} {M : Finset Handle} {X X' : Multiset Handle} {c : ContextId}
  {ctx : Context} {v : Value} {classId : ClassId}

theorem Engine.Settled.checkCount (hs : e.Settled M X) (n : Int) :
    (e.checkCount n).Settled M X := by
  rw [Engine.checkCount]
  split
  · exact hs
  · exact Engine.Balanced.congr hs

/-! ### What a context owns -/

theorem Context.references_of_isOpen (hopen : ctx.isOpen = true) :
    ctx.references = refsOf (ctx.global :: (ctx.prototypes.toList ++ ctx.registered.toList)) :=
  if_pos hopen

theorem Context.isOpen_of_active (active : ctx.phase = .active) : ctx.isOpen = true := by
  rw [Context.isOpen, active]
  rfl

theorem Engine.mem_anchors {k : Handle} (hopen : e.isClosed = false) :
    k ∈ e.anchors ↔ ∃ ctx ∈ e.contexts, k ∈ ctx.references := by
  rw [Engine.anchors_of_open hopen, mem_sum_map]
  simp

theorem Engine.Settled.isClosed_eq_false (hs : e.Settled M X)
    (found : e.contexts[c.toNat]? = some ctx) (hopen : ctx.isOpen = true) : e.isClosed = false :=
  hs.blameless.addressed.eq_false_of_isOpen found hopen

theorem Engine.Settled.names_of_mem_context (hs : e.Settled M X) (still : e.isClosed = false)
    (mem : ctx ∈ e.contexts) (hopen : ctx.isOpen = true)
    (owned : v ∈ ctx.global :: (ctx.prototypes.toList ++ ctx.registered.toList)) : e.Names v := by
  refine hs.names_of_mem fun k hk => Multiset.mem_add.2 (.inr ?_)
  refine (Engine.mem_anchors still).2 ⟨ctx, mem, ?_⟩
  rw [Context.references_of_isOpen hopen, mem_refsOf, ← Value.mem_refs.1 hk]
  exact owned

theorem Engine.Settled.names_of_context (hs : e.Settled M X)
    (found : e.contexts[c.toNat]? = some ctx) (hopen : ctx.isOpen = true)
    (owned : v ∈ ctx.global :: (ctx.prototypes.toList ++ ctx.registered.toList)) : e.Names v :=
  hs.names_of_mem_context (hs.isClosed_eq_false found hopen) (Array.mem_of_getElem? found) hopen
    owned

theorem Addressed.modify {contexts : Array Context} {p : Nat} {f : Context → Context}
    (addressed : Addressed contexts false) (found : contexts[p]? = some ctx)
    (same : (f ctx).id = ctx.id) : Addressed (contexts.modify p f) false where
  id_eq q ctx' found' := by
    rw [Array.getElem?_modify] at found'
    split at found'
    · rename_i here
      rw [← here, found] at found'
      rw [← Option.some.inj found', ← here]
      exact same.trans (addressed.id_eq p ctx found)
    · exact addressed.id_eq q ctx' found'
  shut closed := Bool.noConfusion closed

theorem Addressed.push {contexts : Array Context} (addressed : Addressed contexts false)
    (next : ctx.id = .ofNat contexts.size) : Addressed (contexts.push ctx) false where
  id_eq p ctx' found := by
    rw [Array.getElem?_push] at found
    split at found
    · rename_i last
      rw [last, ← Option.some.inj found]
      exact next
    · exact addressed.id_eq p ctx' found
  shut closed := Bool.noConfusion closed

theorem Engine.Settled.addressed_of_open (hs : e.Settled M X) (still : e.isClosed = false) :
    Addressed e.contexts false :=
  still ▸ hs.blameless.addressed

theorem Engine.anchors_updateContext {f : Context → Context} (still : e.isClosed = false)
    (found : e.contexts[c.toNat]? = some ctx)
    (moved : X' + (f ctx).references = X + ctx.references) :
    X' + (e.updateContext c f).anchors = X + e.anchors := by
  have still' : (e.updateContext c f).isClosed = false := still
  have anchors : (e.updateContext c f).anchors + ctx.references =
      e.anchors + (f ctx).references := by
    rw [Engine.anchors_of_open still, Engine.anchors_of_open still', Engine.updateContext,
      Array.toList_modify]
    exact sum_map_modify Context.references f _ c.toNat (by simpa using found)
  apply add_right_cancel (b := ctx.references)
  calc
    _ = X' + ((e.updateContext c f).anchors + ctx.references) := by abel
    _ = (X' + (f ctx).references) + e.anchors := by rw [anchors]; abel
    _ = _ := by rw [moved]; abel

theorem Engine.anchors_pushContext (still : e.isClosed = false) :
    ({ e with contexts := e.contexts.push ctx } : Engine).anchors =
      e.anchors + ctx.references := by
  have still' : ({ e with contexts := e.contexts.push ctx } : Engine).isClosed = false := still
  rw [Engine.anchors_of_open still, Engine.anchors_of_open still', Array.toList_push,
    List.map_append, List.map_singleton, List.sum_append, List.sum_singleton]

/-- An open context hands references to the outside, or takes them. -/
theorem Engine.Settled.updateContext {f : Context → Context} (hs : e.Settled M X)
    (found : e.contexts[c.toNat]? = some ctx) (hopen : ctx.isOpen = true)
    (same : (f ctx).id = ctx.id) (moved : X' + (f ctx).references = X + ctx.references) :
    (e.updateContext c f).Settled M X' := by
  have still := hs.isClosed_eq_false found hopen
  have total : X' + (e.updateContext c f).references = X + e.references := by
    show X' + (e.heap.references + (e.updateContext c f).anchors) = _
    rw [add_left_comm, Engine.anchors_updateContext still found moved, add_left_comm,
      Engine.references]
  have addressed : Addressed (e.contexts.modify c.toNat f) e.isClosed :=
    still ▸ (hs.addressed_of_open still).modify found same
  refine ⟨hs.sound, ?_, ⟨hs.blameless.excused, hs.blameless.unstrayed, hs.blameless.kept,
    hs.blameless.spared, addressed, hs.blameless.idle⟩⟩
  exact hs.owned.transfer (fun _ => rfl) rfl (congrArg (· + e.abandoned) total) total.le

theorem Engine.Settled.pushContext (hs : e.Settled M (ctx.references + X))
    (still : e.isClosed = false) (next : ctx.id = .ofNat e.contexts.size) :
    ({ e with contexts := e.contexts.push ctx } : Engine).Settled M X := by
  have total : X + ({ e with contexts := e.contexts.push ctx } : Engine).references =
      ctx.references + X + e.references := by
    rw [Engine.references, Engine.anchors_pushContext still, Engine.references]
    abel
  have addressed : Addressed (e.contexts.push ctx) e.isClosed :=
    still ▸ (hs.addressed_of_open still).push next
  refine ⟨hs.sound, ?_, ⟨hs.blameless.excused, hs.blameless.unstrayed, hs.blameless.kept,
    hs.blameless.spared, addressed, hs.blameless.idle⟩⟩
  exact hs.owned.transfer (fun _ => rfl) rfl (congrArg (· + e.abandoned) total) total.le

/-! ### Objects of a context -/

theorem Engine.activeContext_eq_ok (active : e.activeContext c = .ok ctx) :
    e.contexts[c.toNat]? = some ctx ∧ ctx.phase = .active := by
  rw [Engine.activeContext] at active
  split at active
  · split at active
    · rename_i found phase
      injection active with same
      exact ⟨same ▸ found, same ▸ phase⟩
    · cases active
  · cases active

/-- A prototype is `null` or belongs to an open context. -/
theorem Engine.protoFor_eq_ok {proto : Value} (found : e.protoFor c classId = .ok proto) :
    proto = Value.null ∨ ∃ ctx, e.contexts[c.toNat]? = some ctx ∧ ctx.isOpen = true ∧
      proto ∈ ctx.global :: (ctx.prototypes.toList ++ ctx.registered.toList) := by
  rw [Engine.protoFor] at found
  split at found
  · cases found
  · rename_i ctx active
    obtain ⟨context, phase⟩ := Engine.activeContext_eq_ok active
    split at found
    · rename_i held
      injection found with same
      subst same
      refine .inr ⟨ctx, context, Context.isOpen_of_active phase, ?_⟩
      exact List.mem_cons_of_mem _ (List.mem_append_left _ (Array.mem_of_getElem? held).val)
    · split at found
      · injection found with same
        exact .inl same.symm
      · cases found

theorem Engine.Settled.names_protoFor {proto : Value} (hs : e.Settled M X)
    (found : e.protoFor c classId = .ok proto) : e.Names proto := by
  rcases Engine.protoFor_eq_ok found with rfl | ⟨ctx, context, hopen, mem⟩
  · exact Engine.names_immediate _
  · exact hs.names_of_context context hopen mem

theorem Engine.Settled.globalOf (hs : e.Settled M X) (range : (e.globalOf c).2.InRange) :
    (e.globalOf c).2.Settled M (handedOver (e.globalOf c).1 + X) := by
  rw [Engine.globalOf] at range ⊢
  split
  · rename_i ctx active
    simp only [active] at range
    obtain ⟨context, phase⟩ := Engine.activeContext_eq_ok active
    refine hs.retain ?_ range
    exact hs.names_of_context context (Context.isOpen_of_active phase) List.mem_cons_self
  · rw [handedOver, zero_add]
    exact hs

theorem Engine.Settled.takeProto (hs : e.Settled M X) (range : (e.takeProto c classId).2.InRange) :
    (e.takeProto c classId).2.Settled M (handedOver (e.takeProto c classId).1 + X) := by
  rw [Engine.takeProto] at range ⊢
  split
  · rename_i proto found
    simp only [found] at range
    exact hs.retain (hs.names_protoFor found) range
  · rw [handedOver, zero_add]
    exact hs

theorem Engine.Settled.makeOfClass (hs : e.Settled M X)
    (range : (e.makeOfClass c classId).2.InRange) :
    (e.makeOfClass c classId).2.Settled M (handedOver (e.makeOfClass c classId).1 + X) := by
  rw [Engine.makeOfClass] at range ⊢
  split
  · rename_i proto found
    simp only [found] at range
    exact hs.makeWithProto (hs.names_protoFor found) range
  · rw [handedOver, zero_add]
    exact hs

theorem Engine.inRange_of_makeOfClass (range : (e.makeOfClass c classId).2.InRange) :
    e.InRange := by
  rw [Engine.makeOfClass] at range
  split at range
  · exact Engine.inRange_of_makeWithProto range
  · exact range

theorem Engine.Settled.makeFunctionIn {name : String} (hs : e.Settled M X)
    (range : (e.makeFunctionIn c name).2.InRange) :
    (e.makeFunctionIn c name).2.Settled M (handedOver (e.makeFunctionIn c name).1 + X) := by
  have taken : (e.takeProto c ClassId.function).2.InRange → _ := hs.takeProto
  rw [Engine.makeFunctionIn] at range ⊢
  rcases step : e.takeProto c ClassId.function with ⟨refusal | proto, e'⟩
  · simp only [step] at taken range ⊢
    exact taken range
  · simp only [step] at taken range ⊢
    rw [inRange_of_frame (Engine.frame_release _ _)] at range
    have held := taken (Engine.inRange_of_allocateWithProto range)
    apply Engine.Settled.release
    rw [← add_assoc, add_comm proto.refs, add_assoc]
    exact held.makeFunction held.names range

/-- A prototype that is read from the constructor is given back in the end. -/
theorem Engine.Settled.construct {constructor : Value} (hs : e.Settled M X)
    (range : (e.construct c constructor classId).2.InRange) :
    (e.construct c constructor classId).2.Settled M
      (handedOver (e.construct c constructor classId).1 + X) := by
  have fetched : (e.fetch constructor "prototype").2.InRange → _ := hs.fetch
  rw [Engine.construct] at range ⊢
  split
  · rw [handedOver, zero_add]
    exact hs
  · rename_i ctx active
    simp only [active] at range
    split
    · rename_i absent
      rw [if_pos absent] at range
      exact hs.makeOfClass range
    · rename_i given
      rw [if_neg given] at range
      rcases step : e.fetch constructor "prototype" with ⟨proto, e'⟩
      simp only [step] at fetched range ⊢
      split
      · rename_i usable
        rw [if_pos usable] at range
        dsimp only at range
        rw [inRange_of_frame (Engine.frame_release _ _)] at range
        -- The new object takes a reference of its own before this one is given back.
        have held := fetched (Engine.inRange_of_makeWithProto range)
        apply Engine.Settled.release
        rw [← add_assoc, add_comm proto.refs, add_assoc]
        exact held.makeWithProto held.names range
      · rename_i unusable
        rw [if_neg unusable] at range
        have before := Engine.inRange_of_makeOfClass range
        rw [inRange_of_frame (Engine.frame_release _ _)] at before
        exact (fetched before).release.makeOfClass range

end

end CountedHeap
