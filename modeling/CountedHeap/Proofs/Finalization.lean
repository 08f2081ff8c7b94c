import CountedHeap.Proofs.Tidy

/-!
Finalizations. A change of an engine does one of four things to an object: it
leaves it live, it ends it and then makes the finalizations that are due, it
leaves it ended, or it makes it. Every invariant of this module is read off that
one inversion. An object waits for its end as long as it is live, with nothing
noted about it; once it has ended, what is noted about it never changes again.
-/

namespace CountedHeap

/-- What is noted about the end of one object. -/
def Engine.finalizationsOf (e : Engine) (h : Handle) : List Finalization :=
  e.finalized.toList.filter (·.target == h)

/-- The finalizations that are due when an object ends: one for a host object, and
none for others. -/
def Object.finalizations (o : Object) (h : Handle) (finalizers : List (ClassId × Finalizer)) :
    List Finalization :=
  match o.payload with
  | .host _ _ cookie =>
    if o.classId.isHost then [⟨h, o.classId, cookie, finalizers.lookup o.classId⟩] else []
  | _ => []

/-- Two headers of what is the same object but for its properties or elements and
for the bits and the count of its header. -/
def Object.Kin (o o' : Object) : Prop :=
  o'.classId = o.classId ∧ o'.payload.bare = o.payload.bare

/-- What one change does to one object. -/
inductive Engine.Fate (e e' : Engine) (h : Handle) : Prop
  | stays {o o' : Object} (before : e.heap.slot h = .live o) (after : e'.heap.slot h = .live o')
      (kin : o.Kin o') (notes : e'.finalizationsOf h = e.finalizationsOf h)
  | ends {o : Object} (before : e.heap.slot h = .live o) (after : e'.heap.isLive h = false)
      (notes : e'.finalizationsOf h = e.finalizationsOf h ++ o.finalizations h e.finalizers)
  | rests (before : e.heap.isLive h = false) (after : e'.heap.isLive h = false)
      (notes : e'.finalizationsOf h = e.finalizationsOf h)
  | begins {o : Object} (hopen : e.isClosed = false) (new : h = e.heap.slots.size)
      (after : e'.heap.slot h = .live o) (made : e'.made = e.made.push o)
      (notes : e'.finalizationsOf h = e.finalizationsOf h)

section

variable {C : Set Handle} {K : Prop} {e e' : Engine} {h k : Handle} {o o' m : Object}
  {S : Finset Handle}
  {finalizers : List (ClassId × Finalizer)} {entries : List (Handle × Object)}
  {notes : List Finalization}

/-! ### What is noted -/

theorem Object.Kin.finalizations_eq (kin : o.Kin o') (h : Handle) :
    o'.finalizations h finalizers = o.finalizations h finalizers := by
  obtain ⟨classId, payload⟩ := kin
  rw [Object.finalizations, Object.finalizations, classId]
  cases same : o.payload <;> cases same' : o'.payload <;>
    simp_all [Payload.bare]

theorem Object.target_of_mem_finalizations {note : Finalization}
    (mem : note ∈ o.finalizations h finalizers) : note.target = h := by
  rw [Object.finalizations] at mem
  split at mem
  · split at mem
    · rw [List.mem_singleton] at mem
      rw [mem]
    · cases mem
  · cases mem

theorem Object.filter_finalizations (h k : Handle) :
    (o.finalizations h finalizers).filter (·.target == k) =
      if h = k then o.finalizations h finalizers else [] := by
  split
  · rename_i same
    refine List.filter_eq_self.2 fun note mem => ?_
    simpa [same] using Object.target_of_mem_finalizations mem
  · rename_i differ
    refine List.filter_eq_nil_iff.2 fun note mem => ?_
    simpa [Object.target_of_mem_finalizations mem] using differ

theorem Engine.finalized_finalize (e : Engine) (h : Handle) (o : Object) :
    (e.finalize h o).finalized.toList = e.finalized.toList ++ o.finalizations h e.finalizers := by
  rw [Engine.finalize, Object.finalizations]
  cases o.payload with
  | host proto properties cookie =>
      by_cases host : o.classId.isHost = true
      · simp [host]
      · simp [host]
  | _ => simp

theorem Engine.finalizationsOf_append (added : e'.finalized.toList =
      e.finalized.toList ++ o.finalizations h finalizers) (k : Handle) :
    e'.finalizationsOf k =
      e.finalizationsOf k ++ if h = k then o.finalizations h finalizers else [] := by
  rw [Engine.finalizationsOf, added, List.filter_append, Object.filter_finalizations,
    Engine.finalizationsOf]

/-- Finalizing a list of objects in turn. -/
theorem Engine.finalized_foldl {f : Engine → Handle × Object → Engine}
    (step : ∀ e entry, (f e entry).finalized = (e.finalize entry.1 entry.2).finalized ∧
      (f e entry).finalizers = e.finalizers) :
    (entries.foldl f e).finalized.toList = e.finalized.toList ++
      entries.flatMap fun (h, o) => o.finalizations h e.finalizers := by
  induction entries generalizing e with
  | nil => simp
  | cons entry rest ih =>
      obtain ⟨noted, kept⟩ := step e entry
      rw [List.foldl_cons, ih, noted, kept, Engine.finalized_finalize, List.append_assoc,
        List.flatMap_cons]

theorem filter_flatMap_finalizations_of_notMem (absent : k ∉ entries.map (·.1)) :
    (entries.flatMap fun (h, o) => o.finalizations h finalizers).filter (·.target == k) = [] := by
  refine List.filter_eq_nil_iff.2 fun note mem => ?_
  obtain ⟨entry, listed, mem⟩ := List.mem_flatMap.1 mem
  rw [Object.target_of_mem_finalizations mem, beq_iff_eq]
  rintro rfl
  exact absent (List.mem_map_of_mem listed)

theorem filter_flatMap_finalizations (nodup : (entries.map (·.1)).Nodup)
    (listed : (k, o) ∈ entries) :
    (entries.flatMap fun (h, o) => o.finalizations h finalizers).filter (·.target == k) =
      o.finalizations k finalizers := by
  induction entries with
  | nil => cases listed
  | cons entry rest ih =>
      rw [List.map_cons, List.nodup_cons] at nodup
      rw [List.flatMap_cons, List.filter_append, Object.filter_finalizations]
      rcases List.mem_cons.1 listed with rfl | later
      · rw [if_pos rfl, filter_flatMap_finalizations_of_notMem nodup.1, List.append_nil]
      · have differ : entry.1 ≠ k := by
          rintro rfl
          exact nodup.1 (List.mem_map_of_mem (f := (·.1)) later)
        rw [if_neg differ, ih nodup.2 later]
        rfl

/-! ### One change -/

/-- A change that neither makes nor ends the object. -/
theorem Engine.Fate.kept (notes : e'.finalizationsOf k = e.finalizationsOf k)
    (live : ∀ o, e.heap.slot k = .live o → ∃ o', e'.heap.slot k = .live o' ∧ o.Kin o')
    (gone : e.heap.isLive k = false → e'.heap.isLive k = false) : e.Fate e' k := by
  by_cases before : e.heap.isLive k = true
  · obtain ⟨o, slot⟩ := Heap.isLive_iff.1 before
    obtain ⟨o', slot', kin⟩ := live o slot
    exact .stays slot slot' kin notes
  · exact .rests (Bool.eq_false_iff.2 before) (gone (Bool.eq_false_iff.2 before)) notes

theorem Engine.Fate.ofHeap (heap : e'.heap = e.heap) (finalized : e'.finalized = e.finalized)
    (k : Handle) : e.Fate e' k := by
  refine .kept ?_ ?_ ?_
  · rw [Engine.finalizationsOf, finalized, Engine.finalizationsOf]
  · exact fun o slot => ⟨o, heap ▸ slot, rfl, rfl⟩
  · exact fun gone => heap ▸ gone

/-- A change of one header that leaves the object what it is. -/
theorem Engine.Fate.ofUpdate (h : Handle) (f : Object → Object)
    (kin : ∀ o, e.heap.slot h = .live o → o.Kin (f o)) (k : Handle)
    (slots : e'.heap.slots = (e.heap.update h f).slots)
    (finalized : e'.finalized = e.finalized) : e.Fate e' k := by
  have after : e'.heap.slot k = (e.heap.update h f).slot k := by rw [Heap.slot, slots, Heap.slot]
  refine .kept ?_ ?_ ?_
  · rw [Engine.finalizationsOf, finalized, Engine.finalizationsOf]
  · intro o slot
    rw [after, Heap.slot_update, slot]
    by_cases same : k = h
    · subst k
      exact ⟨f o, if_pos rfl, kin o slot⟩
    · exact ⟨o, if_neg same, rfl, rfl⟩
  · intro gone
    rw [Heap.isLive, after]
    exact (Heap.isLive_update k).trans gone

theorem Slot.isLive_map_eq_false {s : Slot} {f : Object → Object} (gone : s.isLive = false) :
    (s.map f).isLive = false := by
  cases s with
  | live o => cases gone
  | parked o => rfl
  | reclaimed => rfl

theorem Engine.fate_dispose (tidy : e.heap.Tidy) (h k : Handle) : e.Fate (e.dispose h).2 k := by
  by_cases live : e.heap.isLive h = true
  · obtain ⟨o, slot⟩ := Heap.isLive_iff.1 live
    obtain ⟨dropped, diagnostics, breaches, result⟩ := Engine.dispose_eq_of_live tidy slot
    have notes : (e.dispose h).2.finalizationsOf k =
        e.finalizationsOf k ++ if h = k then o.finalizations h e.finalizers else [] :=
      Engine.finalizationsOf_append (by rw [result]; exact e.finalized_finalize h o) k
    have after := Heap.slot_disposed slot dropped o.size o.adopted k
    by_cases same : k = h
    · subst k
      rw [if_pos rfl] at notes after
      refine .ends slot ?_ notes
      rw [result, Heap.isLive, after]
      split <;> rfl
    · rw [if_neg (Ne.symm same), List.append_nil] at notes
      rw [if_neg same] at after
      refine .kept notes ?_ ?_ <;> rw [result]
      · intro o' slot'
        rw [slot'] at after
        exact ⟨_, after, rfl, rfl⟩
      · intro gone
        rw [Heap.isLive, after]
        exact Slot.isLive_map_eq_false gone
  · obtain ⟨breaches, result⟩ := Engine.dispose_eq_of_not_live tidy (Bool.eq_false_iff.2 live)
    exact .ofHeap (by rw [result]) (by rw [result]) k

theorem Engine.finalizationsOf_swept (S : Finset Handle) (k : Handle) :
    (e.swept S).finalizationsOf k = e.finalizationsOf k ++
      ((e.heap.stain S).garbage.flatMap fun (h, o) => o.finalizations h e.finalizers).filter
        (·.target == k) := by
  have discarded : ∀ (e : Engine) entry,
      (e.discard entry).finalized = (e.finalize entry.1 entry.2).finalized ∧
        (e.discard entry).finalizers = e.finalizers := by
    intro e entry
    refine ⟨rfl, ?_⟩
    obtain ⟨finalized, noted⟩ := e.finalize_eq entry.1 entry.2
    rw [Engine.discard, noted]
    rfl
  rw [Engine.finalizationsOf, Engine.swept, Engine.finalized_foldl discarded, List.filter_append]
  rfl

theorem Engine.fate_swept (tidy : e.heap.Tidy) (S : Finset Handle) (k : Handle) :
    e.Fate (e.swept S) k := by
  have after := Engine.slot_swept (S := S) tidy k
  have notes := e.finalizationsOf_swept S k
  by_cases live : e.heap.isLive k = true
  · obtain ⟨o, slot⟩ := Heap.isLive_iff.1 live
    by_cases stays : k ∈ S
    · rw [if_pos stays, slot] at after
      have absent : k ∉ (e.heap.stain S).garbage.map (·.1) :=
        fun mem => (Heap.mem_map_garbage_stain.1 mem).2 stays
      rw [filter_flatMap_finalizations_of_notMem absent, List.append_nil] at notes
      exact .stays slot after ⟨rfl, rfl⟩ notes
    · rw [if_neg stays, slot] at after
      -- The mark that the scan left on it is no part of what is noted.
      have listed : (k, { o with marked := !decide (k ∈ S) }) ∈ (e.heap.stain S).garbage := by
        rw [Heap.mem_garbage_stain, Heap.slot_stain, slot]
        exact ⟨rfl, stays⟩
      rw [filter_flatMap_finalizations Heap.nodup_garbage listed] at notes
      refine .ends slot ?_ notes
      rw [Heap.isLive, after, Slot.discard]
      split <;> rfl
  · have absent : k ∉ (e.heap.stain S).garbage.map (·.1) :=
      fun mem => live (Heap.mem_map_garbage_stain.1 mem).1
    rw [filter_flatMap_finalizations_of_notMem absent, List.append_nil] at notes
    refine .rests (Bool.eq_false_iff.2 live) ?_ notes
    have gone : (e.heap.slot k).isLive = false := Bool.eq_false_iff.2 live
    rw [Heap.isLive, after]
    cases slot : e.heap.slot k with
    | live o => simp [slot, Slot.isLive, Slot.live?] at gone
    | parked o => split <;> rfl
    | reclaimed => split <;> rfl

theorem Engine.fate_close {diagnostics : Array Diagnostic} {isClosed : Bool} (k : Handle) :
    e.Fate { e.clear with diagnostics := diagnostics, isClosed := isClosed } k := by
  have notes : ({ e.clear with diagnostics := diagnostics, isClosed := isClosed } :
      Engine).finalizationsOf k = e.finalizationsOf k ++
        (e.heap.listed.flatMap fun (h, o) => o.finalizations h e.finalizers).filter
          (·.target == k) := by
    have finalized : ∀ (e : Engine) (entry : Handle × Object),
        (e.finalize entry.1 entry.2).finalized = (e.finalize entry.1 entry.2).finalized ∧
          (e.finalize entry.1 entry.2).finalizers = e.finalizers :=
      fun e entry => ⟨rfl, congrArg Frame.finalizers (e.frame_finalize entry.1 entry.2)⟩
    rw [Engine.finalizationsOf, Engine.finalizationsOf, ← List.filter_append,
      ← Engine.finalized_foldl finalized]
    rfl
  have after : ({ e.clear with diagnostics := diagnostics, isClosed := isClosed } :
      Engine).heap.isLive k = false := by
    rw [Heap.isLive, Engine.heap_close, Heap.slot_clear]
    rfl
  by_cases live : e.heap.isLive k = true
  · obtain ⟨o, slot⟩ := Heap.isLive_iff.1 live
    rw [filter_flatMap_finalizations Heap.nodup_listed (Heap.mem_listed.2 slot)] at notes
    exact .ends slot after notes
  · have absent : k ∉ e.heap.listed.map (·.1) := by
      rintro mem
      obtain ⟨⟨h, o⟩, listed, rfl⟩ := List.mem_map.1 mem
      exact live (Heap.isLive_iff.2 ⟨o, Heap.mem_listed.1 listed⟩)
    rw [filter_flatMap_finalizations_of_notMem absent, List.append_nil] at notes
    exact .rests (Bool.eq_false_iff.2 live) after notes

theorem Engine.Change.fate (change : Engine.Change C K e e') (tidy : e.heap.Tidy) (k : Handle) :
    e.Fate e' k := by
  cases change with
  | aside heap made finalized => exact .ofHeap heap finalized k
  | recount h g =>
      exact .ofUpdate h (fun o => { o with count := g o }) (fun o _ => ⟨rfl, rfl⟩) k rfl rfl
  | @claim h mem g =>
      exact .ofUpdate h (fun o => { o.adopt with count := g o }) (fun o _ => ⟨rfl, rfl⟩) k rfl rfl
  | @lengthen h o f n found bare size =>
      refine .ofUpdate h (fun o => { o with payload := f o.payload }) ?_ k rfl rfl
      intro o' slot
      obtain rfl := Option.some.inj ((Heap.object?_of_live slot).symm.trans found)
      exact ⟨rfl, bare⟩
  | @shorten h o f n found bare size =>
      refine .ofUpdate h (fun o => { o with payload := f o.payload }) ?_ k rfl rfl
      intro o' slot
      obtain rfl := Option.some.inj ((Heap.object?_of_live slot).symm.trans found)
      exact ⟨rfl, bare⟩
  | dispose h => exact Engine.fate_dispose tidy h k
  | sweep =>
      obtain ⟨S, result⟩ := Engine.sweep_eq tidy
      rw [result]
      exact Engine.fate_swept tidy S k
  | @place classId payload hopen fits =>
      have after : (e.place classId payload).2.heap.slot k =
          if k = e.heap.slots.size then .live (Object.new classId payload) else e.heap.slot k :=
        Engine.slot_place k
      by_cases new : k = e.heap.slots.size
      · rw [if_pos new] at after
        exact .begins hopen new after rfl rfl
      · rw [if_neg new] at after
        refine .kept rfl (fun o slot => ⟨o, after.trans slot, rfl, rfl⟩) fun gone => ?_
        rw [Heap.isLive, after]
        exact gone
  | close => exact Engine.fate_close k

/-! ### Objects as they were made -/

/-- Objects are made one at a time, and a new object is live. -/
theorem Engine.Change.made (change : Engine.Change C K e e') (tidy : e.heap.Tidy) :
    (e'.made = e.made ∧ e'.heap.slots.size = e.heap.slots.size) ∨
      ∃ o, e'.made = e.made.push o ∧ e'.heap.slots.size = e.heap.slots.size + 1 ∧
        e'.heap.slot e.heap.slots.size = .live o ∧ o.payload.Fits o.objectClass := by
  cases change with
  | aside heap made => exact .inl ⟨made, by rw [heap]⟩
  | recount h g => exact .inl ⟨rfl, Heap.size_update⟩
  | claim mem g => exact .inl ⟨rfl, Heap.size_update⟩
  | lengthen found bare size => exact .inl ⟨rfl, Heap.size_update⟩
  | shorten found bare size => exact .inl ⟨rfl, Heap.size_update⟩
  | dispose h =>
      by_cases live : e.heap.isLive h = true
      · obtain ⟨o, slot⟩ := Heap.isLive_iff.1 live
        obtain ⟨dropped, diagnostics, breaches, result⟩ := Engine.dispose_eq_of_live tidy slot
        rw [result]
        exact .inl ⟨rfl, Heap.size_disposed dropped o.size o.adopted⟩
      · obtain ⟨breaches, result⟩ :=
          Engine.dispose_eq_of_not_live tidy (Bool.eq_false_iff.2 live)
        rw [result]
        exact .inl ⟨rfl, rfl⟩
  | sweep =>
      obtain ⟨S, result⟩ := Engine.sweep_eq tidy
      have kept : ∀ (garbage : List (Handle × Object)) (e : Engine),
          (garbage.foldl Engine.discard e).made = e.made := by
        intro garbage
        induction garbage with
        | nil => exact fun e => rfl
        | cons entry rest ih =>
            intro e
            obtain ⟨finalized, noted⟩ := e.finalize_eq entry.1 entry.2
            rw [List.foldl_cons, ih, Engine.discard, noted]
            rfl
      rw [result]
      exact .inl ⟨kept _ _, Engine.size_swept⟩
  | @place classId payload hopen fits =>
      exact .inr ⟨_, rfl, Engine.size_place, by rw [Engine.slot_place, if_pos rfl], fits⟩
  | close =>
      obtain ⟨finalized, cleared⟩ := e.clear_eq
      rw [cleared]
      exact .inl ⟨rfl, by simp [Heap.clear]⟩

/-- A change closes the engine only if it leaves no object live. -/
theorem Engine.Change.isClosed (change : Engine.Change C K e e') (tidy : e.heap.Tidy) :
    e'.isClosed = e.isClosed ∨ ∀ k, e'.heap.isLive k = false := by
  cases change with
  | aside heap made finalized finalizers isClosed => exact .inl isClosed
  | dispose h => exact .inl (isClosed_of_frame (e.frame_dispose h))
  | sweep =>
      obtain ⟨S, result⟩ := Engine.sweep_eq tidy
      rw [result]
      exact .inl (isClosed_of_frame Engine.frame_swept)
  | close =>
      right
      intro k
      rw [Heap.isLive, Engine.heap_close, Heap.slot_clear]
      rfl
  | _ => exact .inl rfl

theorem Engine.Change.finalizers_eq (change : Engine.Change C K e e') (tidy : e.heap.Tidy) :
    e'.finalizers = e.finalizers := by
  cases change with
  | aside heap made finalized finalizers => exact finalizers
  | dispose h => exact congrArg Frame.finalizers (e.frame_dispose h)
  | sweep =>
      obtain ⟨S, result⟩ := Engine.sweep_eq tidy
      rw [result]
      exact congrArg Frame.finalizers Engine.frame_swept
  | close =>
      obtain ⟨finalized, cleared⟩ := e.clear_eq
      rw [cleared]
  | _ => rfl

/-- Every object that was ever made is on record, a live object still is what it
was made, and a closed engine has no live object. -/
structure Engine.Recorded (e : Engine) : Prop where
  tidy : e.heap.Tidy
  size : e.made.size = e.heap.slots.size
  kin : ∀ h o, e.heap.slot h = .live o → ∃ m, e.made[h]? = some m ∧ m.Kin o
  fits : ∀ (h : Handle) (m : Object), e.made[h]? = some m → m.payload.Fits m.objectClass
  closed : e.isClosed = true → ∀ h, e.heap.isLive h = false

theorem Engine.Change.made_of_made (change : Engine.Change C K e e') (tidy : e.heap.Tidy)
    (made : e.made[h]? = some m) : e'.made[h]? = some m := by
  rcases change.made tidy with ⟨same, -⟩ | ⟨o, pushed, -⟩
  · rw [same]
    exact made
  · obtain ⟨inside, -⟩ := Array.getElem?_eq_some_iff.1 made
    rw [pushed, Array.getElem?_push_lt inside]
    exact (Array.getElem?_eq_getElem inside).symm.trans made

theorem Engine.Change.recorded (change : Engine.Change C K e e') (recorded : e.Recorded) :
    e'.Recorded := by
  have tidy := recorded.tidy
  have size := recorded.size
  refine ⟨change.tidy tidy, ?_, ?_, ?_, ?_⟩
  · rcases change.made tidy with ⟨made, kept⟩ | ⟨o, made, grown, -⟩
    · rw [made, kept, size]
    · rw [made, Array.size_push, grown, size]
  · intro h o slot
    cases change.fate tidy h with
    | stays before after kin notes =>
        obtain rfl := Slot.live.inj (slot.symm.trans after)
        obtain ⟨m, made, kin'⟩ := recorded.kin h _ before
        exact ⟨m, change.made_of_made tidy made, kin.1.trans kin'.1, kin.2.trans kin'.2⟩
    | ends before after notes =>
        rw [Heap.isLive_iff.2 ⟨o, slot⟩] at after
        cases after
    | rests before after notes =>
        rw [Heap.isLive_iff.2 ⟨o, slot⟩] at after
        cases after
    | begins hopen new after made notes =>
        obtain rfl := Slot.live.inj (slot.symm.trans after)
        refine ⟨o, ?_, rfl, rfl⟩
        rw [made, new, ← size, Array.getElem?_push_size]
  · intro h m made'
    rcases change.made tidy with ⟨same, -⟩ | ⟨o, pushed, -, -, fits⟩
    · rw [same] at made'
      exact recorded.fits h m made'
    · rw [pushed, Array.getElem?_push] at made'
      split at made'
      · exact Option.some.inj made' ▸ fits
      · exact recorded.fits h m made'
  · intro closed' h
    rcases change.isClosed tidy with same | none
    · have closed := same.symm.trans closed'
      cases change.fate tidy h with
      | stays before after kin notes =>
          have gone := recorded.closed closed h
          rw [Heap.isLive_iff.2 ⟨_, before⟩] at gone
          cases gone
      | ends before after notes => exact after
      | rests before after notes => exact after
      | begins hopen new after made notes => exact absurd closed (Bool.eq_false_iff.1 hopen)
    · exact none h

/-! ### Before and after the end -/

/-- The object is live, or it is not made yet, and nothing is noted about it. -/
structure Engine.Awaits (e : Engine) (h : Handle) : Prop where
  live : h < e.heap.slots.size → e.heap.isLive h = true
  notes : e.finalizationsOf h = []

/-- The object has come to its end, and this is what is noted about it. -/
structure Engine.Ended (e : Engine) (h : Handle) (notes : List Finalization) : Prop where
  issued : h < e.heap.slots.size
  gone : e.heap.isLive h = false
  notes : e.finalizationsOf h = notes

/-- Whatever was noted about the end of an object stays as it is. -/
theorem Engine.Change.ended (change : Engine.Change C K e e') (tidy : e.heap.Tidy)
    (ended : e.Ended h notes) : e'.Ended h notes := by
  have issued : h < e'.heap.slots.size := by
    rcases change.made tidy with ⟨-, same⟩ | ⟨o, -, grown, -⟩
    · rw [same]
      exact ended.issued
    · rw [grown]
      exact Nat.lt_succ_of_lt ended.issued
  have gone := ended.gone
  cases change.fate tidy h with
  | stays before after kin notes =>
      rw [Heap.isLive_iff.2 ⟨_, before⟩] at gone
      cases gone
  | ends before after notes =>
      rw [Heap.isLive_iff.2 ⟨_, before⟩] at gone
      cases gone
  | rests before after same => exact ⟨issued, after, same.trans ended.notes⟩
  | begins hopen new after made same => exact absurd ended.issued (new ▸ Nat.lt_irrefl h)

/-- An object that comes to its end gets the finalizations that are due at that
moment. -/
theorem Engine.Change.awaits (change : Engine.Change C K e e') (recorded : e.Recorded)
    (awaits : e.Awaits h) : e'.Awaits h ∨
      ∃ m, e'.made[h]? = some m ∧ e'.Ended h (m.finalizations h e.finalizers) := by
  have tidy := recorded.tidy
  cases change.fate tidy h with
  | stays before after kin notes =>
      exact .inl ⟨fun _ => Heap.isLive_iff.2 ⟨_, after⟩, notes.trans awaits.notes⟩
  | @ends o before after notes =>
      obtain ⟨m, made, kin⟩ := recorded.kin h o before
      have made' := change.made_of_made tidy made
      refine .inr ⟨m, made', ?_, after, ?_⟩
      · rw [← (change.recorded recorded).size]
        exact (Array.getElem?_eq_some_iff.1 made').1
      · rw [notes, awaits.notes, List.nil_append, kin.finalizations_eq]
  | rests before after notes =>
      refine .inl ⟨fun issued => ?_, notes.trans awaits.notes⟩
      -- The object is not made yet, so this change would have made it.
      have unmade : e.heap.slots.size ≤ h := by
        by_contra inside
        rw [awaits.live (Nat.lt_of_not_le inside)] at before
        cases before
      rcases change.made tidy with ⟨-, same⟩ | ⟨o, -, grown, live, -⟩
      · exact absurd issued (Nat.not_lt.2 (same ▸ unmade))
      · rw [grown] at issued
        have new : h = e.heap.slots.size := Nat.le_antisymm (Nat.le_of_lt_succ issued) unmade
        rw [new]
        exact Heap.isLive_iff.2 ⟨o, live⟩
  | begins hopen new after made notes =>
      exact .inl ⟨fun _ => Heap.isLive_iff.2 ⟨_, after⟩, notes.trans awaits.notes⟩

/-! ### Runs -/

theorem Engine.recorded_new (limits : Limits) : (Engine.new limits).Recorded where
  tidy _ := trivial
  size := rfl
  kin h o slot := by cases slot
  fits h m made := by simp [Engine.new] at made
  closed _ _ := rfl

theorem Engine.awaits_new (limits : Limits) (h : Handle) : (Engine.new limits).Awaits h :=
  ⟨fun inside => absurd inside (Nat.not_lt_zero h), rfl⟩

theorem Engine.Recorded.perform (recorded : e.Recorded) (a : Action) :
    (e.perform a).2.Recorded := by
  obtain ⟨e', finalizers, changes, result⟩ := e.changes_perform a
  have kept : e'.Recorded := changes.keep (P := Engine.Recorded)
    (fun change recorded => change.recorded recorded) recorded
  rw [result]
  exact ⟨kept.tidy, kept.size, kept.kin, kept.fits, kept.closed⟩

theorem Engine.Ended.perform (ended : e.Ended h notes) (recorded : e.Recorded)
    (made : e.made[h]? = some m) (a : Action) :
    (e.perform a).2.Ended h notes ∧ (e.perform a).2.made[h]? = some m := by
  obtain ⟨e', finalizers, changes, result⟩ := e.changes_perform a
  have kept : e'.Recorded ∧ e'.Ended h notes ∧ e'.made[h]? = some m :=
    changes.keep (P := fun e => e.Recorded ∧ e.Ended h notes ∧ e.made[h]? = some m)
      (fun change holds => ⟨change.recorded holds.1, change.ended holds.1.tidy holds.2.1,
        change.made_of_made holds.1.tidy holds.2.2⟩) ⟨recorded, ended, made⟩
  obtain ⟨-, ended, made⟩ := kept
  rw [result]
  exact ⟨⟨ended.issued, ended.gone, ended.notes⟩, made⟩

/-- A request that ends an object makes the finalizations that are due as the
finalizers are before it. -/
theorem Engine.Awaits.perform (awaits : e.Awaits h) (recorded : e.Recorded) (a : Action) :
    (e.perform a).2.Awaits h ∨ ∃ m, (e.perform a).2.made[h]? = some m ∧
      (e.perform a).2.Ended h (m.finalizations h e.finalizers) := by
  obtain ⟨e', finalizers, changes, result⟩ := e.changes_perform a
  have kept : e'.Recorded ∧ e'.finalizers = e.finalizers ∧ (e'.Awaits h ∨
      ∃ m, e'.made[h]? = some m ∧ e'.Ended h (m.finalizations h e.finalizers)) := by
    refine changes.keep (P := fun e₁ => e₁.Recorded ∧ e₁.finalizers = e.finalizers ∧
      (e₁.Awaits h ∨ ∃ m, e₁.made[h]? = some m ∧ e₁.Ended h (m.finalizations h e.finalizers)))
      ?_ ⟨recorded, rfl, .inl awaits⟩
    rintro e₁ e₂ change ⟨recorded, same, stage⟩
    refine ⟨change.recorded recorded, (change.finalizers_eq recorded.tidy).trans same, ?_⟩
    rcases stage with awaits | ⟨m, made, ended⟩
    · exact same ▸ change.awaits recorded awaits
    · exact .inr ⟨m, change.made_of_made recorded.tidy made, change.ended recorded.tidy ended⟩
  obtain ⟨-, -, stage⟩ := kept
  rw [result]
  rcases stage with awaits | ⟨m, made, ended⟩
  · exact .inl ⟨awaits.live, awaits.notes⟩
  · exact .inr ⟨m, made, ended.issued, ended.gone, ended.notes⟩

theorem Engine.Recorded.run (recorded : e.Recorded) (requests : List Action) :
    (e.run requests).2.Recorded := by
  induction requests generalizing e with
  | nil => exact recorded
  | cons a rest ih => exact ih (recorded.perform a)

theorem Engine.Ended.run (ended : e.Ended h notes) (recorded : e.Recorded)
    (made : e.made[h]? = some m) (requests : List Action) :
    (e.run requests).2.Ended h notes ∧ (e.run requests).2.made[h]? = some m := by
  induction requests generalizing e with
  | nil => exact ⟨ended, made⟩
  | cons a rest ih =>
      obtain ⟨ended', made'⟩ := ended.perform recorded made a
      exact ih ended' (recorded.perform a) made'

/-- An object still waits for its end after a run, or there is one request in the
run that ended it. -/
theorem Engine.Awaits.run (awaits : e.Awaits h) (recorded : e.Recorded)
    (requests : List Action) : (e.run requests).2.Awaits h ∨ ∃ past a future m,
      requests = past ++ a :: future ∧ (e.run requests).2.made[h]? = some m ∧
        (e.run past).2.Awaits h ∧
        ((e.run past).2.perform a).2.Ended h (m.finalizations h (e.run past).2.finalizers) ∧
        (e.run requests).2.Ended h (m.finalizations h (e.run past).2.finalizers) := by
  induction requests generalizing e with
  | nil => exact .inl awaits
  | cons a rest ih =>
      rcases awaits.perform recorded a with awaits' | ⟨m, made, ended⟩
      · rcases ih awaits' (recorded.perform a) with still | ⟨past, b, future, m, parts, result⟩
        · exact .inl still
        · exact .inr ⟨a :: past, b, future, m, by rw [parts, List.cons_append], result⟩
      · obtain ⟨ended', made'⟩ := ended.run (recorded.perform a) made rest
        exact .inr ⟨[], a, rest, m, rfl, made', awaits, ended, ended'⟩

/-- The word that the host put into a payload. -/
def Payload.cookie? : Payload → Option UInt64
  | .host _ _ cookie => some cookie
  | _ => none

theorem Object.finalizations_of_host (h : Handle) (finalizers : List (ClassId × Finalizer))
    (host : m.classId.isHost = true)
    (fits : m.payload.Fits m.objectClass) : ∃ cookie, m.payload.cookie? = some cookie ∧
      m.finalizations h finalizers = [⟨h, m.classId, cookie, finalizers.lookup m.classId⟩] := by
  have class_eq : m.objectClass = .host := (ClassId.isHost_iff m.classId).1 host
  rw [class_eq] at fits
  rw [Object.finalizations]
  cases payload : m.payload <;> rw [payload] at fits <;> simp [Payload.Fits] at fits
  rename_i proto properties cookie
  exact ⟨cookie, rfl, if_pos host⟩

/-- In a run that closes the engine each host object that was ever made is
finalized once: by the one request that ended it, with its own cookie, and with
the finalizer that its class had before that request. Nothing was noted about it
before, and nothing more is noted later. -/
theorem Engine.finalized_once (limits : Limits) (requests : List Action) {h : Handle} {m : Object}
    (closed : ((Engine.new limits).run requests).2.isClosed = true)
    (made : ((Engine.new limits).run requests).2.made[h]? = some m)
    (host : m.classId.isHost = true) :
    ∃ past a future cookie, requests = past ++ a :: future ∧ m.payload.cookie? = some cookie ∧
      let before := ((Engine.new limits).run past).2
      let after := (before.perform a).2
      let note : Finalization := ⟨h, m.classId, cookie, before.finalizers.lookup m.classId⟩
      (h < before.heap.slots.size → before.heap.isLive h = true) ∧
        before.finalizationsOf h = [] ∧ after.heap.isLive h = false ∧
          after.finalizationsOf h = [note] ∧
            ((Engine.new limits).run requests).2.finalizationsOf h = [note] := by
  have recorded := (Engine.recorded_new limits).run requests
  rcases (Engine.awaits_new limits h).run (Engine.recorded_new limits) requests with
    awaits | ⟨past, a, future, m', parts, made', awaits, ended, ended'⟩
  · have issued : h < ((Engine.new limits).run requests).2.heap.slots.size := by
      rw [← recorded.size]
      exact (Array.getElem?_eq_some_iff.1 made).1
    have gone := recorded.closed closed h
    rw [awaits.live issued] at gone
    cases gone
  · obtain rfl := Option.some.inj (made.symm.trans made')
    obtain ⟨cookie, held, due⟩ := Object.finalizations_of_host h
      ((Engine.new limits).run past).2.finalizers host (recorded.fits h m made)
    rw [due] at ended ended'
    exact ⟨past, a, future, cookie, parts, held, awaits.live, awaits.notes, ended.gone, ended.notes,
      ended'.notes⟩

/-- A host that over-releases an object with a finalizer on the bridge, takes the
finalizer away, and leaves another object of the class to the shutdown. -/
def finalizedTwice : List Action :=
  [.setFinalizer 6 (some "close"), .makeHost Value.null 6 1, .makeHost Value.null 6 2,
    .relinquish (.reference 0), .relinquish (.reference 0), .setFinalizer 6 none, .shutdown,
    .shutdown]

theorem finalized_once_finalizedTwice : ∃ past a future cookie,
    finalizedTwice = past ++ a :: future ∧
      ((Engine.new {}).run finalizedTwice).2.finalizationsOf 0 =
        [⟨0, 6, cookie, ((Engine.new {}).run past).2.finalizers.lookup 6⟩] := by
  have facts : ((Engine.new {}).run finalizedTwice).2.isClosed = true ∧
      ((Engine.new {}).run finalizedTwice).2.made[0]? =
        some (Object.new 6 (.host Value.null [] 1)) := by
    decide +kernel
  obtain ⟨past, a, future, cookie, parts, -, -, -, -, -, once⟩ :=
    Engine.finalized_once {} finalizedTwice facts.1 facts.2 rfl
  exact ⟨past, a, future, cookie, parts, once⟩

end

end CountedHeap
