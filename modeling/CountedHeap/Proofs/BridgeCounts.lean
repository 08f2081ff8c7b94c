import CountedHeap.Proofs.Adoption
import CountedHeap.Proofs.ScriptSafety

/-!
One object under the four calls that count on it. Whatever its payload holds and whatever
else the host has done, its header follows a small machine of its own: the count moves with
the call, a claim on the bridge is remembered, and the first call that leaves no count takes
the object off the list, with a parked header if it was ever claimed and without one
otherwise. What the payload gives back on the way finds a header without a count, and
leaves it as it is.
-/

namespace CountedHeap

/-- A call that counts on an object: for the engine or for the host, up or down. -/
inductive CountCall
  | retain
  | adopt
  | relinquish
  | release
  deriving DecidableEq, Repr

def CountCall.action (h : Handle) : CountCall → Action
  | .retain => .retain (.reference h)
  | .adopt => .adopt (.reference h)
  | .relinquish => .relinquish (.reference h)
  | .release => .release (.reference h)

/-- What a call makes of a count. Only the bridge goes below zero. -/
def CountCall.next (n : Int) : CountCall → Int
  | .retain => n + 1
  | .adopt => n + 1
  | .relinquish => n - 1
  | .release => if 0 < n then n - 1 else n

/-- Whether the call is made on the bridge. -/
def CountCall.claims : CountCall → Bool
  | .adopt => true
  | .relinquish => true
  | _ => false

/-- The count after some calls. -/
def countsAfter (n : Int) (calls : List CountCall) : Int :=
  calls.foldl CountCall.next n

/-- What a call notes about the object it is made on. -/
def CountCall.notes (h : Handle) (o : Object) : CountCall → List Diagnostic
  | .relinquish =>
    if o.count - 1 < 0 then [.objectBelowZero h { o.adopt with count := o.count - 1 }] else []
  | .release => if o.count ≤ 0 then [.surplusRelease h o] else []
  | _ => []

/-- What a call makes of a header. -/
def Object.called (o : Object) (call : CountCall) : Object :=
  { o with count := call.next o.count, adopted := o.adopted || call.claims }

/-- What a call makes of a slot. -/
def Slot.called (s : Slot) (call : CountCall) : Slot :=
  match s with
  | .live o =>
    if call.next o.count = 0 then
      if (o.called call).adopted then .parked (o.called call).release else .reclaimed
    else .live (o.called call)
  | .parked o => .parked (o.called call)
  | .reclaimed => .reclaimed

/-- Nothing that is given back moves this slot any more. -/
def Slot.AtRest : Slot → Prop
  | .live _ => False
  | .parked o => o.freed = true ∧ o.count ≤ 0
  | .reclaimed => True

/-- What a call has noted: what is to be said about the object and, where the call takes the
last reference on a live object, references that came out of its payload and were not
there to be given back. -/
def CountCall.Noted (call : CountCall) (h : Handle) (o : Object) (e e' : Engine) : Prop :=
  ∃ notes, e'.diagnostics.toList = e.diagnostics.toList ++ call.notes h o ++ notes ∧
    (notes ≠ [] → e.heap.isLive h = true ∧ 0 < o.count ∧ call.next o.count = 0) ∧
    ∀ d ∈ notes, ∃ k o, d = .surplusRelease k o

/-- The engine after a run of requests. -/
def Engine.after (limits : Limits) (requests : List Action) : Engine :=
  ((Engine.new limits).run requests).2

/-- What is known when calls on one object have led from a count of `n` to the engine `e`, and
one more call has then been answered and has led to `e'`. The object may have been claimed
on the bridge before. -/
structure CountCall.Follows (h : Handle) (n : Int) (claimed : Prop) (calls : List CountCall)
    (call : CountCall) (e : Engine) (answer : Answer) (e' : Engine) : Prop where
  before : e.countOf (.reference h) = countsAfter n calls
  after : e'.countOf (.reference h) = countsAfter n (calls ++ [call])
  answer : call = .relinquish → answer = .count (countsAfter n (calls ++ [call]))
  noted : ∃ o, e.heap.object? h = some o ∧ o.count = countsAfter n calls ∧ call.Noted h o e e'
  live : e'.heap.isLive h = true ↔ ∀ past, past <+: calls ++ [call] → countsAfter n past ≠ 0
  parks : (∀ past, past <+: calls → countsAfter n past ≠ 0) →
    countsAfter n (calls ++ [call]) = 0 → (claimed ∨ ∃ c ∈ calls ++ [call], c.claims = true) →
      e.heap.isParked h = false ∧ e'.heap.isParked h = true
  reclaims : (∀ past, past <+: calls → countsAfter n past ≠ 0) →
    countsAfter n (calls ++ [call]) = 0 → ¬ (claimed ∨ ∃ c ∈ calls ++ [call], c.claims = true) →
      e'.heap.slot h = .reclaimed
  stays : e.heap.isLive h = false → e.heap.isParked h = true ∧ e'.heap.isParked h = true
  once : e'.heap.parkedCount = e'.heap.slots.countP Slot.isParked

section

variable {e e' e'' : Engine} {h k : Handle} {o : Object} {s : Slot} {n : Int} {a : Action}
  {call : CountCall} {calls : List CountCall}

/-! ### What a cascade leaves alone -/

theorem Engine.slot_dropReference_of_atRest (rest : (e.heap.slot h).AtRest) (k : Handle) :
    (e.dropReference k).2.heap.slot h = e.heap.slot h := by
  cases slot : e.heap.slot h with
  | live o =>
      rw [slot] at rest
      exact absurd rest id
  | parked o =>
      rw [slot] at rest
      have found : e.heap.object? h = some o := Heap.object?_eq_some.2 (.inr slot)
      rw [Engine.slot_dropReference_of_count found rest.2, slot]
  | reclaimed =>
      rw [Engine.dropReference]
      split
      · split
        · rw [Engine.heap_updateObject, Heap.slot_update, slot]
          exact ite_self _
        · exact slot
      · exact slot

theorem Engine.slot_dropAll_of_atRest {found hs : List Handle} (rest : (e.heap.slot h).AtRest) :
    (e.dropAll found hs).2.heap.slot h = e.heap.slot h := by
  induction hs generalizing e found with
  | nil => rfl
  | cons k later ih =>
      have step := Engine.slot_dropReference_of_atRest rest k
      rw [Engine.dropAll]
      split <;> rename_i e' drop <;> rw [drop] at step <;>
        rw [ih (by rw [step]; exact rest), step]

/-- An object at rest is not disposed of again. -/
theorem Engine.slot_dispose_of_atRest (rest : (e.heap.slot h).AtRest) (k : Handle) :
    (e.dispose k).2.heap.slot h = e.heap.slot h := by
  rw [Engine.dispose]
  split
  · rename_i o found
    split
    · rfl
    · rename_i fresh
      have differ : h ≠ k := by
        rintro rfl
        rcases Heap.object?_eq_some.1 found with slot | slot
        · rw [slot] at rest
          exact rest
        · rw [slot] at rest
          exact fresh rest.1
      have released : ((e.updateObject k Object.release).finalize k o).heap.slot h =
          e.heap.slot h := by
        rw [Engine.heap_finalize, Engine.heap_updateObject, Heap.slot_update, if_neg differ]
      show (Engine.retire _ k _ _).heap.slot h = _
      rw [Engine.heap_retire, Heap.slot_retire, if_neg differ,
        Engine.slot_dropAll_of_atRest (released ▸ rest), released]
  · rfl

theorem Engine.slot_drain_of_atRest {queue : List Handle} (rest : (e.heap.slot h).AtRest) :
    (e.drain queue).heap.slot h = e.heap.slot h := by
  fun_induction Engine.drain e queue with
  | case1 e => rfl
  | case2 e k later zeroed e' step ih =>
      have same := Engine.slot_dispose_of_atRest rest k
      rw [step] at same
      rw [ih (same ▸ rest), same]

/-- An object that has lost its last reference leaves the list, with its header parked if the
host has claimed it. What its payload gives back does not change that. -/
theorem Engine.slot_drain_of_fallen (slot : e.heap.slot h = .live o) (fresh : o.freed = false)
    (zero : o.count = 0) :
    (e.drain [h]).heap.slot h = if o.adopted then .parked o.release else .reclaimed := by
  have disposed : (e.dispose h).2.heap.slot h =
      if o.adopted then .parked o.release else .reclaimed := by
    have dropped : (((e.updateObject h Object.release).finalize h o).dropAll []
        o.payload.owned).2.heap.slot h = .live o.release :=
      Engine.slot_dropAll_released slot zero
    simp only [Engine.dispose, Heap.object?_of_live slot, fresh, Bool.false_eq_true, if_false]
    rw [Engine.heap_retire, Heap.slot_retire, if_pos rfl, dropped]
    rfl
  have rest : ((e.dispose h).2.heap.slot h).AtRest := by
    rw [disposed]
    split
    · exact ⟨rfl, zero.le⟩
    · trivial
  rw [Engine.drain_cons, Engine.slot_drain_of_atRest rest, disposed]

/-! ### One call -/

theorem Slot.called_of_ne (found : s.object? = some o) (counted : call.next o.count ≠ 0) :
    s.called call = s.map fun o => o.called call := by
  cases s with
  | live o' =>
      obtain rfl := Option.some.inj found
      exact if_neg counted
  | parked o' => rfl
  | reclaimed => rfl

theorem Slot.called_parked : (Slot.parked o).called call = .parked (o.called call) := rfl

theorem Heap.slot_update_called (found : e.heap.object? h = some o) {f : Object → Object}
    (same : f o = o.called call) :
    (e.heap.update h f).slot h = (e.heap.slot h).map fun o => o.called call := by
  rw [Heap.slot_update, if_pos rfl]
  rcases Heap.object?_eq_some.1 found with slot | slot
  · rw [slot]
    exact congrArg Slot.live same
  · rw [slot]
    exact congrArg Slot.parked same

/-- The header has lost its last reference, and the queue is worked off. -/
theorem Engine.slot_drain_called (sound : e.heap.Sound 0 0) (found : e.heap.object? h = some o)
    {f : Object → Object} (same : f o = o.called call) (zero : call.next o.count = 0) :
    ((e.updateObject h f).drain [h]).heap.slot h = (e.heap.slot h).called call := by
  have after := Heap.slot_update_called found same
  rcases Heap.object?_eq_some.1 found with slot | slot
  · rw [slot] at after ⊢
    have fresh : o.freed = false := (sound.live slot).2.1
    rw [Engine.slot_drain_of_fallen (o := o.called call) after fresh zero, Slot.called, if_pos zero]
  · rw [slot] at after ⊢
    have rest : ((e.updateObject h f).heap.slot h).AtRest := by
      rw [Engine.heap_updateObject, after]
      exact ⟨(sound.parked slot).2.2.1, zero.le⟩
    rw [Engine.slot_drain_of_atRest rest]
    exact after

theorem Engine.slot_addReference_called (found : e.heap.object? h = some o)
    (range : (e.addReference h).InRange) (positive : ∀ o, e.heap.slot h = .live o → 0 < o.count) :
    (e.addReference h).heap.slot h = (e.heap.slot h).called .retain := by
  obtain ⟨fits, result⟩ := Engine.addReference_eq found range
  have same : { o with count := wrapCount (o.count + 1) } = o.called .retain := by
    rw [wrapCount_of_inRange fits, Object.called]
    simp [CountCall.next, CountCall.claims]
  rw [result, Engine.heap_updateObject, Heap.slot_update_called found same]
  cases slot : e.heap.slot h with
  | live o' =>
      have := positive o' slot
      refine (Slot.called_of_ne rfl ?_).symm
      show o'.count + 1 ≠ 0
      omega
  | parked o' => rfl
  | reclaimed => rfl

theorem Engine.Steady.slot_releaseReference (steady : e.Steady) (range : e.InRange)
    (found : e.heap.object? h = some o) :
    (e.releaseReference h).heap.slot h = (e.heap.slot h).called .release := by
  have sound := steady.sound range
  rw [Engine.releaseReference_of_rested steady.rested, Engine.dropReference, found]
  by_cases positive : 0 < o.count
  · have next : CountCall.next o.count .release = o.count - 1 := if_pos positive
    have same : { o with count := o.count - 1 } = o.called .release := by
      rw [Object.called, next]
      simp [CountCall.claims]
    simp only [positive, if_true]
    by_cases last : o.count = 1
    · have zero : CountCall.next o.count .release = 0 := by omega
      simp only [last, beq_self_eq_true]
      exact Engine.slot_drain_called sound found same zero
    · have more : (o.count == 1) = false := by simpa using last
      simp only [more]
      rw [Engine.heap_updateObject, Heap.slot_update_called found same]
      exact (Slot.called_of_ne found (by omega)).symm
  · simp only [positive, if_false]
    rcases Heap.object?_eq_some.1 found with slot | slot
    · exact absurd (sound.live slot).2.2 positive
    · have same : o.called .release = o := by
        rw [Object.called, CountCall.next, if_neg positive]
        simp [CountCall.claims]
      show e.heap.slot h = _
      rw [slot, Slot.called_parked, same]

theorem Engine.Steady.slot_relinquish (steady : e.Steady) (found : e.heap.object? h = some o)
    (range : (e.relinquish (.reference h)).2.InRange) :
    (e.relinquish (.reference h)).2.heap.slot h = (e.heap.slot h).called .relinquish := by
  obtain ⟨-, result⟩ := Engine.relinquish_eq found range
  have before : e.InRange := by
    rw [result, inRange_of_frame (Engine.frame_afterRelinquish _ _ _)] at range
    exact range
  have sound := steady.sound before
  have same : { o.adopt with count := o.count - 1 } = o.called .relinquish := by
    simp [Object.called, Object.adopt, CountCall.next, CountCall.claims]
  rw [result, Engine.afterRelinquish]
  by_cases zero : o.count - 1 = 0
  · have rested : (e.updateObject h fun o' => { o'.adopt with count := o.count - 1 }).Rested :=
      steady.rested
    rw [if_pos zero, Engine.queueZero_eq rested]
    exact Engine.slot_drain_called sound found same zero
  · have after : ∀ d, ((e.updateObject h fun o' => { o'.adopt with count := o.count - 1 }).record
        d).heap.slot h = (e.heap.slot h).called .relinquish := by
      intro d
      rw [Engine.heap_record, Engine.heap_updateObject, Heap.slot_update_called found same]
      have counted : CountCall.next o.count .relinquish ≠ 0 := zero
      exact (Slot.called_of_ne found counted).symm
    rw [if_neg zero]
    split
    · exact after _
    · exact after (.objectBelowZero h o)

theorem Engine.slot_adopt_called (found : e.heap.object? h = some o)
    (range : (e.adopt (.reference h)).InRange)
    (positive : ∀ o, e.heap.slot h = .live o → 0 < o.count) :
    (e.adopt (.reference h)).heap.slot h = (e.heap.slot h).called .adopt := by
  have marked : (e.updateObject h Object.adopt).heap.slot h = (e.heap.slot h).map Object.adopt := by
    rw [Engine.heap_updateObject, Heap.slot_update, if_pos rfl]
  have found' : (e.updateObject h Object.adopt).heap.object? h = some o.adopt := by
    rw [Heap.object?, marked, Slot.object?_map, ← Heap.object?, found, Option.map_some]
  have added : ((e.updateObject h Object.adopt).addReference h).heap.slot h = _ :=
    Engine.slot_addReference_called found' range fun o' slot => by
      rw [marked] at slot
      cases before : e.heap.slot h with
      | live o =>
          rw [before] at slot
          obtain rfl := Slot.live.inj slot
          exact positive o before
      | parked o => simp [before, Slot.map] at slot
      | reclaimed => simp [before, Slot.map] at slot
  have claimed (o : Object) : o.adopt.called .retain = o.called .adopt := by
    simp [Object.called, Object.adopt, CountCall.next, CountCall.claims]
  show ((e.updateObject h Object.adopt).addReference h).heap.slot h = _
  rw [added, marked]
  cases slot : e.heap.slot h with
  | live o =>
      have counted := positive o slot
      have more : CountCall.next o.count .retain ≠ 0 := by
        simp only [CountCall.next]
        omega
      show Slot.called (.live o.adopt) .retain = _
      rw [Slot.called, Slot.called, claimed]
      exact (if_neg more).trans (if_neg more).symm
  | parked o => exact congrArg Slot.parked (claimed o)
  | reclaimed => rfl

theorem Engine.perform_call (found : e.heap.object? h = some o) (call : CountCall) :
    e.perform (call.action h) = e.carryOut (call.action h) := by
  have valid : e.isValid (.reference h) = true := Engine.isValid_reference_iff.2 ⟨o, found⟩
  apply Engine.perform_of_valid
  cases call <;> simpa [CountCall.action, Action.arguments] using valid

/-- A call moves the slot of the object that it is made on as the small machine does. -/
theorem Engine.Steady.slot_call (steady : e.Steady) (found : e.heap.object? h = some o)
    (range : (e.perform (call.action h)).2.InRange) :
    (e.perform (call.action h)).2.heap.slot h = (e.heap.slot h).called call := by
  have before : e.InRange := Engine.inRange_of_perform range
  have positive : ∀ o, e.heap.slot h = .live o → 0 < o.count :=
    fun o slot => ((steady.sound before).live slot).2.2
  rw [Engine.perform_call found] at range ⊢
  cases call with
  | retain => exact Engine.slot_addReference_called found range positive
  | adopt => exact Engine.slot_adopt_called found range positive
  | relinquish => exact steady.slot_relinquish found range
  | release => exact steady.slot_releaseReference before found

theorem CountCall.Noted.silent (noted : e'.diagnostics.toList =
    e.diagnostics.toList ++ call.notes h o) : call.Noted h o e e' :=
  ⟨[], by rw [noted, List.append_nil], fun some => absurd rfl some, nofun⟩

/-- Only a live object has a payload that may give back too much. -/
theorem Engine.noted_drain_called (sound : e.heap.Sound 0 0) (found : e.heap.object? h = some o)
    {f : Object → Object} (same : f o = o.called call) (zero : call.next o.count = 0)
    (quiet : call.notes h o = []) : call.Noted h o e ((e.updateObject h f).drain [h]) := by
  rcases Heap.object?_eq_some.1 found with slot | slot
  · have drained : (e.updateObject h f).NotesSurplus ((e.updateObject h f).drain [h]) :=
      Engine.heapWork_notesSurplus.slotWork.drain _ [h]
    obtain ⟨notes, added, surplus⟩ := drained
    refine ⟨notes, ?_, fun _ => ?_, surplus⟩
    rotate_left
    · exact ⟨Heap.isLive_iff.2 ⟨o, slot⟩, (sound.live slot).2.2, zero⟩
    rw [added, quiet, List.append_nil]
    rfl
  · have freed : o.freed = true := (sound.parked slot).2.2.1
    have after : (e.updateObject h f).heap.object? h = some (o.called call) := by
      rw [Engine.heap_updateObject, Heap.object?_update, if_pos rfl, found, Option.map_some, same]
    have idle : (e.updateObject h f).dispose h = ([], e.updateObject h f) := by
      rw [Engine.dispose, after]
      exact if_pos freed
    apply CountCall.Noted.silent
    rw [Engine.drain_cons, idle, List.append_nil, Engine.drain_nil, quiet, List.append_nil]
    rfl

theorem Engine.Steady.noted_releaseReference (steady : e.Steady) (range : e.InRange)
    (found : e.heap.object? h = some o) :
    CountCall.release.Noted h o e (e.releaseReference h) := by
  rw [Engine.releaseReference_of_rested steady.rested, Engine.dropReference, found]
  by_cases positive : 0 < o.count
  · have quiet : CountCall.release.notes h o = [] := if_neg (Int.not_le.2 positive)
    have next : CountCall.next o.count .release = o.count - 1 := if_pos positive
    simp only [positive, if_true]
    by_cases last : o.count = 1
    · have same : { o with count := o.count - 1 } = o.called .release := by
        rw [Object.called, next]
        simp [CountCall.claims]
      simp only [last, beq_self_eq_true]
      exact Engine.noted_drain_called (steady.sound range) found same (by omega) quiet
    · have more : (o.count == 1) = false := by simpa using last
      simp only [more]
      apply CountCall.Noted.silent
      rw [quiet, List.append_nil]
      rfl
  · have noted : CountCall.release.notes h o = [.surplusRelease h o] :=
      if_pos (Int.not_lt.1 positive)
    simp only [positive, if_false]
    apply CountCall.Noted.silent
    rw [noted]
    exact Array.toList_push

theorem Engine.Steady.noted_relinquish (steady : e.Steady) (found : e.heap.object? h = some o)
    (range : (e.relinquish (.reference h)).2.InRange) :
    CountCall.relinquish.Noted h o e (e.relinquish (.reference h)).2 := by
  obtain ⟨-, result⟩ := Engine.relinquish_eq found range
  have before : e.InRange := by
    rw [result, inRange_of_frame (Engine.frame_afterRelinquish _ _ _)] at range
    exact range
  rw [result, Engine.afterRelinquish]
  by_cases zero : o.count - 1 = 0
  · have same : { o.adopt with count := o.count - 1 } = o.called .relinquish := by
      simp [Object.called, Object.adopt, CountCall.next, CountCall.claims]
    have rested : (e.updateObject h fun o' => { o'.adopt with count := o.count - 1 }).Rested :=
      steady.rested
    have quiet : CountCall.relinquish.notes h o = [] := if_neg (by omega)
    rw [if_pos zero, Engine.queueZero_eq rested]
    exact Engine.noted_drain_called (steady.sound before) found same zero quiet
  · rw [if_neg zero]
    apply CountCall.Noted.silent
    split
    · rename_i below
      rw [CountCall.notes, if_pos below]
      exact Array.toList_push
    · rename_i enough
      rw [CountCall.notes, if_neg enough, List.append_nil]
      rfl

theorem Engine.diagnostics_addReference (found : e.heap.object? h = some o)
    (range : (e.addReference h).InRange) : (e.addReference h).diagnostics = e.diagnostics := by
  rw [(Engine.addReference_eq found range).2]
  rfl

theorem Engine.Steady.noted_call (steady : e.Steady) (found : e.heap.object? h = some o)
    (range : (e.perform (call.action h)).2.InRange) :
    call.Noted h o e (e.perform (call.action h)).2 := by
  have before : e.InRange := Engine.inRange_of_perform range
  rw [Engine.perform_call found] at range ⊢
  cases call with
  | retain =>
      apply CountCall.Noted.silent
      have kept : (e.addReference h).diagnostics = e.diagnostics :=
        Engine.diagnostics_addReference found range
      exact (congrArg Array.toList kept).trans (List.append_nil _).symm
  | adopt =>
      apply CountCall.Noted.silent
      have found' : (e.updateObject h Object.adopt).heap.object? h = some o.adopt := by
        rw [Engine.heap_updateObject, Heap.object?_update, if_pos rfl, found, Option.map_some]
      have kept : ((e.updateObject h Object.adopt).addReference h).diagnostics = e.diagnostics :=
        Engine.diagnostics_addReference found' range
      exact (congrArg Array.toList kept).trans (List.append_nil _).symm
  | relinquish => exact steady.noted_relinquish found range
  | release => exact steady.noted_releaseReference before found

/-! ### Many calls -/

/-- What the machine makes of the slot of a live object, as long as no count is zero. -/
theorem Slot.foldl_called_of_counted {calls : List CountCall} {o : Object}
    (counted : ∀ past, past <+: calls → countsAfter o.count past ≠ 0) :
    calls.foldl Slot.called (.live o) = .live (calls.foldl Object.called o) := by
  induction calls generalizing o with
  | nil => rfl
  | cons call rest ih =>
      have next : call.next o.count ≠ 0 := counted [call] (by simp)
      have step : (Slot.live o).called call = .live (o.called call) := if_neg next
      rw [List.foldl_cons, step, List.foldl_cons]
      exact ih fun past before => counted (call :: past) (List.cons_prefix_cons.2 ⟨rfl, before⟩)

theorem Slot.isLive_foldl_called_of_not_live (gone : s.isLive = false) (calls : List CountCall) :
    (calls.foldl Slot.called s).isLive = false := by
  induction calls generalizing s with
  | nil => exact gone
  | cons call rest ih =>
      apply ih
      cases s with
      | live o => cases gone
      | parked o => rfl
      | reclaimed => rfl

/-- The object is live until a count is zero, and not again. -/
theorem Slot.isLive_foldl_called {calls : List CountCall} {o : Object} (counted : o.count ≠ 0) :
    (calls.foldl Slot.called (.live o)).isLive = true ↔
      ∀ past, past <+: calls → countsAfter o.count past ≠ 0 := by
  induction calls generalizing o with
  | nil =>
      refine ⟨fun _ past before => ?_, fun _ => rfl⟩
      rw [List.prefix_nil.1 before]
      exact counted
  | cons call rest ih =>
      by_cases zero : call.next o.count = 0
      · have gone : ((Slot.live o).called call).isLive = false := by
          rw [Slot.called, if_pos zero]
          split <;> rfl
        rw [List.foldl_cons, Slot.isLive_foldl_called_of_not_live gone]
        refine ⟨fun live => (Bool.false_ne_true live).elim, fun all => ?_⟩
        exact absurd zero (all [call] (by simp))
      · have step : (Slot.live o).called call = .live (o.called call) := if_neg zero
        rw [List.foldl_cons, step, ih zero]
        constructor
        · rintro all past before
          rcases List.prefix_cons_iff.1 before with rfl | ⟨past', rfl, before'⟩
          · exact counted
          · exact all past' before'
        · exact fun all past before => all (call :: past) (List.cons_prefix_cons.2 ⟨rfl, before⟩)

theorem Object.adopted_foldl_called (calls : List CountCall) (o : Object) :
    (calls.foldl Object.called o).adopted = (o.adopted || calls.any CountCall.claims) := by
  induction calls generalizing o with
  | nil => simp
  | cons call rest ih =>
      rw [List.foldl_cons, ih, List.any_cons, ← Bool.or_assoc]
      rfl

theorem Object.count_foldl_called (calls : List CountCall) (o : Object) :
    (calls.foldl Object.called o).count = countsAfter o.count calls := by
  induction calls generalizing o with
  | nil => rfl
  | cons call rest ih => exact ih (o.called call)

/-! ### The engine follows the machine -/

/-- An engine that has not noted a strayed access was asked with valid arguments only. -/
theorem Engine.valid_of_unstrayed (unstrayed : (e.perform a).2.breaches.strayAccess = false) :
    ∀ v ∈ a.arguments, e.isValid v = true := by
  by_contra invalid
  rw [← List.all_eq_true] at invalid
  have same : (e.perform a).2 = (e.stray.perform a).2 := by
    rw [Engine.perform, if_neg invalid, Engine.perform]
    split <;> rfl
  rw [same, ← Bool.not_eq_true] at unstrayed
  exact unstrayed (Engine.strayed_perform rfl)

theorem Engine.found_of_unstrayed
    (unstrayed : (e.perform (call.action h)).2.breaches.strayAccess = false) :
    ∃ o, e.heap.object? h = some o := by
  apply Engine.isValid_reference_iff.1
  apply Engine.valid_of_unstrayed unstrayed
  cases call <;> exact List.mem_cons_self

theorem Engine.Steady.run (steady : e.Steady) (requests : List Action) :
    (e.run requests).2.Steady :=
  Engine.run_keep (P := Engine.Steady) (fun _ a steady => steady.perform a) steady requests

/-- After a list of calls on one object its slot is where the machine is. -/
theorem Engine.Steady.slot_calls (steady : e.Steady)
    (range : (e.run (calls.map (CountCall.action h))).2.InRange)
    (unstrayed : (e.run (calls.map (CountCall.action h))).2.breaches.strayAccess = false) :
    (e.run (calls.map (CountCall.action h))).2.heap.slot h =
      calls.foldl Slot.called (e.heap.slot h) := by
  induction calls generalizing e with
  | nil => rfl
  | cons call rest ih =>
      have range' : (e.perform (call.action h)).2.InRange := Engine.inRange_of_run range
      have unstrayed' : (e.perform (call.action h)).2.breaches.strayAccess = false :=
        Engine.unstrayed_of_run unstrayed
      obtain ⟨o, found⟩ := Engine.found_of_unstrayed unstrayed'
      rw [List.foldl_cons, ← steady.slot_call found range']
      exact ih (steady.perform _) range unstrayed

theorem Slot.object?_called {o' : Object} (found : (s.called call).object? = some o') :
    ∃ o, s.object? = some o ∧ o'.count = call.next o.count := by
  cases s with
  | live o =>
      refine ⟨o, rfl, ?_⟩
      rw [Slot.called] at found
      split at found
      · split at found
        · exact Option.some.inj found ▸ rfl
        · cases found
      · exact Option.some.inj found ▸ rfl
  | parked o => exact ⟨o, rfl, Option.some.inj found ▸ rfl⟩
  | reclaimed => cases found

/-- A header at the end has been there all along, and its count has followed the calls. -/
theorem Slot.object?_foldl_called {o' : Object}
    (found : (calls.foldl Slot.called s).object? = some o') :
    ∃ o, s.object? = some o ∧ o'.count = countsAfter o.count calls := by
  induction calls generalizing s with
  | nil => exact ⟨o', found, rfl⟩
  | cons call rest ih =>
      obtain ⟨o₁, found₁, count₁⟩ := ih found
      obtain ⟨o, found, count⟩ := Slot.object?_called found₁
      exact ⟨o, found, by rw [count₁, count]; rfl⟩

/-- An object that leaves the list without a header has no count left. -/
theorem Slot.next_eq_zero_of_reclaimed (found : s.object? = some o)
    (gone : s.called call = .reclaimed) : call.next o.count = 0 := by
  cases s with
  | live o' =>
      obtain rfl := Option.some.inj found
      by_contra counted
      rw [Slot.called, if_neg counted] at gone
      cases gone
  | parked o' => cases gone
  | reclaimed => cases found

/-! ### Whose header is kept -/

/-- After a run the marked headers are those of the objects claimed in the course of it. -/
theorem Engine.marks_run {C : Set Handle} {requests : List Action} (marks : e.Marks C)
    (tidy : e.heap.Tidy) (unstrayed : (e.run requests).2.breaches.strayAccess = false) :
    (e.run requests).2.Marks (C ∪ {h | ∃ a ∈ requests, h ∈ a.claimed}) := by
  induction requests generalizing e C with
  | nil => simpa [Engine.run] using marks
  | cons a rest ih =>
      have unstrayed' : (e.perform a).2.breaches.strayAccess = false :=
        Engine.unstrayed_of_run unstrayed
      obtain ⟨tidy', marks'⟩ := marks.perform tidy (Engine.valid_of_unstrayed unstrayed')
      have all : C ∪ {h | ∃ b ∈ a :: rest, h ∈ b.claimed} =
          C ∪ a.claimed ∪ {h | ∃ b ∈ rest, h ∈ b.claimed} := by
        ext h
        simp [or_assoc]
      rw [all]
      exact ih marks' tidy' unstrayed

end

theorem countsAfter_append_singleton (n : Int) (calls : List CountCall) (call : CountCall) :
    countsAfter n (calls ++ [call]) = call.next (countsAfter n calls) := by
  rw [countsAfter, List.foldl_append]
  rfl

/-- The bridge answers the count that is left. -/
theorem Engine.answer_relinquish {e : Engine} {h : Handle} {o : Object}
    (found : e.heap.object? h = some o)
    (range : (e.perform (CountCall.relinquish.action h)).2.InRange) :
    (e.perform (CountCall.relinquish.action h)).1 = .count (o.count - 1) := by
  rw [Engine.perform_call found] at range ⊢
  have fits := (Engine.relinquish_eq found range).1
  show Answer.count (e.relinquish (.reference h)).1 = _
  simp only [Engine.relinquish, Value.handle?, found, wrapCount_of_inRange fits]

/-- At the first call that leaves no count the header is parked if it carries the mark of the
host. -/
theorem Slot.foldl_called_of_first {o : Object} {calls : List CountCall} {call : CountCall}
    (counted : ∀ past, past <+: calls → countsAfter o.count past ≠ 0)
    (zero : countsAfter o.count (calls ++ [call]) = 0) :
    ∃ o', (calls ++ [call]).foldl Slot.called (.live o) =
      if o.adopted = true ∨ ∃ c ∈ calls ++ [call], c.claims = true then .parked o'
      else .reclaimed := by
  have last : (calls ++ [call]).foldl Object.called o =
      (calls.foldl Object.called o).called call := by
    rw [List.foldl_append]
    rfl
  have next : call.next (calls.foldl Object.called o).count = 0 := by
    rw [Object.count_foldl_called, ← countsAfter_append_singleton, zero]
  refine ⟨((calls ++ [call]).foldl Object.called o).release, ?_⟩
  rw [List.foldl_append, Slot.foldl_called_of_counted counted]
  show (Slot.live _).called call = _
  rw [Slot.called, if_pos next, ← last]
  simp only [Object.adopted_foldl_called, Bool.or_eq_true, List.any_eq_true]

/-- What one more call does, when calls have led from `e` to `e₁`. -/
theorem Engine.Steady.follows {e e₁ : Engine} {h : Handle} {o : Object} {claimed : Prop}
    {calls : List CountCall} {call : CountCall} (steady : e.Steady)
    (live : e.heap.slot h = .live o) (marked : o.adopted = true ↔ claimed)
    (led : e₁ = (e.run (calls.map (CountCall.action h))).2)
    (range : (e₁.perform (call.action h)).2.InRange)
    (unstrayed : (e₁.perform (call.action h)).2.breaches.strayAccess = false)
    (accounted : (e₁.perform (call.action h)).2.heap.Accounted) :
    CountCall.Follows h o.count claimed calls call e₁ (e₁.perform (call.action h)).1
      (e₁.perform (call.action h)).2 := by
  have range₁ : e₁.InRange := Engine.inRange_of_perform range
  have ran : (e₁.run [call.action h]).2.breaches.strayAccess = false := unstrayed
  have unstrayed₁ : e₁.breaches.strayAccess = false := Engine.unstrayed_of_run ran
  have steady₁ : e₁.Steady := led ▸ steady.run _
  have slot₁ : e₁.heap.slot h = calls.foldl Slot.called (.live o) := by
    rw [led] at range₁ unstrayed₁ ⊢
    rw [steady.slot_calls range₁ unstrayed₁, live]
  obtain ⟨o₁, found₁⟩ := Engine.found_of_unstrayed unstrayed
  have count₁ : o₁.count = countsAfter o.count calls := by
    rw [Heap.object?, slot₁] at found₁
    obtain ⟨o', start, count⟩ := Slot.object?_foldl_called found₁
    obtain rfl := Option.some.inj start
    exact count
  have next : call.next o₁.count = countsAfter o.count (calls ++ [call]) := by
    rw [countsAfter_append_singleton, count₁]
  have step : (e₁.perform (call.action h)).2.heap.slot h = (e₁.heap.slot h).called call :=
    steady₁.slot_call found₁ range
  have slot₂ : (e₁.perform (call.action h)).2.heap.slot h =
      (calls ++ [call]).foldl Slot.called (.live o) := by
    rw [step, slot₁, List.foldl_append]
    rfl
  have counted : o.count ≠ 0 := by
    have range₀ : e.InRange := Engine.inRange_of_run (led ▸ range₁)
    exact ((steady.sound range₀).live live).2.2.ne'
  constructor
  case before => rw [Engine.countOf_of_object? found₁, count₁]
  case after =>
    cases found₂ : (e₁.perform (call.action h)).2.heap.object? h with
    | some o₂ =>
        rw [Engine.countOf_of_object? found₂, ← next]
        rw [Heap.object?, step] at found₂
        obtain ⟨o', found, count⟩ := Slot.object?_called found₂
        obtain rfl := Option.some.inj (found₁.symm.trans found)
        exact count
    | none =>
        have none : (e₁.perform (call.action h)).2.countOf (.reference h) = 0 := by
          have same : (e₁.perform (call.action h)).2.object? (.reference h) = none := found₂
          rw [Engine.countOf, same]
        rw [none, ← next]
        refine (Slot.next_eq_zero_of_reclaimed found₁ ?_).symm
        rw [Heap.object?, step] at found₂
        cases slot : (e₁.heap.slot h).called call <;> simp [slot, Slot.object?] at found₂ ⊢
  case answer =>
    rintro rfl
    rw [Engine.answer_relinquish found₁ range, ← next]
    rfl
  case noted => exact ⟨o₁, found₁, count₁, steady₁.noted_call found₁ range⟩
  case live =>
    rw [Heap.isLive, slot₂]
    exact Slot.isLive_foldl_called counted
  case parks =>
    intro first zero claims
    obtain ⟨o', parked⟩ := Slot.foldl_called_of_first first zero
    rw [if_pos (claims.imp_left marked.2)] at parked
    rw [Heap.isParked, slot₁, Slot.foldl_called_of_counted first, Heap.isParked, slot₂, parked]
    exact ⟨rfl, rfl⟩
  case reclaims =>
    intro first zero unclaimed
    obtain ⟨o', reclaimed⟩ := Slot.foldl_called_of_first first zero
    rw [if_neg fun either => unclaimed (either.imp_left marked.1)] at reclaimed
    rw [slot₂, reclaimed]
  case stays =>
    intro gone
    have parked : e₁.heap.slot h = .parked o₁ := by
      refine (Heap.object?_eq_some.1 found₁).resolve_left fun slot => ?_
      rw [Heap.isLive, slot] at gone
      cases gone
    rw [Heap.isParked, Heap.isParked, step, parked]
    exact ⟨rfl, rfl⟩
  case once => exact accounted.parkedCount

/-- Calls that count on one live object, in any state that a run has led to: the count follows
the calls, the bridge answers it and notes it below zero, a release at zero or below is
noted once and does nothing, and the object leaves the list at the first call that leaves
no count, for good, with its header parked if a call on the bridge was made on it so far
and without one otherwise. Only the ranges of counts are asked for, and that no header that
is gone was named. -/
theorem Engine.calls_follow (limits : Limits) (past : List Action) (calls : List CountCall)
    (call : CountCall) {h : Handle} {o : Object}
    (live : (Engine.after limits past).heap.slot h = .live o)
    (range : (Engine.after limits (past ++ (calls ++ [call]).map (CountCall.action h))).InRange)
    (unstrayed : (Engine.after limits
      (past ++ (calls ++ [call]).map (CountCall.action h))).breaches.strayAccess = false) :
    CountCall.Follows h o.count (∃ a ∈ past, h ∈ a.claimed) calls call
      (Engine.after limits (past ++ calls.map (CountCall.action h)))
      ((Engine.after limits (past ++ calls.map (CountCall.action h))).perform (call.action h)).1
      (Engine.after limits (past ++ (calls ++ [call]).map (CountCall.action h))) := by
  have last : Engine.after limits (past ++ (calls ++ [call]).map (CountCall.action h)) =
      ((Engine.after limits (past ++ calls.map (CountCall.action h))).perform
        (call.action h)).2 := by
    rw [List.map_append, ← List.append_assoc]
    exact Engine.run_append _ _ [call.action h]
  have led : Engine.after limits (past ++ calls.map (CountCall.action h)) =
      ((Engine.after limits past).run (calls.map (CountCall.action h))).2 :=
    Engine.run_append _ _ _
  have unstrayed₀ : (Engine.after limits past).breaches.strayAccess = false := by
    have whole : Engine.after limits (past ++ (calls ++ [call]).map (CountCall.action h)) =
        ((Engine.after limits past).run ((calls ++ [call]).map (CountCall.action h))).2 :=
      Engine.run_append _ _ _
    exact Engine.unstrayed_of_run (whole ▸ unstrayed)
  have marks := Engine.marks_run (Engine.marks_new limits) (fun _ => trivial) unstrayed₀
  have marked : o.adopted = true ↔ ∃ a ∈ past, h ∈ a.claimed := by
    rw [marks.adopted h o (Heap.object?_of_live live)]
    simp
  have accounted := Engine.accounted_run limits (past ++ (calls ++ [call]).map (CountCall.action h))
  change (Engine.after limits _).heap.Accounted at accounted
  rw [last] at range unstrayed accounted ⊢
  exact ((Engine.steady_new limits).run past).follows live marked led range unstrayed accounted

/-- A host that stores an array in itself and gives up its own reference on it. -/
def ownsItself : List Action :=
  [.makeArray Value.null #[], .retain (.reference 0), .append (.reference 0) (.reference 0),
    .release (.reference 0)]

/-- It gives back on the bridge the reference that the array owns on itself, and the payload
gives it back once more. Then it raises the count of the parked header, and brings it to
zero and below. -/
def raisedAndOverdrawn : List CountCall :=
  [.adopt, .relinquish, .relinquish, .retain, .release]

theorem calls_follow_ownsItself :
    ((Engine.after {} (ownsItself ++ (raisedAndOverdrawn ++ [CountCall.relinquish]).map
        (CountCall.action 0))).countOf (.reference 0) = -1 ∧
      (Engine.after {} (ownsItself ++ (raisedAndOverdrawn ++ [CountCall.relinquish]).map
        (CountCall.action 0))).heap.isParked 0 = true ∧
      (Engine.after {} (ownsItself ++ (raisedAndOverdrawn ++ [CountCall.relinquish]).map
        (CountCall.action 0))).diagnostics.size = 2) ∧
      ∃ o, (Engine.after {} ownsItself).heap.slot 0 = .live o ∧
        CountCall.Follows 0 o.count (∃ a ∈ ownsItself, 0 ∈ a.claimed) raisedAndOverdrawn .relinquish
          (Engine.after {} (ownsItself ++ raisedAndOverdrawn.map (CountCall.action 0)))
          ((Engine.after {} (ownsItself ++ raisedAndOverdrawn.map (CountCall.action 0))).perform
            (.relinquish (.reference 0))).1
          (Engine.after {} (ownsItself ++
            (raisedAndOverdrawn ++ [CountCall.relinquish]).map (CountCall.action 0))) := by
  refine ⟨by decide +kernel, ?_⟩
  have live : (Engine.after {} ownsItself).heap.isLive 0 = true := by decide +kernel
  obtain ⟨o, slot⟩ := Heap.isLive_iff.1 live
  exact ⟨o, slot, Engine.calls_follow {} ownsItself raisedAndOverdrawn .relinquish slot
    (by decide +kernel) (by decide +kernel)⟩

end CountedHeap
