import CountedHeap.Proofs.Residual
import CountedHeap.Proofs.ScriptNames

/-!
What keeps the heap of a script free of dangling references. The names of a script are
looked up before they are used, so that a command never passes an object that is gone;
but a name may be good while the script has no reference left to give back on it. If the
object was claimed on the bridge, its header stays, whatever is given back. If it was not,
it goes away while others still refer to it. So a script is safe as long as whatever it
gives back beyond what it has is on claimed objects.
-/

namespace CountedHeap

/-! ### Requests that are covered -/

/-- What a request gives back beyond the ledger is on objects that were claimed on the
bridge. -/
def Session.Covers (s : Session) (a : Action) : Prop :=
  ∀ h ∈ a.given - s.ledger, (s.engine.heap.object? h).any (·.adopted) = true

/-- A session after some requests of a host that books nothing on the bridge. -/
def Session.after (s : Session) : List Action → Session
  | [] => s
  | a :: rest => (s.act a false).after rest

/-- Each of some requests is covered when it is made. -/
def Session.CoversAll (s : Session) : List Action → Prop
  | [] => True
  | a :: rest => s.Covers a ∧ (s.act a false).CoversAll rest

instance (s : Session) (a : Action) : Decidable (s.Covers a) :=
  inferInstanceAs (Decidable (∀ h ∈ _, _ = true))

instance Session.decidableCoversAll (s : Session) :
    (requests : List Action) → Decidable (s.CoversAll requests)
  | [] => isTrue trivial
  | a :: rest =>
    have := (s.act a false).decidableCoversAll rest
    inferInstanceAs (Decidable (s.Covers a ∧ (s.act a false).CoversAll rest))

/-- The count discipline, whichever objects were misused. -/
def Session.Sound (s : Session) : Prop :=
  ∃ misused, s.engine.Settled misused s.ledger

section

variable {e : Engine} {M : Finset Handle} {X Y : Multiset Handle} {s : Session} {a : Action}
  {requests : List Action}

/-- The host may act as if it owned references on objects that were claimed on the
bridge. They count as misused from then on. -/
theorem Engine.Settled.overdraw (hs : e.Settled M X)
    (claimed : ∀ h ∈ Y, ∃ o, e.heap.object? h = some o ∧ o.adopted = true) :
    e.Settled (M ∪ Y.toFinset) (Y + X) := by
  have grows : M ⊆ M ∪ Y.toFinset := Finset.subset_union_left
  refine ⟨hs.sound, ⟨?_, ?_, ?_, ?_⟩, ⟨?_, hs.blameless.unstrayed, ?_, hs.blameless.spared,
    hs.blameless.addressed, hs.blameless.idle⟩⟩
  · intro h o found fair
    rw [Finset.mem_union, not_or, Multiset.mem_toFinset] at fair
    have apart : Y.count h = 0 := Multiset.count_eq_zero.2 fair.2
    rw [hs.owned.exact h o found fair.1]
    simp only [Multiset.count_add, apart, zero_add]
  · intro h mem
    rw [add_assoc] at mem
    rcases Multiset.mem_add.1 mem with drawn | owned
    · obtain ⟨o, found, -⟩ := claimed h drawn
      exact ⟨o, found⟩
    · exact hs.owned.named h owned
  · intro h mem o found
    rcases Finset.mem_union.1 mem with misused | drawn
    · exact hs.owned.adopted h misused o found
    · obtain ⟨o', found', adopted⟩ := claimed h (Multiset.mem_toFinset.1 drawn)
      obtain rfl : o' = o := Option.some.inj (found'.symm.trans found)
      exact adopted
  · rintro h (mem | left)
    · rcases Finset.mem_union.1 mem with misused | drawn
      · exact hs.owned.issued h (.inl misused)
      · obtain ⟨o, found, -⟩ := claimed h (Multiset.mem_toFinset.1 drawn)
        exact Heap.lt_size_of_object? found
    · exact hs.owned.issued h (.inr left)
  · exact fun d mem => (hs.blameless.excused d mem).mono grows
  · exact fun hopen r mem fair => hs.blameless.kept hopen r mem fun misused => fair (grows misused)

/-- One request. -/
theorem Session.Sound.act (sound : s.Sound) (valid : ∀ v ∈ a.arguments, s.engine.isValid v = true)
    (covered : s.Covers a) (range : (s.act a false).engine.InRange) : (s.act a false).Sound := by
  obtain ⟨M, hs⟩ := sound
  have performed : s.engine.perform a = s.engine.carryOut a := Engine.perform_of_valid valid
  have named : ∀ v ∈ a.arguments, s.engine.Names v :=
    fun v mem => Engine.isValid_iff.1 (valid v mem)
  have claimed : ∀ h ∈ a.given - s.ledger,
      ∃ o, s.engine.heap.object? h = some o ∧ o.adopted = true :=
    fun h mem => (Option.any_eq_true _ _).1 (covered h mem)
  have drawn := hs.overdraw claimed
  -- The request finds all that it gives back, and the rest of the ledger is left.
  have paid : a.given - s.ledger + s.ledger = a.given + (s.ledger - a.given) := by
    rw [← Multiset.union_def, Multiset.union_comm, Multiset.union_def, add_comm]
  rw [paid] at drawn
  have returned : a.returned false = a.given := add_zero a.given
  simp only [Session.act, performed] at range
  simp only [Session.Sound, Session.act, performed, returned]
  by_cases ends : a.ends s.engine = true
  · rw [if_pos ends]
    exact ⟨_, hs.ended ends⟩
  · rw [if_neg ends]
    rw [Bool.not_eq_true] at ends
    exact ⟨_, drawn.carryOut_unbooked named range ends⟩

theorem Session.engine_after (s : Session) (requests : List Action) :
    (s.after requests).engine = (s.engine.run requests).2 := by
  induction requests generalizing s with
  | nil => rfl
  | cons a rest ih => exact ih (s.act a false)

theorem Session.after_append (s : Session) (first later : List Action) :
    s.after (first ++ later) = (s.after first).after later := by
  induction first generalizing s with
  | nil => rfl
  | cons a rest ih => exact ih (s.act a false)

theorem Session.coversAll_append {first later : List Action} :
    s.CoversAll (first ++ later) ↔ s.CoversAll first ∧ (s.after first).CoversAll later := by
  induction first generalizing s with
  | nil => exact ⟨fun covered => ⟨trivial, covered⟩, And.right⟩
  | cons a rest ih =>
      rw [List.cons_append, Session.CoversAll, Session.CoversAll, ih, and_assoc]
      rfl

theorem Action.mem_passed {v : Value} (mem : v ∈ a.arguments) : v ∈ a.passed := by
  cases a with
  | isLive w => cases mem
  | isParked w => cases mem
  | _ => exact mem

/-- A run of requests. -/
theorem Session.Sound.after (sound : s.Sound) (valid : s.engine.PassesValid requests)
    (covered : s.CoversAll requests) (range : (s.after requests).engine.InRange) :
    (s.after requests).Sound := by
  induction requests generalizing s with
  | nil => exact sound
  | cons a rest ih =>
      obtain ⟨first, later⟩ := valid
      have before : (s.act a false).engine.InRange := by
        rw [Session.after, Session.engine_after] at range
        exact Engine.inRange_of_run range
      have stepped := sound.act (fun v mem => first v (Action.mem_passed mem)) covered.1 before
      exact ih stepped later covered.2 range

end

/-! ### Scripts -/

/-- What a live object refers to has a header. -/
def Engine.Undangling (e : Engine) : Prop :=
  ∀ h o, e.heap.slot h = .live o → ∀ v ∈ o.payload.values, e.isValid v = true

section

variable {s : ScriptState} {host : Session} {log : List (String × Value)} {words : List String}

theorem Engine.Undangling.valid {e : Engine} {h k : Handle} (undangling : e.Undangling)
    (edge : k ∈ e.heap.ownedBy h) : e.isValid (.reference k) = true := by
  obtain ⟨o, slot⟩ := Heap.isLive_iff.1 (Heap.isLive_of_mem_ownedBy edge)
  rw [Heap.ownedBy_of_live slot, ← Multiset.mem_coe, coe_owned, mem_refsOf] at edge
  exact undangling h o slot _ edge

theorem Session.sound_start (limits : Limits) : (Session.start limits).Sound :=
  ⟨∅, Engine.settled_new limits⟩

theorem Session.Sound.undangling (sound : host.Sound) : host.engine.Undangling := by
  obtain ⟨M, hs⟩ := sound
  intro h o slot v mem
  rw [Engine.isValid_iff]
  have found : host.engine.object? (.reference h) = some o := Heap.object?_of_live slot
  exact hs.names_of_mem_values found mem

theorem Session.Sound.unstrayed (sound : host.Sound) :
    host.engine.breaches.strayAccess = false := by
  obtain ⟨M, hs⟩ := sound
  exact hs.blameless.unstrayed

/-- One command. -/
theorem ScriptState.sound_command (sound : host.Sound) (same : host.engine = s.engine)
    (agrees : s.Agrees log) (covered : host.CoversAll (s.actions words))
    (range : (host.after (s.actions words)).engine.InRange) :
    (host.after (s.actions words)).Sound := by
  cases resolved : s.request? words with
  | none =>
      rw [ScriptState.actions, resolved]
      exact sound
  | some request =>
      obtain ⟨command, args, resolution⟩ := ScriptState.resolve_of_request resolved
      have valid := agrees.current.passes command args request resolution
      rw [← same] at valid
      rw [ScriptState.actions, resolved] at covered range ⊢
      exact sound.after valid covered range

/-- All lines of a script. -/
theorem ScriptState.sound_runLines (sound : host.Sound) (same : host.engine = s.engine)
    (agrees : s.Agrees log) (lines : List (List Char))
    (covered : host.CoversAll (s.requests lines))
    (range : (host.after (s.requests lines)).engine.InRange) :
    (host.after (s.requests lines)).Sound := by
  induction lines generalizing s host log with
  | nil => exact sound
  | cons text rest ih =>
      rw [ScriptState.requests, Session.coversAll_append] at covered
      rw [ScriptState.requests, Session.after_append] at range ⊢
      have before : (host.after (s.actions (commandWords text))).engine.InRange := by
        rw [Session.engine_after] at range
        exact Engine.inRange_of_run range
      have first := ScriptState.sound_command sound same agrees covered.1 before
      have engine : (host.after (s.actions (commandWords text))).engine =
          (s.command (commandWords text)).2.engine := by
        rw [Session.engine_after, same, ScriptState.engine_command]
      have unstrayed := first.unstrayed
      rw [engine] at unstrayed
      have next := agrees.command unstrayed
      obtain ⟨-, more⟩ := covered
      rcases step : s.command (commandWords text) with ⟨_ | fault, s'⟩ <;>
        rw [step] at engine next more range
      · exact ih first engine next more range
      · exact first

/-- A script on a new engine with any limits, as long as what it gives back is covered and
no count leaves its range. After any of its lines whatever a live object refers to has a
header, and no header that is gone was ever asked for. -/
theorem ScriptState.undangling_of_covered (limits : Limits) (line : Nat) (lines : List (List Char))
    (covered : (Session.start limits).CoversAll
      (ScriptState.requests { engine := Engine.new limits } lines))
    (range : (ScriptState.runLines { engine := Engine.new limits } line lines).2.engine.InRange) :
    (ScriptState.runLines { engine := Engine.new limits } line lines).2.engine.Undangling ∧
      (ScriptState.runLines { engine := Engine.new limits } line
        lines).2.engine.breaches.strayAccess = false := by
  have engine : ((Session.start limits).after
      (ScriptState.requests { engine := Engine.new limits } lines)).engine =
        (ScriptState.runLines { engine := Engine.new limits } line lines).2.engine := by
    rw [Session.engine_after, ScriptState.engine_runLines]
    rfl
  rw [← engine] at range ⊢
  have sound := ScriptState.sound_runLines (Session.sound_start limits) rfl
    (ScriptState.agrees_new limits) lines covered range
  exact ⟨sound.undangling, sound.unstrayed⟩

/-- A script that claims an object, gives back one reference more than it has, and still
reads the object where it is stored. -/
def claimedAndOverdrawn : List (List Char) :=
  ["object o".toList, "object p".toList, "set o k p".toList, "adopt p".toList, "free p".toList,
    "free p".toList, "free p".toList, "get q o k".toList]

/-- The header of the overdrawn object is still there. -/
theorem undangling_of_covered_claimedAndOverdrawn : ∃ e, e = (ScriptState.runLines
      { engine := Engine.new {} } 1 claimedAndOverdrawn).2.engine ∧
    e.isParked (.reference 1) = true ∧ 1 ∈ e.heap.ownedBy 0 ∧ e.Undangling ∧
      e.breaches.strayAccess = false := by
  have facts : (Session.start {}).CoversAll
        (ScriptState.requests { engine := Engine.new {} } claimedAndOverdrawn) ∧
      (ScriptState.runLines { engine := Engine.new {} } 1 claimedAndOverdrawn).2.engine.InRange ∧
      (ScriptState.runLines { engine := Engine.new {} } 1 claimedAndOverdrawn).2.engine.isParked
        (.reference 1) = true ∧
      1 ∈ (ScriptState.runLines { engine := Engine.new {} } 1
        claimedAndOverdrawn).2.engine.heap.ownedBy 0 := by
    decide +kernel
  obtain ⟨covered, range, parked, stored⟩ := facts
  have safe := ScriptState.undangling_of_covered {} 1 claimedAndOverdrawn covered range
  exact ⟨_, rfl, parked, stored, safe.1, safe.2⟩

/-- A script that stores an object, and then gives back both the reference that it has and
the one that is stored. -/
def freedTwice : List (List Char) :=
  ["object o".toList, "object p".toList, "set o k p".toList, "free p".toList, "free p".toList]

/-- All of its commands are accepted, and what is stored is gone. A command more, on a name
that is good, and the engine comes across it. -/
theorem dangling_freedTwice :
    (ScriptState.runLines { engine := Engine.new {} } 1 freedTwice).1 = none ∧
      ¬ (ScriptState.runLines { engine := Engine.new {} } 1 freedTwice).2.engine.Undangling ∧
      (ScriptState.runLines { engine := Engine.new {} } 1
        (freedTwice ++ ["get q o k".toList])).1 = none ∧
      (ScriptState.runLines { engine := Engine.new {} } 1
        (freedTwice ++ ["get q o k".toList])).2.engine.breaches.strayAccess = true := by
  have facts : ((ScriptState.runLines { engine := Engine.new {} } 1 freedTwice).1 = none ∧
        (ScriptState.runLines { engine := Engine.new {} } 1 freedTwice).2.engine.isValid
          (.reference 1) = false ∧
        1 ∈ (ScriptState.runLines { engine := Engine.new {} } 1
          freedTwice).2.engine.heap.ownedBy 0) ∧
      (ScriptState.runLines { engine := Engine.new {} } 1
        (freedTwice ++ ["get q o k".toList])).1 = none ∧
      (ScriptState.runLines { engine := Engine.new {} } 1
        (freedTwice ++ ["get q o k".toList])).2.engine.breaches.strayAccess = true := by
    decide +kernel
  obtain ⟨⟨accepted, gone, stored⟩, later⟩ := facts
  refine ⟨accepted, fun undangling => ?_, later⟩
  have valid := undangling.valid stored
  rw [gone] at valid
  cases valid

end

end CountedHeap
