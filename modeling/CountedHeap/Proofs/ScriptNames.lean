import CountedHeap.Proofs.Lifecycle
import CountedHeap.Proofs.ScriptRuns

/-!
Names of a script never go stale. A name stands for the value that it was bound to last,
and is known as freed as soon as that value refers to an object that is gone, whatever
made it go: a command of the script, a collection inside an allocation, the end of a
context or of the whole engine. An object that is gone does not come back, and its
handle is never given out again, so that a name known as freed stays so until it is
bound anew. Hence no command passes an object that is gone, as long as the engine itself
has not come across one.

A binding may be to a value that a property held. Such a value may name an object that
is gone only if the engine has read the header of that object.
-/

namespace CountedHeap

/-! ### What a command passes -/

/-- The values that a request passes, also those of which it only asks whether the object
is there. -/
def Action.passed : Action → List Value
  | .isLive v => [v]
  | .isParked v => [v]
  | a => a.arguments

/-- Whether a request is answered with a value that the host has a new reference on. -/
def Action.brings : Action → Bool
  | .makeObjectIn _ => true
  | .makeArrayIn _ => true
  | .makePlain _ => true
  | .makeArray _ _ => true
  | .makeString _ => true
  | .fetch _ _ => true
  | _ => false

/-- A resolved command that passes such values only, and binds new references only. -/
def Request.Passes (P : Value → Prop) : Request → Prop
  | .openContext _ => True
  | .bind _ action => action.brings = true ∧ ∀ v ∈ action.passed, P v
  | .store target _ v => P target ∧ P v
  | .act action => ∀ v ∈ action.passed, P v
  | .print action => ∀ v ∈ action.passed, P v

section

variable {P : Value → Prop} {ns : Names} {args : List String} {n : Nat} {v : Value}

theorem exists_of_bind {ε α β : Type} {x : Except ε α} {f : α → Except ε β} {b : β}
    (done : x >>= f = .ok b) : ∃ a, x = .ok a ∧ f a = .ok b := by
  cases x with
  | error fault => cases done
  | ok a => exact ⟨a, rfl, done⟩

theorem Names.valueArgument_of_value (good : ∀ name v, ns.value name = .ok v → P v)
    (found : ns.valueArgument args n = .ok v) : P v := by
  obtain ⟨name, -, found⟩ := exists_of_bind found
  exact good name v found

/-- A command that makes an object passes no value, or the missing prototype. -/
theorem Names.passes_resolveNew {inContext : ContextId → Action} {bare : Action}
    {request : Request} (immediate : ∀ w, P (.immediate w))
    (inside : ∀ c, (inContext c).brings = true ∧ (inContext c).passed = [])
    (outside : bare.brings = true ∧ bare.passed = [Value.null])
    (resolved : ns.resolveNew args inContext bare = .ok request) : request.Passes P := by
  obtain ⟨name, -, rest⟩ := exists_of_bind resolved
  split at rest
  · obtain ⟨c, -, rest⟩ := exists_of_bind rest
    cases rest
    refine ⟨(inside c).1, ?_⟩
    rw [(inside c).2]
    exact List.forall_mem_nil _
  · cases rest
    refine ⟨outside.1, ?_⟩
    rw [outside.2]
    exact List.forall_mem_singleton.2 (immediate _)

/-- Every value that a resolved command passes is an immediate or was looked up. -/
theorem Names.passes_resolve {command : String} {request : Request}
    (good : ∀ name v, ns.value name = .ok v → P v) (immediate : ∀ w, P (.immediate w))
    (resolved : ns.resolve command args = .ok request) : request.Passes P := by
  have named {n : Nat} {v : Value} (found : ns.valueArgument args n = .ok v) : P v :=
    Names.valueArgument_of_value good found
  have about {f : Value → Request}
      (resolved : (ns.valueArgument args 0 >>= fun v => pure (f v)) = .ok request)
      (passes : ∀ v, P v → (f v).Passes P) : request.Passes P := by
    obtain ⟨v, found, rest⟩ := exists_of_bind resolved
    cases rest
    exact passes v (named found)
  -- The cases are the commands, in the order in which they are told apart.
  rw [Names.resolve.eq_def] at resolved
  split at resolved
  · obtain ⟨name, -, rest⟩ := exists_of_bind resolved
    cases rest
    trivial
  · obtain ⟨c, -, rest⟩ := exists_of_bind resolved
    cases rest
    exact List.forall_mem_nil _
  · obtain ⟨c, -, rest⟩ := exists_of_bind resolved
    cases rest
    exact List.forall_mem_nil _
  · exact Names.passes_resolveNew immediate (fun c => ⟨rfl, rfl⟩) ⟨rfl, rfl⟩ resolved
  · exact Names.passes_resolveNew immediate (fun c => ⟨rfl, rfl⟩) ⟨rfl, rfl⟩ resolved
  · obtain ⟨name, -, rest⟩ := exists_of_bind resolved
    cases rest
    exact ⟨rfl, List.forall_mem_nil _⟩
  · obtain ⟨target, target_found, rest⟩ := exists_of_bind resolved
    obtain ⟨key, -, rest⟩ := exists_of_bind rest
    obtain ⟨v, v_found, rest⟩ := exists_of_bind rest
    cases rest
    exact ⟨named target_found, named v_found⟩
  · obtain ⟨name, -, rest⟩ := exists_of_bind resolved
    obtain ⟨target, found, rest⟩ := exists_of_bind rest
    obtain ⟨key, -, rest⟩ := exists_of_bind rest
    cases rest
    exact ⟨rfl, List.forall_mem_singleton.2 (named found)⟩
  · exact about resolved fun v holds => List.forall_mem_singleton.2 holds
  · exact about resolved fun v holds => List.forall_mem_singleton.2 holds
  · exact about resolved fun v holds => List.forall_mem_singleton.2 holds
  · exact about resolved fun v holds => List.forall_mem_singleton.2 holds
  · obtain ⟨c, -, rest⟩ := exists_of_bind resolved
    obtain ⟨v, found, rest⟩ := exists_of_bind rest
    cases rest
    exact List.forall_mem_singleton.2 (named found)
  · exact about resolved fun v holds => List.forall_mem_singleton.2 holds
  · exact about resolved fun v holds => List.forall_mem_singleton.2 holds
  · cases resolved
    exact List.forall_mem_nil _
  · cases resolved
    exact List.forall_mem_nil _
  · cases resolved

end

/-! ### Objects that are gone -/

section

variable {e : Engine} {a : Action} {v : Value} {h : Handle} {requests : List Action}

theorem Slot.age_eq_two_iff {s : Slot} : s.age = 2 ↔ s.object? = none := by
  cases s <;> simp [Slot.age, Slot.object?]

theorem Engine.isValid_reference_iff :
    e.isValid (.reference h) = true ↔ ∃ o, e.heap.object? h = some o := by
  rw [Engine.isValid_iff, Engine.names_reference]

/-- An object that is gone does not come back. -/
theorem Engine.isValid_of_run (tidy : e.heap.Tidy) (issued : h < e.heap.slots.size)
    (valid : (e.run requests).2.isValid (.reference h) = true) :
    e.isValid (.reference h) = true := by
  obtain ⟨o, found⟩ := Engine.isValid_reference_iff.1 valid
  have aged := (Engine.ages_run tidy requests).forward h issued
  rw [Engine.isValid_reference_iff, ← Option.isSome_iff_exists, Option.isSome_iff_ne_none]
  intro gone
  have old : (e.heap.slot h).age = 2 := Slot.age_eq_two_iff.2 gone
  have bound : ((e.run requests).2.heap.slot h).age = 2 := by
    have most : ((e.run requests).2.heap.slot h).age ≤ 2 := by
      cases (e.run requests).2.heap.slot h <;> simp [Slot.age]
    omega
  have gone' : (e.run requests).2.heap.object? h = none := Slot.age_eq_two_iff.1 bound
  rw [found] at gone'
  cases gone'

theorem Engine.tidy_run (tidy : e.heap.Tidy) (requests : List Action) :
    (e.run requests).2.heap.Tidy :=
  Engine.run_keep (P := fun e => e.heap.Tidy) (fun _ a tidy => (Engine.ages_perform tidy a).1)
    tidy requests

/-! ### New references -/

/-- A value that a request took a reference on names an object that was there, or the
engine has noted that it did not. -/
theorem Engine.issued_retain (unstrayed : (e.retain (.reference h)).breaches.strayAccess = false) :
    h < (e.retain (.reference h)).heap.slots.size := by
  have added : e.retain (.reference h) = e.addReference h := rfl
  rw [added, Engine.addReference] at unstrayed ⊢
  split at unstrayed
  · rename_i o found
    show h < ((e.checkCount _).heap.update h _).slots.size
    rw [Heap.size_update, Engine.heap_checkCount]
    exact Heap.lt_size_of_object? found
  · cases unstrayed

theorem Engine.issued_allocate {classId : ClassId} {payload : Payload}
    (made : (e.allocate classId payload).1 = .ok (.reference h)) :
    h < (e.allocate classId payload).2.heap.slots.size := by
  rw [Engine.allocate] at made ⊢
  split at made
  · cases made
  · rename_i hopen
    rw [if_neg hopen]
    dsimp only at made ⊢
    generalize (if (e.collectAtThreshold.exceeded? (headerSize + payload.size)).isSome = true then
      e.collectAtThreshold.collect.2 else e.collectAtThreshold) = e₁ at made ⊢
    cases exceeded : e₁.exceeded? (headerSize + payload.size) with
    | some limit =>
        rw [exceeded] at made
        cases made
    | none =>
        rw [exceeded] at made
        cases made
        show e₁.heap.slots.size < (e₁.place classId payload).2.heap.slots.size
        rw [Engine.size_place]
        exact Nat.lt_succ_self _

theorem Engine.issued_makeWithProto {proto : Value} {classId : ClassId}
    (made : (e.makeWithProto proto classId).1 = .ok (.reference h)) :
    h < (e.makeWithProto proto classId).2.heap.slots.size := by
  rw [Engine.makeWithProto] at made ⊢
  split at made
  · exact Engine.issued_allocate made
  · cases made

theorem Engine.issued_makeOfClass {c : ContextId} {classId : ClassId}
    (made : (e.makeOfClass c classId).1 = .ok (.reference h)) :
    h < (e.makeOfClass c classId).2.heap.slots.size := by
  rw [Engine.makeOfClass] at made ⊢
  split at made
  · exact Engine.issued_makeWithProto made
  · cases made

theorem Payload.length?_eq_some {p : Payload} (length : p.length? = some v) :
    ∃ w, v = .immediate w := by
  cases p with
  | array proto items =>
      cases length
      exact ⟨_, rfl⟩
  | _ => cases length

/-- What is read is an immediate, or one more reference on it is taken. -/
theorem Engine.fetch_cases (e : Engine) (target : Value) (key : String) :
    (∃ w, (e.fetch target key).1 = .immediate w) ∨
      ∃ v, e.fetch target key = (v, e.retain v) := by
  rw [Engine.fetch]
  split
  · exact .inl ⟨_, rfl⟩
  · split
    · rename_i length _
      obtain ⟨w, rfl⟩ := Payload.length?_eq_some length
      exact .inl ⟨w, rfl⟩
    · split
      · exact .inr ⟨_, rfl⟩
      · exact .inl ⟨_, rfl⟩

theorem Engine.issued_fetch {key : String} (fetched : (e.fetch v key).1 = .reference h)
    (unstrayed : (e.fetch v key).2.breaches.strayAccess = false) :
    h < (e.fetch v key).2.heap.slots.size := by
  rcases e.fetch_cases v key with ⟨w, read⟩ | ⟨w, taken⟩
  · rw [read] at fetched
    cases fetched
  · rw [taken] at fetched unstrayed ⊢
    obtain rfl : w = .reference h := fetched
    exact Engine.issued_retain unstrayed

/-- A request that brings a reference names an object that was there. -/
theorem Engine.issued_perform (brings : a.brings = true)
    (answer : (e.perform a).1 = .value (.reference h))
    (unstrayed : (e.perform a).2.breaches.strayAccess = false) :
    h < (e.perform a).2.heap.slots.size := by
  obtain ⟨e₁, -, -, result⟩ := e.perform_eq_carryOut a
  rw [result] at answer unstrayed ⊢
  have made {r : Except Refusal Value × Engine}
      (issued : r.1 = .ok (.reference h) → h < r.2.heap.slots.size)
      (answer : (answered .value r).1 = .value (.reference h)) :
      h < (answered .value r).2.heap.slots.size := by
    rcases r with ⟨refusal | v, e⟩
    · cases answer
    · cases answer
      exact issued rfl
  cases a with
  | makeObjectIn c => exact made Engine.issued_makeOfClass answer
  | makeArrayIn c => exact made Engine.issued_makeOfClass answer
  | makePlain proto => exact made Engine.issued_makeWithProto answer
  | makeArray proto items => exact made Engine.issued_allocate answer
  | makeString text => exact made Engine.issued_allocate answer
  | fetch target key =>
      have read : (e₁.fetch target key).1 = .reference h := Answer.value.inj answer
      exact Engine.issued_fetch read unstrayed
  | _ => cases brings

end

/-! ### What a command may pass -/

/-- Requests of which each passes immediates and objects that are live or parked at that
moment. -/
def Engine.PassesValid (e : Engine) : List Action → Prop
  | [] => True
  | a :: rest => (∀ v ∈ a.passed, e.isValid v = true) ∧ (e.perform a).2.PassesValid rest

section

variable {e : Engine} {v w : Value} {request : Request}

theorem Engine.isValid_updateObject {h : Handle} {f : Object → Object} :
    (e.updateObject h f).isValid w = e.isValid w := by
  have parked (k : Handle) : (e.heap.update h f).isParked k = e.heap.isParked k := by
    rw [Heap.isParked, Heap.isParked, Heap.slot_update]
    split
    · exact Slot.isParked_map _
    · rfl
  cases w with
  | immediate w => rfl
  | reference k =>
      simp only [Engine.isValid, Engine.isLive, Engine.isParked, Value.handle?, Option.any_some,
        Engine.heap_updateObject, Heap.isLive_update, parked]

/-- Taking a reference ends no object. -/
theorem Engine.isValid_perform_retain : (e.perform (.retain v)).2.isValid w = e.isValid w := by
  have heap {e e' : Engine} (same : e'.heap = e.heap) : e'.isValid w = e.isValid w := by
    rw [Engine.isValid, Engine.isValid, Engine.isLive, Engine.isLive, Engine.isParked,
      Engine.isParked, same]
  have added (e : Engine) : (e.retain v).isValid w = e.isValid w := by
    rw [Engine.retain]
    split
    · rw [Engine.addReference]
      split
      · rw [Engine.isValid_updateObject]
        exact heap (e.heap_checkCount _)
      · rfl
    · rfl
  obtain ⟨e₁, -, same, result⟩ := e.perform_eq_carryOut (.retain v)
  rw [result]
  exact (added e₁).trans (heap same)

theorem Request.Passes.valid (passes : request.Passes fun v => e.isValid v = true) :
    e.PassesValid request.actions := by
  cases request with
  | openContext name => exact ⟨List.forall_mem_nil _, trivial⟩
  | bind name action => exact ⟨passes.2, trivial⟩
  | store target key v =>
      obtain ⟨there, given⟩ := passes
      have both : ∀ w ∈ [target, v], e.isValid w = true :=
        List.forall_mem_cons.2 ⟨there, List.forall_mem_singleton.2 given⟩
      refine ⟨fun w mem => both w (List.mem_cons_of_mem _ mem), fun w mem => ?_, trivial⟩
      rw [Engine.isValid_perform_retain]
      exact both w mem
  | act action => exact ⟨passes, trivial⟩
  | print action => exact ⟨passes, trivial⟩

end

/-! ### Names and what they were bound to -/

section

variable {e e' : Engine} {s : ScriptState} {log : List (String × Value)} {name : String} {v : Value}
  {words : List String} {request : Request}

theorem lookup_retire (values : List (String × Binding)) :
    (values.map fun (name, b) => (name, b.retire e)).lookup name =
      (values.lookup name).map (Binding.retire e) := by
  induction values with
  | nil => rfl
  | cons entry rest ih =>
      obtain ⟨key, b⟩ := entry
      rw [List.map_cons, List.lookup_cons, List.lookup_cons]
      split
      · rfl
      · exact ih

theorem nodup_assign {α : Type} {a : α} {entries : List (String × α)}
    (nodup : (entries.map (·.1)).Nodup) : ((assign name a entries).map (·.1)).Nodup := by
  rw [assign, List.map_cons, List.nodup_cons]
  constructor
  · intro mem
    obtain ⟨entry, kept, same⟩ := List.mem_map.1 mem
    have differs := (List.mem_filter.1 kept).2
    rw [same, bne_self_eq_false] at differs
    cases differs
  · exact nodup.sublist (List.filter_sublist.map _)

theorem mem_of_lookup {α : Type} {a : α} {entries : List (String × α)}
    (found : entries.lookup name = some a) : (name, a) ∈ entries := by
  obtain ⟨before, after, rfl, -⟩ := List.lookup_eq_some_iff.1 found
  exact List.mem_append_right before List.mem_cons_self

/-- The names of a script agree with what was bound to them, the latest first: a name
stands for its last value, or is known as freed if that names an object that is gone. -/
structure ScriptState.Agrees (s : ScriptState) (log : List (String × Value)) : Prop where
  tidy : s.engine.heap.Tidy
  nodup : (s.names.values.map (·.1)).Nodup
  lookup : ∀ name, s.names.values.lookup name =
    (log.lookup name).map fun v => (Binding.bound v).retire s.engine
  issued : ∀ name h, (name, Value.reference h) ∈ log → h < s.engine.heap.slots.size

theorem ScriptState.agrees_new (limits : Limits) :
    ScriptState.Agrees { engine := Engine.new limits } [] :=
  ⟨fun _ => trivial, List.nodup_nil, fun _ => rfl, fun _ _ mem => absurd mem List.not_mem_nil⟩

/-- A binding may be looked at before and after, or after only. -/
theorem Binding.retire_retire (lost : e.isValid v = false → e'.isValid v = false) :
    ((Binding.bound v).retire e).retire e' = (Binding.bound v).retire e' := by
  by_cases valid : e.isValid v = true
  · rw [Binding.retire, if_pos valid]
  · rw [Bool.not_eq_true] at valid
    rw [Binding.retire, valid, Binding.retire, lost valid]
    rfl

theorem ScriptState.resolve_of_request (resolved : s.request? words = some request) :
    ∃ command args, s.names.resolve command args = .ok request := by
  cases words with
  | nil => cases resolved
  | cons command args =>
      refine ⟨command, args, ?_⟩
      rw [ScriptState.request?] at resolved
      cases outcome : s.names.resolve command args with
      | error fault =>
          rw [outcome] at resolved
          cases resolved
      | ok other =>
          rw [outcome] at resolved
          cases resolved
          rfl

/-- A value that is bound is an immediate, or names an object that was there. -/
theorem ScriptState.issued_binding (resolved : s.request? words = some request) {h : Handle}
    (bound : request.binding s.engine = some (name, .reference h))
    (unstrayed : (s.engine.run request.actions).2.breaches.strayAccess = false) :
    h < (s.engine.run request.actions).2.heap.slots.size := by
  obtain ⟨command, args, resolution⟩ := ScriptState.resolve_of_request resolved
  have passes : request.Passes fun _ => True :=
    Names.passes_resolve (fun _ _ _ => trivial) (fun _ => trivial) resolution
  cases request with
  | bind other action =>
      rw [Request.binding] at bound
      split at bound
      · rename_i answer
        cases bound
        exact Engine.issued_perform passes.1 answer unstrayed
      · cases bound
  | _ => cases bound

/-- What names stand for after one more binding, when some objects may be gone. -/
theorem ScriptState.Agrees.rebound (agrees : s.Agrees log)
    (lost : ∀ h, h < s.engine.heap.slots.size → s.engine.isValid (.reference h) = false →
      e'.isValid (.reference h) = false) (binding : Option (String × Value)) (name : String) :
    ((rebind s.names.values binding).map fun (name, b) => (name, b.retire e')).lookup name =
      ((binding.toList ++ log).lookup name).map fun v => (Binding.bound v).retire e' := by
  have old : (s.names.values.lookup name).map (Binding.retire e') =
      (log.lookup name).map fun v => (Binding.bound v).retire e' := by
    rw [agrees.lookup, Option.map_map]
    cases found : log.lookup name with
    | none => rfl
    | some v =>
        refine congrArg some (Binding.retire_retire fun gone => ?_)
        cases v with
        | immediate w => cases gone
        | reference h => exact lost h (agrees.issued name h (mem_of_lookup found)) gone
  rw [lookup_retire]
  cases binding with
  | none => exact old
  | some entry =>
      obtain ⟨key, v⟩ := entry
      rw [rebind, lookup_assign, Option.toList_some, List.singleton_append, List.lookup_cons]
      by_cases same : name = key
      · rw [if_pos same, beq_iff_eq.2 same]
        rfl
      · rw [if_neg same, beq_eq_false_iff_ne.2 same]
        exact old

theorem nodup_rebind {values : List (String × Binding)} (nodup : (values.map (·.1)).Nodup)
    (binding : Option (String × Value)) : ((rebind values binding).map (·.1)).Nodup := by
  cases binding with
  | none => exact nodup
  | some entry => exact nodup_assign nodup

/-- One command. -/
theorem ScriptState.Agrees.command (agrees : s.Agrees log)
    (unstrayed : (s.command words).2.engine.breaches.strayAccess = false) :
    (s.command words).2.Agrees ((s.binding words).toList ++ log) := by
  cases resolved : s.request? words with
  | none =>
      rw [ScriptState.command_of_unresolved resolved, ScriptState.binding, resolved]
      exact agrees
  | some request =>
      rw [ScriptState.command_of_resolved resolved] at unstrayed ⊢
      have engine : (s.carryOut request).2.retireNames.engine =
        (s.engine.run request.actions).2 := s.engine_carryOut request
      have values : (s.carryOut request).2.retireNames.names.values =
          (rebind s.names.values (request.binding s.engine)).map
            fun (name, b) => (name, b.retire (s.engine.run request.actions).2) := by
        rw [← s.values_carryOut request, ← s.engine_carryOut request]
        rfl
      have bound : s.binding words = request.binding s.engine := by
        rw [ScriptState.binding, resolved, Option.bind_some]
      rw [engine] at unstrayed
      have aged := Engine.ages_run agrees.tidy request.actions
      refine ⟨?_, ?_, fun name => ?_, fun name h mem => ?_⟩
      · rw [engine]
        exact Engine.tidy_run agrees.tidy _
      · rw [values, List.map_map]
        exact nodup_rebind agrees.nodup _
      · rw [values, engine, bound]
        refine agrees.rebound (fun h issued gone => ?_) _ name
        rw [← Bool.not_eq_true] at gone ⊢
        exact fun valid => gone (Engine.isValid_of_run agrees.tidy issued valid)
      · rw [engine]
        rw [bound] at mem
        rcases List.mem_append.1 mem with new | old
        · exact ScriptState.issued_binding resolved (Option.mem_toList.1 new) unstrayed
        · exact (agrees.issued name h old).trans_le aged.size

/-- All lines of a script. -/
theorem ScriptState.Agrees.runLines (agrees : s.Agrees log) (line : Nat)
    (lines : List (List Char))
    (unstrayed : (s.runLines line lines).2.engine.breaches.strayAccess = false) :
    (s.runLines line lines).2.Agrees (s.bindings lines ++ log) := by
  induction lines generalizing s log line with
  | nil => exact agrees
  | cons text rest ih =>
      have first : (s.command (commandWords text)).2.engine.breaches.strayAccess = false → _ :=
        agrees.command
      rw [ScriptState.runLines] at unstrayed ⊢
      rw [ScriptState.bindings]
      rcases step : s.command (commandWords text) with ⟨_ | fault, s'⟩ <;>
        rw [step] at first unstrayed
      · dsimp only at first unstrayed ⊢
        rw [List.append_assoc]
        refine ih (first ?_) (line + 1) unstrayed
        rw [ScriptState.engine_runLines] at unstrayed
        exact Engine.unstrayed_of_run unstrayed
      · exact first unstrayed

end

/-! ### What a name stands for -/

/-- The names that stand for a value. -/
def Names.bound (ns : Names) : List String :=
  ns.values.filterMap fun (name, b) =>
    match b with
    | .bound _ => some name
    | .freed => none

/-- The names whose object is known to be gone. -/
def Names.freed (ns : Names) : List String :=
  ns.values.filterMap fun (name, b) =>
    match b with
    | .bound _ => none
    | .freed => some name

/-- The names of a script under way, when the bindings that were made are in `log`, the
latest first. -/
structure ScriptState.Current (s : ScriptState) (log : List (String × Value)) : Prop where
  disjoint : ∀ name ∈ s.names.bound, name ∉ s.names.freed
  unknown : ∀ name, s.names.value name = .error (.unknownValue name) ↔ ∀ v, (name, v) ∉ log
  dangling : ∀ name, s.names.value name = .error (.dangling name) ↔
    ∃ h, log.lookup name = some (.reference h) ∧ s.engine.isLive (.reference h) = false ∧
      s.engine.isParked (.reference h) = false
  latest : ∀ name v, s.names.value name = .ok v ↔
    log.lookup name = some v ∧ s.engine.isValid v = true
  passes : ∀ command args request, s.names.resolve command args = .ok request →
    s.engine.PassesValid request.actions

section

variable {e : Engine} {s : ScriptState} {log : List (String × Value)} {name : String}
  {v : Value} {b : Binding}

theorem lookup_of_nodup {entries : List (String × Binding)} (nodup : (entries.map (·.1)).Nodup)
    (mem : (name, b) ∈ entries) : entries.lookup name = some b := by
  obtain ⟨before, after, rfl⟩ := List.append_of_mem mem
  refine List.lookup_eq_some_iff.2 ⟨before, after, rfl, fun entry earlier => ?_⟩
  rw [List.map_append, List.map_cons] at nodup
  have apart := (List.nodup_append.1 nodup).2.2 _ (List.mem_map_of_mem earlier) name
    List.mem_cons_self
  exact bne_iff_ne.2 apart.symm

theorem Names.disjoint_of_nodup {ns : Names} (nodup : (ns.values.map (·.1)).Nodup) :
    ∀ name ∈ ns.bound, name ∉ ns.freed := by
  intro name bound freed
  obtain ⟨⟨_, b⟩, mem, here⟩ := List.mem_filterMap.1 bound
  obtain ⟨⟨_, b'⟩, mem', here'⟩ := List.mem_filterMap.1 freed
  cases b with
  | freed => cases here
  | bound v =>
      cases b' with
      | bound v' => cases here'
      | freed =>
          cases here
          cases here'
          have first := lookup_of_nodup nodup mem
          rw [lookup_of_nodup nodup mem'] at first
          cases first

theorem lookup_eq_none {α : Type} {entries : List (String × α)} :
    entries.lookup name = none ↔ ∀ a, (name, a) ∉ entries := by
  rw [List.lookup_eq_none_iff]
  constructor
  · intro differ a mem
    exact bne_iff_ne.1 (differ _ mem) rfl
  · intro absent entry mem
    rw [bne_iff_ne]
    rintro rfl
    exact absent entry.2 mem

/-- What looking a name up gives, by the last value that it was bound to. -/
theorem ScriptState.Agrees.value_eq (agrees : s.Agrees log) (name : String) :
    s.names.value name =
      match log.lookup name with
      | some v => if s.engine.isValid v then .ok v else .error (.dangling name)
      | none => .error (.unknownValue name) := by
  rw [Names.value, agrees.lookup]
  cases log.lookup name with
  | none => rfl
  | some v =>
      rw [Option.map_some, Binding.retire]
      by_cases valid : s.engine.isValid v = true
      · simp only [if_pos valid]
      · simp only [if_neg valid]

/-- Only a reference can be to something that is gone. -/
theorem Engine.isValid_eq_false_iff : e.isValid v = false ↔
    ∃ h, v = .reference h ∧ e.isLive (.reference h) = false ∧
      e.isParked (.reference h) = false := by
  cases v with
  | immediate w =>
      constructor
      · intro gone
        cases gone
      · rintro ⟨h, same, -⟩
        cases same
  | reference h =>
      have valid : e.isValid (.reference h) =
          (e.isLive (.reference h) || e.isParked (.reference h)) := rfl
      rw [valid, Bool.or_eq_false_iff]
      constructor
      · rintro ⟨dead, unparked⟩
        exact ⟨h, rfl, dead, unparked⟩
      · rintro ⟨k, same, dead, unparked⟩
        cases same
        exact ⟨dead, unparked⟩

theorem ScriptState.Agrees.current (agrees : s.Agrees log) : s.Current log where
  disjoint := Names.disjoint_of_nodup agrees.nodup
  unknown := by
    intro name
    rw [agrees.value_eq, ← lookup_eq_none]
    cases log.lookup name with
    | none => simp
    | some v =>
        by_cases valid : s.engine.isValid v = true
        · simp [valid]
        · simp [valid]
  dangling := by
    intro name
    rw [agrees.value_eq]
    cases log.lookup name with
    | none => simp
    | some v =>
        simp only [Option.some_inj]
        rw [← Engine.isValid_eq_false_iff]
        by_cases valid : s.engine.isValid v = true
        · simp [valid]
        · simp [valid]
  latest := by
    intro name v
    rw [agrees.value_eq]
    cases log.lookup name with
    | none => simp
    | some w =>
        by_cases valid : s.engine.isValid w = true
        · simp only [if_pos valid, Except.ok.injEq, Option.some_inj]
          exact ⟨fun same => ⟨same, same ▸ valid⟩, And.left⟩
        · simp only [if_neg valid, Option.some_inj]
          exact ⟨fun same => (by cases same), fun both => absurd (both.1 ▸ both.2) valid⟩
  passes := by
    intro command args request resolved
    refine Request.Passes.valid (Names.passes_resolve (fun name v found => ?_) ?_ resolved)
    swap
    · exact fun _ => rfl
    rw [agrees.value_eq] at found
    split at found
    · rename_i w bound
      split at found
      · cases found
        assumption
      · cases found
    · cases found

/-- The names of a script after any of its lines, on a new engine with any limits. A name
is unknown if it was never bound, known as freed if the object that it was bound to last
is neither live nor parked, and stands for its last value otherwise. So whatever the next
command passes is there, unless the engine has come across an object that is gone. -/
theorem ScriptState.names_current (limits : Limits) (line : Nat) (lines : List (List Char))
    (unstrayed : (ScriptState.runLines { engine := Engine.new limits } line
      lines).2.engine.breaches.strayAccess = false) :
    (ScriptState.runLines { engine := Engine.new limits } line lines).2.Current
      (ScriptState.bindings { engine := Engine.new limits } lines) := by
  have agrees := (ScriptState.agrees_new limits).runLines line lines unstrayed
  rw [List.append_nil] at agrees
  exact agrees.current

/-- A script whose second object goes with the first, and whose third is bound to a name
that is known as freed. -/
def namesLost : List (List Char) :=
  ["object o".toList, "object p".toList, "set o k p".toList, "free p".toList, "free o".toList,
    "string o text".toList]

/-- The first name stands for its new object, and the second is known as freed. -/
theorem names_current_namesLost : ∃ s, s = (ScriptState.runLines { engine := Engine.new {} } 1
      namesLost).2 ∧
    s.names.value "o" = .ok (.reference 2) ∧ s.names.value "p" = .error (.dangling "p") ∧
      s.names.value "q" = .error (.unknownValue "q") ∧
      s.Current [("o", .reference 2), ("p", .reference 1), ("o", .reference 0)] := by
  have facts : (ScriptState.runLines { engine := Engine.new {} } 1
      namesLost).2.engine.breaches.strayAccess = false ∧
      (ScriptState.bindings { engine := Engine.new {} } namesLost) =
        [("o", .reference 2), ("p", .reference 1), ("o", .reference 0)] ∧
      (ScriptState.runLines { engine := Engine.new {} } 1 namesLost).2.engine.isValid
        (.reference 2) = true ∧
      (ScriptState.runLines { engine := Engine.new {} } 1 namesLost).2.engine.isLive
        (.reference 1) = false ∧
      (ScriptState.runLines { engine := Engine.new {} } 1 namesLost).2.engine.isParked
        (.reference 1) = false := by
    decide +kernel
  obtain ⟨unstrayed, log, valid, dead, unparked⟩ := facts
  have current := ScriptState.names_current {} 1 namesLost unstrayed
  rw [log] at current
  refine ⟨_, rfl, (current.latest "o" _).2 ⟨rfl, valid⟩,
    (current.dangling "p").2 ⟨1, rfl, dead, unparked⟩, (current.unknown "q").2 ?_, current⟩
  simp

end

end CountedHeap
