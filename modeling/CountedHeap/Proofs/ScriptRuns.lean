import CountedHeap.Script.Run
import CountedHeap.Proofs.ContextLife

/-!
A script as a run of requests. A command that can be resolved asks the engine for one
thing, or for two where it stores a new reference, and the names that its answer binds
are noted. So what a script does to an engine is what the requests of its commands do
one after the other, and the bindings it makes can be listed beside it.
-/

namespace CountedHeap

/-! ### One command -/

/-- What a resolved command asks the engine for, in order. -/
def Request.actions : Request → List Action
  | .openContext _ => [.openContext builtinClassCount]
  | .bind _ action => [action]
  | .store target key v => [.retain v, .store target key v]
  | .act action => [action]
  | .print action => [action]

/-- The name that a resolved command binds and the value, if it is answered with one. -/
def Request.binding (e : Engine) : Request → Option (String × Value)
  | .bind name action =>
    match (e.perform action).1 with
    | .value v => some (name, v)
    | _ => none
  | _ => none

/-- What the words of a command ask for, if they can be resolved. -/
def ScriptState.request? (s : ScriptState) (words : List String) : Option Request :=
  match words with
  | [] => none
  | command :: args => (s.names.resolve command args).toOption

/-- What a command asks the engine for. -/
def ScriptState.actions (s : ScriptState) (words : List String) : List Action :=
  (s.request? words).elim [] Request.actions

/-- What a command binds. -/
def ScriptState.binding (s : ScriptState) (words : List String) : Option (String × Value) :=
  (s.request? words).bind (·.binding s.engine)

/-! ### Scripts -/

/-- All that the lines of a script ask the engine for, up to the first fault. -/
def ScriptState.requests (s : ScriptState) : List (List Char) → List Action
  | [] => []
  | text :: rest =>
    s.actions (commandWords text) ++
      match s.command (commandWords text) with
      | (none, s) => s.requests rest
      | (some _, _) => []

/-- The bindings that the lines of a script make, the latest first. -/
def ScriptState.bindings (s : ScriptState) : List (List Char) → List (String × Value)
  | [] => []
  | text :: rest =>
    (match s.command (commandWords text) with
      | (none, s) => s.bindings rest
      | (some _, _) => []) ++ (s.binding (commandWords text)).toList

section

variable {e : Engine} {s : ScriptState} {words : List String} {a : Action} {request : Request}

theorem ScriptState.snd_perform (s : ScriptState) (a : Action) :
    (s.perform a).2 = { s with engine := (s.engine.perform a).2 } := by
  rw [ScriptState.perform]
  split <;> rename_i step <;> rw [step]

/-- What goes on with the answer does so only where there is one. -/
theorem ScriptState.snd_andThen (s : ScriptState) (a : Action)
    (next : Answer → ScriptState → ScriptState) :
    (∃ r, (s.engine.perform a).1 = .refused r ∧
        (s.andThen a next).2 = { s with engine := (s.engine.perform a).2 }) ∨
      (∀ r, (s.engine.perform a).1 ≠ .refused r) ∧
        (s.andThen a next).2 =
          next (s.engine.perform a).1 { s with engine := (s.engine.perform a).2 } := by
  rw [ScriptState.andThen, ScriptState.perform]
  rcases s.engine.perform a with ⟨answer, e⟩
  cases answer with
  | refused r => exact .inl ⟨r, rfl, rfl⟩
  | _ => exact .inr ⟨fun r same => (by cases same), rfl⟩

theorem ScriptState.engine_andThen {next : Answer → ScriptState → ScriptState}
    (kept : ∀ answer s, (next answer s).engine = s.engine) (a : Action) :
    (s.andThen a next).2.engine = (s.engine.perform a).2 := by
  rcases s.snd_andThen a next with ⟨-, -, result⟩ | ⟨-, result⟩
  · rw [result]
  · rw [result, kept]

theorem ScriptState.names_andThen {next : Answer → ScriptState → ScriptState}
    (kept : ∀ answer s, (next answer s).names.values = s.names.values) (a : Action) :
    (s.andThen a next).2.names.values = s.names.values := by
  rcases s.snd_andThen a next with ⟨-, -, result⟩ | ⟨-, result⟩
  · rw [result]
  · rw [result, kept]

/-- A resolved command runs its requests. -/
theorem ScriptState.engine_carryOut (s : ScriptState) (request : Request) :
    (s.carryOut request).2.engine = (s.engine.run request.actions).2 := by
  cases request with
  | openContext name =>
      refine ScriptState.engine_andThen (fun answer s => ?_) _
      split <;> rfl
  | bind name action =>
      refine ScriptState.engine_andThen (fun answer s => ?_) _
      split <;> rfl
  | store target key v =>
      have first := s.snd_perform (.retain v)
      rw [ScriptState.carryOut]
      split
      rename_i s' step
      rw [step] at first
      subst first
      exact ScriptState.engine_andThen (fun _ _ => rfl) _
  | act action => exact ScriptState.engine_andThen (fun _ _ => rfl) _
  | print action =>
      refine ScriptState.engine_andThen (fun answer s => ?_) _
      rfl

/-- The values that names are bound to with one more binding. -/
def rebind (values : List (String × Binding)) : Option (String × Value) → List (String × Binding)
  | some (name, v) => assign name (.bound v) values
  | none => values

/-- A resolved command binds what it is answered. -/
theorem ScriptState.values_carryOut (s : ScriptState) (request : Request) :
    (s.carryOut request).2.names.values =
      rebind s.names.values (request.binding s.engine) := by
  cases request with
  | openContext name =>
      refine ScriptState.names_andThen (fun answer s => ?_) _
      split <;> rfl
  | bind name action =>
      rw [Request.binding, ScriptState.carryOut]
      rcases s.snd_andThen action _ with ⟨r, refused, result⟩ | ⟨-, result⟩
      · rw [result, refused]
        rfl
      · rw [result]
        cases (s.engine.perform action).1 with
        | value v => rfl
        | _ => rfl
  | store target key v =>
      have first := s.snd_perform (.retain v)
      rw [ScriptState.carryOut]
      split
      rename_i s' step
      rw [step] at first
      subst first
      exact ScriptState.names_andThen (fun _ _ => rfl) _
  | act action => exact ScriptState.names_andThen (fun _ _ => rfl) _
  | print action =>
      refine ScriptState.names_andThen (fun answer s => ?_) _
      rfl

theorem ScriptState.command_of_unresolved (none : s.request? words = none) :
    (s.command words).2 = s := by
  cases words with
  | nil => rfl
  | cons command args =>
      rw [ScriptState.command]
      rcases resolved : s.names.resolve command args with fault | request
      · rfl
      · rw [ScriptState.request?, resolved] at none
        cases none

theorem ScriptState.command_of_resolved (resolved : s.request? words = some request) :
    (s.command words).2 = (s.carryOut request).2.retireNames := by
  cases words with
  | nil => cases resolved
  | cons command args =>
      rw [ScriptState.command]
      rcases outcome : s.names.resolve command args with fault | other <;>
        rw [ScriptState.request?, outcome] at resolved
      · cases resolved
      · cases resolved
        rfl

theorem ScriptState.engine_command (s : ScriptState) (words : List String) :
    (s.command words).2.engine = (s.engine.run (s.actions words)).2 := by
  rw [ScriptState.actions]
  cases resolved : s.request? words with
  | none =>
      rw [ScriptState.command_of_unresolved resolved]
      rfl
  | some request =>
      rw [ScriptState.command_of_resolved resolved]
      exact s.engine_carryOut request

/-- A script runs the requests of its commands. -/
theorem ScriptState.engine_runLines (s : ScriptState) (line : Nat) (lines : List (List Char)) :
    (s.runLines line lines).2.engine = (s.engine.run (s.requests lines)).2 := by
  induction lines generalizing s line with
  | nil => rfl
  | cons text rest ih =>
      have first := s.engine_command (commandWords text)
      rw [ScriptState.runLines, ScriptState.requests]
      rcases step : s.command (commandWords text) with ⟨_ | fault, s'⟩ <;> rw [step] at first
      · dsimp only
        rw [ih, Engine.run_append, ← first]
      · dsimp only
        rw [List.append_nil, ← first]

/-! ### Strayed accesses -/

theorem Engine.strayed_run (strayed : e.breaches.strayAccess = true) (requests : List Action) :
    (e.run requests).2.breaches.strayAccess = true :=
  Engine.run_keep (P := fun e => e.breaches.strayAccess = true)
    (fun _ _ strayed => Engine.strayed_perform strayed) strayed requests

theorem Engine.unstrayed_of_run {requests : List Action}
    (unstrayed : (e.run requests).2.breaches.strayAccess = false) :
    e.breaches.strayAccess = false := by
  rw [← Bool.not_eq_true] at unstrayed ⊢
  exact fun strayed => unstrayed (Engine.strayed_run strayed requests)

end

end CountedHeap
