import CountedHeap.Script.Request
import CountedHeap.Text.Blank

/-!
Running a script. Each line holds one command; `#` starts a comment. A script
stops at its first fault. At the end the engine is shut down, unless the script
did that itself, and what the shutdown found is printed.
-/

namespace CountedHeap

/-! ### Printing -/

/-- One line about what became of a context. -/
def Decision.text : Decision → String
  | .proceed => "proceed"
  | .defer => "defer"
  | .tolerate d => "tolerate: " ++ d.message

/-- A shutdown in one line, and one more for each diagnostic. -/
def FinalReport.lines (r : FinalReport) : List String :=
  ("shutdown: " ++ toString r.contextsClosed ++ " contexts closed, " ++ toString r.collected ++
    " collected, " ++ toString r.residual.length ++ " residual, " ++ toString r.parkedReclaimed ++
    " parked reclaimed") ::
  r.diagnostics.map fun d => "  " ++ d.report

/-- The lines that a script prints for an answer. -/
def Answer.lines : Answer → List String
  | .decision d => [d.text]
  | .count n => [toString n]
  | .freed n => [toString n]
  | .flag b => [if b then "true" else "false"]
  | .report r => r.lines
  | _ => []

/-! ### Commands -/

/-- A script under way: the engine, the names so far, the lines printed. -/
structure ScriptState where
  engine : Engine
  names : Names := {}
  output : Array String := #[]
  deriving Repr

/-- Has an action performed. A refusal is the fault of the command. -/
def ScriptState.perform (s : ScriptState) (a : Action) : Except Fault Answer × ScriptState :=
  match s.engine.perform a with
  | (.refused r, e) => (.error (.refused r), { s with engine := e })
  | (answer, e) => (.ok answer, { s with engine := e })

/-- Has an action performed and goes on with the answer. -/
def ScriptState.andThen (s : ScriptState) (a : Action) (next : Answer → ScriptState → ScriptState) :
    Option Fault × ScriptState :=
  match s.perform a with
  | (.ok answer, s) => (none, next answer s)
  | (.error fault, s) => (some fault, s)

/-- Does what a command asks for. -/
def ScriptState.carryOut (s : ScriptState) : Request → Option Fault × ScriptState
  | .openContext name =>
    s.andThen (.openContext builtinClassCount) fun answer s =>
      match answer with
      | .contextId c => { s with names := s.names.bindContext name c }
      | _ => s
  | .bind name action =>
    s.andThen action fun answer s =>
      match answer with
      | .value v => { s with names := s.names.bindValue name v }
      | _ => s
  | .store target key v =>
    match s.perform (.retain v) with
    | (_, s) => s.andThen (.store target key v) fun _ s => s
  | .act action => s.andThen action fun _ s => s
  | .print action =>
    s.andThen action fun answer s => { s with output := s.output ++ answer.lines.toArray }

/-- Notes which names have lost their object. -/
def ScriptState.retireNames (s : ScriptState) : ScriptState :=
  { s with names := s.names.retire s.engine }

/-- Runs one command. -/
def ScriptState.command (s : ScriptState) (words : List String) : Option Fault × ScriptState :=
  match words with
  | [] => (none, s)
  | command :: args =>
    match s.names.resolve command args with
    | .error fault => (some fault, s)
    | .ok request => (s.carryOut request).map id ScriptState.retireNames

/-- The words of a line, without its comment. -/
def commandWords (line : List Char) : List String :=
  (wordsOf (line.takeWhile (· != '#'))).map String.ofList

/-! ### Scripts -/

/-- A fault and the number of its line. -/
structure ScriptError where
  line : Nat
  fault : Fault
  deriving DecidableEq, Repr

def ScriptError.message (e : ScriptError) : String :=
  "line " ++ toString e.line ++ ": " ++ e.fault.message

/-- Runs the lines of a script up to the first fault. The first of them has the
number `line`. -/
def ScriptState.runLines (s : ScriptState) (line : Nat) :
    List (List Char) → Option ScriptError × ScriptState
  | [] => (none, s)
  | text :: rest =>
    match s.command (commandWords text) with
    | (some fault, s) => (some ⟨line, fault⟩, s)
    | (none, s) => s.runLines (line + 1) rest

/-- Shuts the engine down and prints the report, if that is still to be done. -/
def ScriptState.finish (s : ScriptState) : ScriptState :=
  if s.engine.isClosed then s else (s.carryOut (.print .shutdown)).2

/-- Runs a script to its end or to its first fault. -/
def Engine.runScript (e : Engine) (source : String) : Option ScriptError × ScriptState :=
  match ScriptState.runLines { engine := e } 1 (linesOf source.toList) with
  | (some error, s) => (some error, s)
  | (none, s) => (none, s.finish)

end CountedHeap
