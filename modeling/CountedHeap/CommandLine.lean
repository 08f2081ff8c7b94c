import CountedHeap.FileTree
import CountedHeap.MemoryLimit
import CountedHeap.Script.Run

/-!
The command line: arguments into a configuration, and a configuration into what
the program prints and its exit code.

Options may be written with two dashes and their name, or with one dash and a
letter; several letters may share a dash. The value of an option is joined to
it, with or without an equals sign, or is the next argument, unless that one
starts with a dash itself. Such a value is looked at only when the next option,
a file name or the end of the line asks for it, so an argument that nobody knows
is reported first. After `--` every argument is a file name.
-/

namespace CountedHeap

/-- The options that take a value. -/
inductive ValueOption
  | eval
  | memoryLimit
  | threshold
  deriving DecidableEq, Repr

/-- What an option may be. -/
inductive OptionKind
  | value (o : ValueOption)
  | verbose
  | help
  deriving DecidableEq, Repr

def OptionKind.ofName? (name : String) : Option OptionKind :=
  match name with
  | "eval" => some (.value .eval)
  | "memory-limit" => some (.value .memoryLimit)
  | "gc-threshold" => some (.value .threshold)
  | "verbose" => some .verbose
  | "help" => some .help
  | _ => none

def OptionKind.ofLetter? (letter : Char) : Option OptionKind :=
  match letter with
  | 'e' => some (.value .eval)
  | 'v' => some .verbose
  | 'h' => some .help
  | _ => none

/-- Why a command line is not understood, or that help was asked for. -/
inductive UsageError
  | unknownArgument
  | missingValue
  | invalidValue
  | surplusValue
  | repeated
  | help
  deriving DecidableEq, Repr

/-- The options and the file given so far. `pending` is an option given without
a joined value, with its value once that is there. -/
structure Arguments where
  eval : Option String := none
  memoryLimit : Option String := none
  threshold : Option Nat := none
  verbose : Bool := false
  file : Option String := none
  pending : Option (ValueOption × Option String) := none
  deriving DecidableEq, Repr

/-! ### Single options -/

/-- Gives an option its value, once. -/
def Arguments.setValue (a : Arguments) (o : ValueOption) (text : String) :
    Except UsageError Arguments :=
  match o with
  | .eval => if a.eval.isSome then .error .repeated else .ok { a with eval := some text }
  | .memoryLimit =>
    if a.memoryLimit.isSome then .error .repeated else .ok { a with memoryLimit := some text }
  | .threshold =>
    if a.threshold.isSome then .error .repeated
    else
      match wordNumeral? text.toList with
      | some n => .ok { a with threshold := some n }
      | none => .error .invalidValue

/-- Looks at the pending option. -/
def Arguments.settle (a : Arguments) : Except UsageError Arguments :=
  match a.pending with
  | none => .ok a
  | some (_, none) => .error .missingValue
  | some (o, some text) => { a with pending := none }.setValue o text

/-- An option that takes a value, with the value joined to it if there is one. -/
def Arguments.giveValue (a : Arguments) (o : ValueOption) (joined : Option String) :
    Except UsageError Arguments := do
  let a ← a.settle
  match joined with
  | some text => a.setValue o text
  | none => return { a with pending := some (o, none) }

def Arguments.giveVerbose (a : Arguments) : Except UsageError Arguments := do
  let a ← a.settle
  if a.verbose then .error .repeated else return { a with verbose := true }

def Arguments.giveHelp (a : Arguments) : Except UsageError Arguments := do
  let _ ← a.settle
  .error .help

/-- A name without an option before it that waits for a value. -/
def Arguments.giveFile (a : Arguments) (name : String) : Except UsageError Arguments :=
  if a.file.isSome then .error .unknownArgument
  else do
    let a ← a.settle
    return { a with file := some name }

/-! ### Arguments -/

/-- What follows the two dashes: a name and, after an equals sign, a value. -/
def Arguments.giveLong (a : Arguments) (text : List Char) : Except UsageError Arguments :=
  let name := String.ofList (text.takeWhile (· != '='))
  let joined :=
    match text.dropWhile (· != '=') with
    | _ :: value => some (String.ofList value)
    | [] => none
  match OptionKind.ofName? name, joined with
  | some (.value o), _ => a.giveValue o joined
  | some .verbose, none => a.giveVerbose
  | some .help, none => a.giveHelp
  | some _, some _ => .error .surplusValue
  | none, _ => .error .unknownArgument

/-- The value that follows a letter directly, if there is one. -/
def joinedValue : List Char → Option String
  | [] => none
  | '=' :: value => some (String.ofList value)
  | value => some (String.ofList value)

/-- What follows a single dash: letters, of which one that takes a value takes
all that is left. -/
def Arguments.giveLetters (a : Arguments) : List Char → Except UsageError Arguments
  | [] => .ok a
  | letter :: rest =>
    match OptionKind.ofLetter? letter with
    | some (.value o) => a.giveValue o (joinedValue rest)
    | some .verbose => do (← a.giveVerbose).giveLetters rest
    | some .help => a.giveHelp
    | none => .error .unknownArgument

/-- An argument without dashes: the value that an option waits for, or a file. -/
def Arguments.giveWord (a : Arguments) (word : String) : Except UsageError Arguments :=
  match a.pending with
  | some (o, none) => .ok { a with pending := some (o, some word) }
  | _ => a.giveFile word

def Arguments.give (a : Arguments) (text : String) : Except UsageError Arguments :=
  match text.toList with
  | '-' :: '-' :: rest => a.giveLong rest
  | '-' :: letter :: rest => a.giveLetters (letter :: rest)
  | _ => a.giveWord text

/-- Reads arguments up to `--`, and file names after it. -/
def Arguments.giveAll (a : Arguments) : List String → Except UsageError Arguments
  | [] => a.settle
  | "--" :: files => do (← files.foldlM Arguments.giveFile a).settle
  | text :: rest => do (← a.give text).giveAll rest

def Arguments.parse (args : List String) : Except UsageError Arguments :=
  Arguments.giveAll {} args

/-! ### Configurations -/

/-- Where a script comes from. -/
inductive Source
  | text (script : String)
  | file (path : String)
  deriving DecidableEq, Repr

structure RunConfig where
  limits : Limits
  verbose : Bool
  source : Source
  deriving DecidableEq, Repr

inductive ConfigError
  | memoryLimit (e : MemoryLimitError)
  | missingScript
  | conflictingScripts
  deriving DecidableEq, Repr

def ConfigError.message : ConfigError → String
  | .memoryLimit e => e.message
  | .missingScript => "expecting -e or a scenario file"
  | .conflictingScripts => "-e and a scenario file are exclusive"

/-- The one script that the arguments name. -/
def Arguments.source (a : Arguments) : Except ConfigError Source :=
  match a.eval, a.file with
  | none, none => .error .missingScript
  | some _, some _ => .error .conflictingScripts
  | some script, none => .ok (.text script)
  | none, some path => .ok (.file path)

/-- The memory limit that the arguments set. -/
def Arguments.memory (a : Arguments) : Except ConfigError (Option Nat) :=
  match a.memoryLimit with
  | none => .ok none
  | some text =>
    match CountedHeap.memoryLimit text with
    | .ok bytes => .ok (some bytes)
    | .error e => .error (.memoryLimit e)

def Arguments.config (a : Arguments) : Except ConfigError RunConfig := do
  let memory ← a.memory
  let source ← a.source
  return ⟨⟨memory, a.threshold.getD defaultThreshold⟩, a.verbose, source⟩

/-! ### Running -/

/-- What a program run leaves behind: its exit code, the lines it prints, and its
messages about what went wrong. -/
structure ProgramResult where
  exitCode : UInt8
  output : List String := []
  errors : List String := []
  deriving DecidableEq, Repr

/-- The script of a configuration, read with `read` if it is in a file. A
script given as text may have semicolons for newlines. -/
def Source.script (read : String → Except ReadFailure String) : Source → Except String String
  | .text script => .ok (String.ofList (script.toList.map fun c => if c = ';' then '\n' else c))
  | .file path => (read path).mapError fun failure => path ++ ": " ++ failure.message

/-- Runs the script of a configuration against a new engine. -/
def RunConfig.run (c : RunConfig) (read : String → Except ReadFailure String) : ProgramResult :=
  match c.source.script read with
  | .error message => { exitCode := 1, errors := [message] }
  | .ok script =>
    match (Engine.new c.limits).runScript script with
    | (none, s) => { exitCode := 0, output := s.output.toList }
    | (some error, s) => { exitCode := 1, output := s.output.toList, errors := [error.message] }

/-- Runs the script of a configuration on a system with these files. -/
def RunConfig.runOn (c : RunConfig) (files : FileTree) : ProgramResult :=
  c.run files.read

end CountedHeap
