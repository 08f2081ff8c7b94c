import CountedHeap.CommandLine

/-!
The program: runs one script against a new engine and prints what it observes.
-/

namespace CountedHeap

def usage : String :=
  "usage: [-e SCRIPT | FILE] [--memory-limit BYTES[k|m|g]] [--gc-threshold N] [-v]"

/-- The number under which the system reports a failure. Some of its libraries
report it negated. -/
def systemNumber (code : UInt32) : Nat :=
  if code < 0x80000000 then code.toNat else (-code).toNat

/-- Why a file could not be read. -/
def readFailure (failure : IO.Error) : ReadFailure :=
  let known :=
    match failure with
    | .noFileOrDirectory _ code _ => ReadFailure.ofNumber? (systemNumber code)
    | .permissionDenied _ code _ => ReadFailure.ofNumber? (systemNumber code)
    | .inappropriateType _ code _ => ReadFailure.ofNumber? (systemNumber code)
    | .invalidArgument _ code _ => ReadFailure.ofNumber? (systemNumber code)
    | _ => none
  known.getD (.other (toString failure))

/-- Reads the file of a path. -/
def readFile (path : String) : IO (Except ReadFailure String) := do
  match pathFault? path with
  | some failure => return .error failure
  | none =>
    try
      return decodeText (← IO.FS.readBinFile path)
    catch failure =>
      return .error (readFailure failure)

/-- Reads the files that a configuration needs. -/
def readSource (c : RunConfig) : IO (String → Except ReadFailure String) := do
  match c.source with
  | .text _ => return fun _ => .error .missing
  | .file path =>
    let content ← readFile path
    return fun _ => content

/-- Runs the program with its arguments, and gives its exit code. -/
def runProgram (args : List String) : IO UInt32 := do
  match Arguments.parse args with
  | .error .help =>
    IO.println usage
    return 0
  | .error _ =>
    IO.eprintln usage
    return 2
  | .ok arguments =>
    match arguments.config with
    | .error e =>
      IO.eprintln e.message
      return 2
    | .ok config =>
      let result := config.run (← readSource config)
      result.output.forM fun line => IO.println line
      result.errors.forM fun line => IO.eprintln line
      return result.exitCode.toUInt32

end CountedHeap

def main (args : List String) : IO UInt32 :=
  CountedHeap.runProgram args
