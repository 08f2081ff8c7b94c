import CountedHeap.Script.Names

/-!
The commands of a script. A command is a word, followed by the names of what it
works on:

    ctx c                 open a context
    object o [c]          a new object (with the prototype of c, or none)
    array a [c]           a new array
    string s text...      a new string
    set o key v           store a new reference to v in o under key
    get v o key           bind v to a new reference to what o has under key
    dup v, free v         take and give back a reference
    adopt v, release v    the same for the host; release prints the count
    retain c v            register v on c
    inspect v, live v     print the count, print whether the object is live
    gc                    collect, and print how many objects were freed
    ctx-dup c, ctx-free c share and leave a context
    shutdown              shut the engine down and print the report

Before anything is done, a command is resolved: its names are looked up, in
order, and it becomes a request to the engine. The first fault found is the one
that is reported.
-/

namespace CountedHeap

/-- What a command may lack. -/
inductive Missing
  | valueName
  | contextName
  | propertyKey
  deriving DecidableEq, Repr

def Missing.text : Missing → String
  | .valueName => "value name"
  | .contextName => "context name"
  | .propertyKey => "property key"

/-- Why a command fails. -/
inductive Fault
  | unknownCommand (word : String)
  | missingArgument (what : Missing)
  | unknownValue (name : String)
  | unknownContext (name : String)
  | dangling (name : String)
  | refused (r : Refusal)
  deriving DecidableEq, Repr

def Fault.message : Fault → String
  | .unknownCommand word => "unknown command '" ++ word ++ "'"
  | .missingArgument what => "missing " ++ what.text
  | .unknownValue name => "unknown value '" ++ name ++ "'"
  | .unknownContext name => "unknown context '" ++ name ++ "'"
  | .dangling name => "'" ++ name ++ "' was freed"
  | .refused r => r.message

/-- What a resolved command asks for. -/
inductive Request
  /-- Open a context and bind its name. -/
  | openContext (name : String)
  /-- Bind a name to the value that the engine answers. -/
  | bind (name : String) (action : Action)
  /-- Store a new reference to a value. -/
  | store (target : Value) (key : String) (v : Value)
  /-- Act, and print nothing. -/
  | act (action : Action)
  /-- Act, and print the answer. -/
  | print (action : Action)
  deriving Repr

/-! ### Looking up -/

/-- The `n`th word after the command. -/
def argument (args : List String) (n : Nat) (what : Missing) : Except Fault String :=
  match args[n]? with
  | some word => .ok word
  | none => .error (.missingArgument what)

/-- The value that a name is bound to. -/
def Names.value (ns : Names) (name : String) : Except Fault Value :=
  match ns.values.lookup name with
  | some (.bound v) => .ok v
  | some .freed => .error (.dangling name)
  | none => .error (.unknownValue name)

def Names.context (ns : Names) (name : String) : Except Fault ContextId :=
  match ns.contexts.lookup name with
  | some c => .ok c
  | none => .error (.unknownContext name)

/-- The value that the `n`th word names. -/
def Names.valueArgument (ns : Names) (args : List String) (n : Nat) : Except Fault Value := do
  ns.value (← argument args n .valueName)

/-- The context that the `n`th word names. -/
def Names.contextArgument (ns : Names) (args : List String) (n : Nat) :
    Except Fault ContextId := do
  ns.context (← argument args n .contextName)

/-! ### Resolving -/

/-- A new object or array: with the context's prototype if a context is named,
else without one. -/
def Names.resolveNew (ns : Names) (args : List String) (inContext : ContextId → Action)
    (bare : Action) : Except Fault Request := do
  let name ← argument args 0 .valueName
  match args[1]? with
  | some c => return .bind name (inContext (← ns.context c))
  | none => return .bind name bare

/-- The request that a command with its arguments makes. -/
def Names.resolve (ns : Names) (command : String) (args : List String) : Except Fault Request :=
  match command with
  | "ctx" => return .openContext (← argument args 0 .contextName)
  | "ctx-dup" => return .act (.shareContext (← ns.contextArgument args 0))
  | "ctx-free" => return .print (.leaveContext (← ns.contextArgument args 0))
  | "object" => ns.resolveNew args .makeObjectIn (.makePlain Value.null)
  | "array" => ns.resolveNew args .makeArrayIn (.makeArray Value.null #[])
  | "string" => do
    let name ← argument args 0 .valueName
    return .bind name (.makeString (" ".intercalate (args.drop 1)))
  | "set" => do
    let target ← ns.valueArgument args 0
    let key ← argument args 1 .propertyKey
    let v ← ns.valueArgument args 2
    return .store target key v
  | "get" => do
    let name ← argument args 0 .valueName
    let target ← ns.valueArgument args 1
    let key ← argument args 2 .propertyKey
    return .bind name (.fetch target key)
  | "dup" => return .act (.retain (← ns.valueArgument args 0))
  | "free" => return .act (.release (← ns.valueArgument args 0))
  | "adopt" => return .act (.adopt (← ns.valueArgument args 0))
  | "release" => return .print (.relinquish (← ns.valueArgument args 0))
  | "retain" => do
    let c ← ns.contextArgument args 0
    let v ← ns.valueArgument args 1
    return .act (.register c v)
  | "inspect" => return .print (.countOf (← ns.valueArgument args 0))
  | "live" => return .print (.isLive (← ns.valueArgument args 0))
  | "gc" => return .print .collect
  | "shutdown" => return .print .shutdown
  | other => .error (.unknownCommand other)

end CountedHeap
