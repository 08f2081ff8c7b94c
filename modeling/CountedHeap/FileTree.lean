import CountedHeap.Text.Blank

/-!
Files to read scripts from. A file that cannot be read is a fault of the run, and
the run says why, with the number that the system has for the reason. The module
gives the reasons and the rule by which a path is followed to a file. The files
are a tree in memory, so a whole run is a function of its arguments and a tree.

A path is followed name by name, from the root if it begins with a slash and
from the working directory if it does not. The first name that leads nowhere
decides what is reported. No file in a tree is a link to another, so the way up
from a directory is the way by which it was reached.
-/

namespace CountedHeap

/-- Why a file cannot be read. -/
inductive ReadFailure
  | missing
  | forbidden
  | notDirectory
  | isDirectory
  | nameTooLong
  | nulInPath
  | notText
  | other (reason : String)
  deriving DecidableEq, Repr

def ReadFailure.message : ReadFailure → String
  | .missing => "No such file or directory (os error 2)"
  | .forbidden => "Permission denied (os error 13)"
  | .notDirectory => "Not a directory (os error 20)"
  | .isDirectory => "Is a directory (os error 21)"
  | .nameTooLong => "File name too long (os error 36)"
  | .nulInPath => "file name contained an unexpected NUL byte"
  | .notText => "stream did not contain valid UTF-8"
  | .other reason => reason

/-- The failure that the system reports under a number. -/
def ReadFailure.ofNumber? : Nat → Option ReadFailure
  | 2 => some .missing
  | 13 => some .forbidden
  | 20 => some .notDirectory
  | 21 => some .isDirectory
  | 36 => some .nameTooLong
  | _ => none

/-- The text in the bytes of a file. -/
def decodeText (content : ByteArray) : Except ReadFailure String :=
  match String.fromUTF8? content with
  | some text => .ok text
  | none => .error .notText

/-! ### Paths -/

/-- The most bytes that a name in a path may have. -/
def nameLimit : Nat := 255

/-- The most bytes that a path may have. -/
def pathLimit : Nat := 4095

/-- What is wrong with a path, whatever files there are. -/
def pathFault? (path : String) : Option ReadFailure :=
  if path.toList.contains (Char.ofNat 0) then some .nulInPath
  else if path.isEmpty then some .missing
  else if pathLimit < path.utf8ByteSize then some .nameTooLong
  else none

/-- The names between the slashes of a path, empty ones included. -/
def pathNames (path : String) : List String :=
  (piecesAt (· == '/') path.toList).map String.ofList

def isAbsolute (path : String) : Bool :=
  path.toList.head? == some '/'

/-! ### Trees -/

/-- What stands at a place of a tree. -/
inductive FileNode
  | directory
  | file (content : ByteArray)

/-- A place is the names on the way to it from the root, the last one first. -/
abbrev Place := List String

structure FileTree where
  nodes : List (Place × FileNode) := []
  workingDirectory : Place := []

/-- What stands at a place, if anything. The root is always a directory. -/
def FileTree.node? (t : FileTree) : Place → Option FileNode
  | [] => some .directory
  | place => t.nodes.lookup place

/-- Follows one name. An empty name stands for the directory it is followed
from, as a dot does, so a path that ends with a slash leads to a directory. -/
def FileTree.enter (t : FileTree) (place : Place) (name : String) : Except ReadFailure Place :=
  match t.node? place with
  | none => .error .missing
  | some (.file _) => .error .notDirectory
  | some .directory =>
    if name = "" ∨ name = "." then .ok place
    else if name = ".." then .ok place.tail
    else if nameLimit < name.utf8ByteSize then .error .nameTooLong
    else if (t.node? (name :: place)).isSome then .ok (name :: place)
    else .error .missing

/-- Follows a path to its end. -/
def FileTree.follow (t : FileTree) (path : String) : Except ReadFailure Place :=
  (pathNames path).foldlM t.enter (if isAbsolute path then [] else t.workingDirectory)

/-- The text of the file at the end of a path. -/
def FileTree.read (t : FileTree) (path : String) : Except ReadFailure String :=
  match pathFault? path with
  | some failure => .error failure
  | none => do
    match t.node? (← t.follow path) with
    | some (.file content) => decodeText content
    | some .directory => .error .isDirectory
    | none => .error .missing

end CountedHeap
