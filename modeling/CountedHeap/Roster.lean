/-!
Rosters: lists of distinct numbered nodes in the order in which they joined. A
node is numbered when it first joins; it may leave from any place and join
again at the end under its old number.
-/

namespace CountedHeap

/-- Nodes with their contents, in order, and the number of the next new node. -/
structure Roster (α : Type) where
  members : List (Nat × α) := []
  nextNode : Nat := 0
  deriving Repr

variable {α : Type}

/-- The contents in order. -/
def Roster.toList (r : Roster α) : List α :=
  r.members.map (·.2)

/-- The nodes in order. -/
def Roster.nodes (r : Roster α) : List Nat :=
  r.members.map (·.1)

def Roster.size (r : Roster α) : Nat :=
  r.members.length

def Roster.isEmpty (r : Roster α) : Bool :=
  r.members.isEmpty

def Roster.contains (r : Roster α) (node : Nat) : Bool :=
  r.nodes.contains node

/-- A new node at the end. -/
def Roster.pushBack (r : Roster α) (a : α) : Nat × Roster α :=
  (r.nextNode, ⟨r.members ++ [(r.nextNode, a)], r.nextNode + 1⟩)

/-- A node that left joins again at the end. -/
def Roster.relink (r : Roster α) (node : Nat) (a : α) : Roster α :=
  { r with members := r.members ++ [(node, a)] }

/-- Takes a node out, whatever its place. -/
def Roster.unlink? (r : Roster α) (node : Nat) : Option (α × Roster α) :=
  match r.members.lookup node with
  | some a => some (a, { r with members := r.members.eraseP (·.1 == node) })
  | none => none

/-- Takes the first node out. -/
def Roster.popFront? (r : Roster α) : Option (α × Roster α) :=
  match r.members with
  | (_, a) :: rest => some (a, { r with members := rest })
  | [] => none

end CountedHeap
