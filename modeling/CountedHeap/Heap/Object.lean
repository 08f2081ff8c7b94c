import CountedHeap.Heap.Payload

/-!
Heap objects: a header with a class, a count and the mark of host ownership,
and a payload. The count is a signed 32-bit number. It may fall below zero,
since the host may give back more references than it took, and it wraps around
at the ends of its range.
-/

namespace CountedHeap

/-- A number brought into the signed 32-bit range, around the ends. -/
def wrapCount (n : Int) : Int :=
  n.bmod 0x100000000

/-- Whether a number is a signed 32-bit number. -/
def CountInRange (n : Int) : Prop :=
  -0x80000000 ≤ n ∧ n < 0x80000000

instance (n : Int) : Decidable (CountInRange n) :=
  inferInstanceAs (Decidable (_ ∧ _))

theorem wrapCount_of_inRange {n : Int} (h : CountInRange n) : wrapCount n = n := by
  simp only [CountInRange] at h
  simp only [wrapCount]
  apply Int.bmod_eq_of_le <;> omega

/-- `adopted` says that the host has at least once taken or given back a
reference of its own, `freed` that the object has come to its end and its
payload was released. The other two bits belong to a collection: `marked` says
that the object takes part in it, `reached` that it is to stay. -/
structure Object where
  classId : ClassId
  count : Int
  adopted : Bool := false
  freed : Bool := false
  marked : Bool := false
  reached : Bool := false
  payload : Payload
  deriving DecidableEq, Repr

instance : Inhabited Object := ⟨{ classId := 0, count := 0, payload := .released }⟩

/-- A new object is owned once, by whoever made it. -/
def Object.new (classId : ClassId) (payload : Payload) : Object :=
  { classId := classId, count := 1, payload := payload }

def Object.objectClass (o : Object) : ObjectClass :=
  ObjectClass.ofId o.classId

/-- The bytes charged for the object, header included. -/
def Object.size (o : Object) : Nat :=
  headerSize + o.payload.size

/-- The end of an object: the header stays, without its payload. -/
def Object.release (o : Object) : Object :=
  { o with freed := true, payload := .released }

/-! ### The text of a header -/

/-- The header bits, each with its name and its place. -/
def Object.flags (o : Object) : List (Bool × String × Nat) :=
  [(o.marked, "MARK", 1), (o.reached, "REACHABLE", 2), (o.adopted, "EXTERNAL", 4),
    (o.freed, "FREED", 8)]

/-- The header bits as a number. -/
def Object.flagBits (o : Object) : Nat :=
  ((o.flags.filter (·.1)).map (·.2.2)).foldr (· + ·) 0

/-- The names of the header bits that are set, or a zero. -/
def Object.flagText (o : Object) : String :=
  match (o.flags.filter (·.1)).map (·.2.1) with
  | [] => "0x0"
  | names => " | ".intercalate names

/-- One line about the header. -/
def Object.describe (o : Object) : String :=
  "GcObject \x7b class_id: " ++ toString o.classId.toNat ++ ", ref_count: " ++ toString o.count ++
    ", flags: ObjectFlags(" ++ o.flagText ++ ") \x7d"

end CountedHeap
