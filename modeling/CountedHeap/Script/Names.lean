import CountedHeap.Engine.Action

/-!
The names of a script. A name is bound to a value or, once the object that it
was bound to is gone, known as freed; a later binding makes it good again.
Contexts have names of their own, which stay good when the context is closed.
-/

namespace CountedHeap

/-- What a name of a script stands for. -/
inductive Binding
  | bound (v : Value)
  | freed
  deriving DecidableEq, Repr

structure Names where
  values : List (String × Binding) := []
  contexts : List (String × ContextId) := []
  deriving Repr, Inhabited

/-- A list of named entries with `a` under `name`. -/
def assign {α : Type} (name : String) (a : α) (entries : List (String × α)) : List (String × α) :=
  (name, a) :: entries.filter (·.1 != name)

theorem lookup_assign {α : Type} (name other : String) (a : α) (entries : List (String × α)) :
    (assign name a entries).lookup other =
      if other = name then some a else entries.lookup other := by
  simp only [assign, List.lookup_cons]
  by_cases same : other = name
  · simp [same]
  · have differ : (other == name) = false := by simpa using same
    rw [if_neg same, differ]
    induction entries with
    | nil => rfl
    | cons entry rest ih =>
      obtain ⟨key, b⟩ := entry
      by_cases drop : key = name
      · subst drop
        simpa [List.filter_cons, List.lookup_cons, differ] using ih
      · have keep : (key != name) = true := by simpa using drop
        simp only [List.filter_cons, keep, if_true, List.lookup_cons, ih]

def Names.bindValue (ns : Names) (name : String) (v : Value) : Names :=
  { ns with values := assign name (.bound v) ns.values }

def Names.bindContext (ns : Names) (name : String) (c : ContextId) : Names :=
  { ns with contexts := assign name c ns.contexts }

/-- What is left of a binding when some objects may be gone. -/
def Binding.retire (e : Engine) : Binding → Binding
  | .bound v => if e.isValid v then .bound v else .freed
  | .freed => .freed

/-- Notes which names stand for objects that are gone. -/
def Names.retire (ns : Names) (e : Engine) : Names :=
  { ns with values := ns.values.map fun (name, b) => (name, b.retire e) }

end CountedHeap
