import CountedHeap.Diagnostic

/-!
The policy of closing. A context that is let go is closed at once, or waits for
those who still share it, or is closed with a word about what was wrong; it is
never refused. What the shutdown of a whole engine found is summed up in a
report.
-/

namespace CountedHeap

/-- Why a context is torn down. -/
inductive ClosingReason
  | release
  | shutdown
  deriving DecidableEq, Repr

/-- What a step of teardown does. -/
inductive Decision
  | proceed
  | defer
  | tolerate (diagnostic : Diagnostic)
  deriving DecidableEq, Repr

/-- Whether teardown runs now. It does so too where an anomaly is tolerated. -/
def Decision.proceeds : Decision → Bool
  | .defer => false
  | _ => true

/-- What becomes of a context that was released down to `count`, or that a
shutdown closes. Only a context that is still shared waits, and a shutdown
waits for none. -/
def Decision.make (context : ContextId) (count : Int) : ClosingReason → Decision
  | .shutdown => .proceed
  | .release =>
    if 0 < count then .defer
    else if count = 0 then .proceed
    else .tolerate ⟨.hostOverRelease, .contextBelowZero context count⟩

/-- An object that was still there when everything was collected. -/
structure Residual where
  classId : ClassId
  count : Int
  adopted : Bool
  deriving DecidableEq, Repr

/-- What a shutdown found and did. -/
structure FinalReport where
  contextsClosed : Nat := 0
  collected : Nat := 0
  residual : List Residual := []
  parkedReclaimed : Nat := 0
  diagnostics : List Diagnostic := []
  deriving DecidableEq, Repr

/-- A clean shutdown leaves nothing behind. -/
def FinalReport.isClean (r : FinalReport) : Bool :=
  r.residual.isEmpty

end CountedHeap
