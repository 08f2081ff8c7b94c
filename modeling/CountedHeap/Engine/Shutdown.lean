import CountedHeap.Engine.Host

/-!
Shutdown. Every open context is closed and everything is collected. What is
left then is held by somebody else; it is reported and taken away all the same,
object by object, without following the references inside. Last, the parked
headers go.
-/

namespace CountedHeap

/-- The ids of the contexts that are not freed. -/
def Engine.openContexts (e : Engine) : List ContextId :=
  (e.contexts.toList.filter Context.isOpen).map (·.id)

/-- What is left of an object at shutdown. -/
def Residual.ofObject (o : Object) : Residual :=
  ⟨o.classId, o.count, o.adopted⟩

/-- The blame for objects that are left goes to the host. -/
def Diagnostic.leftBehind (residual : List Residual) : Diagnostic :=
  ⟨.externalHold, .leftBehind residual.length (residual.countP (·.adopted))⟩

/-- Takes away every object and every parked header that is left. -/
def Engine.clear (e : Engine) : Engine :=
  let e := e.heap.listed.foldl (fun e (h, o) => e.finalize h o) e
  { e with heap := e.heap.clear }

/-- Shuts the engine down, once. Later shutdowns find nothing to report. -/
def Engine.shutdown (e : Engine) : FinalReport × Engine :=
  if e.isClosed then
    ({}, e)
  else
    let closing := e.openContexts
    let e := closing.foldl Engine.tearDown e
    match e.collect with
    | (collected, e) =>
      let residual := e.heap.listed.map fun (_, o) => Residual.ofObject o
      let e := if residual.isEmpty then e else e.record (.leftBehind residual)
      let parked := e.heap.parkedCount
      match e.clear.flushDiagnostics with
      | (diagnostics, e) =>
        ({ contextsClosed := closing.length
           collected := collected
           residual := residual
           parkedReclaimed := parked
           diagnostics := diagnostics },
          { e with isClosed := true })

end CountedHeap
