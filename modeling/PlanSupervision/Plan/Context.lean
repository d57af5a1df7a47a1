import PlanSupervision.Plan.Basic
import PlanSupervision.Station

/-!
The context that a plan acts through. It remembers the runs that the plan has open; each of
its operations is refused without a trace or hands over exactly one document.
-/

namespace PlanSupervision

/-- What a plan is given to act with. -/
structure PlanContext where
  plan : String
  openRuns : List String
  cancelled : Bool
deriving DecidableEq, Inhabited

/-- A list without the last occurrence of an element, if it occurs. -/
def eraseLast? {Element : Type} [DecidableEq Element] (element : Element) :
    List Element → Option (List Element)
  | [] => none
  | head :: rest =>
      match eraseLast? element rest with
      | some shorter => some (head :: shorter)
      | none => if head = element then some rest else none

namespace PlanContext

/-- A document that an operation hands over, and the context from then on. -/
structure Handover where
  context : PlanContext
  document : Document

def Handover.check (handover : Handover) : Except PlanError Handover :=
  match handover.document.validate with
  | .ok () => .ok handover
  | .error field => .error (.document (.emptyField field))

def openRun (context : PlanContext) (run : RunStart) : Except PlanError Handover :=
  Handover.check ⟨{ context with openRuns := context.openRuns ++ [run.runUid] }, .start run⟩

def describe (context : PlanContext) (descriptorUid runUid name : String) :
    Except PlanError Handover :=
  if runUid ∈ context.openRuns then .ok ⟨context, .descriptor ⟨descriptorUid, runUid, name⟩⟩
  else .error (.document (.unknownRun runUid))

def emitEvent (context : PlanContext) (descriptorUid : String) (data : Table Json) :
    Except PlanError Handover :=
  Handover.check ⟨context, .event ⟨descriptorUid, data⟩⟩

/-- Close an open run, the innermost of its uid. -/
def closeRun (context : PlanContext) (runUid : String) (exitStatus : ExitStatus) :
    Except PlanError Handover :=
  match eraseLast? runUid context.openRuns with
  | none => .error (.document (.unknownRun runUid))
  | some openRuns => .ok ⟨{ context with openRuns }, .stop ⟨runUid, exitStatus, none⟩⟩

/-- What follows from an operation of a context. -/
structure After (Value : Type) where
  context : PlanContext
  station : Station
  result : Except PlanError Value

def faultEvent (plan : String) (fault : DispatchFault) : Event :=
  ((Event.ofKind .listenerFault).withPlan plan).withReason fault.message

/-- Carry out an operation: it is refused without a trace, or hands over its document and
changes the context whatever the observers answer. A fault of theirs is published. -/
def submit {Value : Type} (context : PlanContext) (station : Station) (now : Span)
    (handover : Except PlanError Handover) (value : Value) : After Value :=
  match handover with
  | .error error => ⟨context, station, .error error⟩
  | .ok handover =>
      match station.dispatch now handover.document with
      | (station, .ok ()) => ⟨handover.context, station, .ok value⟩
      | (station, .error fault) =>
          ⟨handover.context, station.publish now (faultEvent context.plan fault),
            .error (.dispatch fault)⟩

/-- What closes every run that is still open, innermost first. -/
def closingStops (context : PlanContext) (exitStatus : ExitStatus) (reason : String) :
    List RunStop :=
  context.openRuns.reverse.map fun runUid => ⟨runUid, exitStatus, some reason⟩

def closingLine (plan : String) (closing : RunStop) (fault : DispatchFault) : LogLine :=
  ⟨.warn, "observer fault while closing run",
    [("plan", plan), ("run_uid", closing.runStart), ("error", fault.message)]⟩

def handClosing (plan : String) (now : Span) (station : Station) (closing : RunStop) : Station :=
  match station.dispatch now (.stop closing) with
  | (station, .ok ()) => station
  | (station, .error fault) => station.write now [.logged (closingLine plan closing fault)]

/-- Close every run that is still open, whatever the observers answer. -/
def closeOpenRuns (context : PlanContext) (station : Station) (now : Span)
    (exitStatus : ExitStatus) (reason : String) : PlanContext × Station :=
  ({ context with openRuns := [] },
    (context.closingStops exitStatus reason).foldl (handClosing context.plan now) station)

def view (context : PlanContext) (station : Station) (now : Span) : PlanView :=
  { watchdog := station.watchdog.status now
    deadline := station.watchdog.deadline
    cancelled := context.cancelled
    openRuns := context.openRuns
    plan := context.plan }

/-- Carry out an action that takes no time. Actions that may take time give nothing here. -/
def act (context : PlanContext) (station : Station) (now : Span) :
    PlanAction → After StepResult
  | .openRun run => context.submit station now (context.openRun run) (.uid run.runUid)
  | .generateRun activateCallbacks =>
      let (runUid, station) := station.makeUid
      context.submit station now
        (context.openRun { RunStart.ofUid runUid with activateCallbacks }) (.uid runUid)
  | .descriptor runUid name =>
      let (descriptorUid, made) := station.makeUid
      let handover := context.describe descriptorUid runUid name
      context.submit (if handover.isOk then made else station) now handover (.uid descriptorUid)
  | .event descriptorUid data =>
      context.submit station now (context.emitEvent descriptorUid data) .done
  | .closeRun runUid status =>
      context.submit station now (context.closeRun runUid status) .done
  | .reset => ⟨context, station.resetWatchdog now, .ok .done⟩
  | .view => ⟨context, station, .ok (.view (context.view station now))⟩
  | .fail message => ⟨context, station, .error (.failed message)⟩
  | .abort reason => ⟨context, station, .error (.aborted reason)⟩
  | .sleep _ =>
      if context.cancelled then
        ⟨context, station, .error (.aborted "cancelled while sleeping")⟩
      else ⟨context, station, .ok .done⟩
  | .wait _ | .checkpoint | .branch _ => ⟨context, station, .ok .done⟩

end PlanContext

end PlanSupervision
