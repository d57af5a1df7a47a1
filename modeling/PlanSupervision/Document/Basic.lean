import PlanSupervision.Json.Basic

/-!
Run documents. A run opens with a start, describes its streams of readings, emits the
readings and closes with a stop; runs may nest.
-/

namespace PlanSupervision

inductive DocumentKind where
  | start
  | descriptor
  | event
  | stop
deriving DecidableEq, Inhabited

def DocumentKind.name : DocumentKind → String
  | start => "start"
  | descriptor => "descriptor"
  | event => "event"
  | stop => "stop"

/-- How a run ended. -/
inductive ExitStatus where
  | success
  | failure
  | abort
deriving DecidableEq, Inhabited

def ExitStatus.name : ExitStatus → String
  | success => "success"
  | failure => "failure"
  | abort => "abort"

/-- The opening document of a run. -/
structure RunStart where
  runUid : String
  metadata : Table String
  /-- The handlers that this run activates; without names every gate may adopt it. -/
  activateCallbacks : Option (List String)
  /-- The logical name that a gate's run key is compared with. -/
  runName : Option String
deriving Inhabited

structure Descriptor where
  descriptorUid : String
  runUid : String
  name : String
deriving DecidableEq, Inhabited

structure DataEvent where
  descriptorUid : String
  data : Table Json
deriving Inhabited

/-- The closing document of a run, naming the run that it closes. -/
structure RunStop where
  runStart : String
  exitStatus : ExitStatus
  reason : Option String
deriving DecidableEq, Inhabited

inductive Document where
  | start (content : RunStart)
  | descriptor (content : Descriptor)
  | event (content : DataEvent)
  | stop (content : RunStop)
deriving Inhabited

namespace RunStart

def ofUid (runUid : String) : RunStart := ⟨runUid, .empty, none, none⟩

def withMetadata (run : RunStart) (key value : String) : RunStart :=
  { run with metadata := run.metadata.insert key value }

def withRunName (run : RunStart) (name : String) : RunStart := { run with runName := some name }

def withActivateCallbacks (run : RunStart) (names : List String) : RunStart :=
  { run with activateCallbacks := some names }

def activates (run : RunStart) (handler : String) : Bool :=
  match run.activateCallbacks with
  | some names => names.contains handler
  | none => false

end RunStart

structure EmptyField where
  kind : DocumentKind
  field : String
deriving DecidableEq, Inhabited

namespace Document

def kind : Document → DocumentKind
  | start _ => .start
  | descriptor _ => .descriptor
  | event _ => .event
  | stop _ => .stop

/-- The identifiers that must not be empty, in the order of the check. -/
def identifiers : Document → List (String × String)
  | start run => [("run_uid", run.runUid)]
  | descriptor stream => [("descriptor_uid", stream.descriptorUid), ("run_uid", stream.runUid)]
  | event reading => [("descriptor_uid", reading.descriptorUid)]
  | stop closing => [("run_start", closing.runStart)]

/-- Every identifier is present; otherwise the first empty one is named. -/
def validate (document : Document) : Except EmptyField Unit :=
  match document.identifiers.find? (·.2.isEmpty) with
  | some (field, _) => .error ⟨document.kind, field⟩
  | none => .ok ()

end Document

end PlanSupervision
