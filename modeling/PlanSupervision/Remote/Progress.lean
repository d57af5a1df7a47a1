import PlanSupervision.Json.Reader

/-!
What a remote service reports about a delegated task: the progress of the statuses it
waits on, and how it ended.
-/

namespace PlanSupervision

open Json

structure StatusView where
  displayName : String
  current : Double
  initial : Double
  target : Double
deriving DecidableEq, Inhabited

namespace StatusView

def isPending (status : StatusView) : Bool := !status.current.sameValue status.target

def displayNameField : RecordField String := .required "display_name" .text
def currentField : RecordField Double := .required "current" .double
def initialField : RecordField Double := .required "initial" .double
def targetField : RecordField Double := .required "target" .double

def reader : Reader StatusView := fun draft => do
  let present ← Record.present
    [displayNameField.slot, currentField.slot, initialField.slot, targetField.slot] draft
  let displayName ← Record.get present displayNameField
  let current ← Record.get present currentField
  let initial ← Record.get present initialField
  let target ← Record.get present targetField
  return { displayName, current, initial, target }

def toJson (status : StatusView) : Json :=
  .object
    [("display_name", .text status.displayName), ("current", .number (.real status.current)),
     ("initial", .number (.real status.initial)), ("target", .number (.real status.target))]

end StatusView

structure Progress where
  taskId : String
  statuses : Table StatusView
deriving Inhabited

namespace Progress

def taskIdField : RecordField String := .required "task_id" .text
def statusesField : RecordField (Table StatusView) :=
  .withDefault "statuses" (.table StatusView.reader) .empty

def reader : Reader Progress := fun draft => do
  let present ← Record.present [taskIdField.slot, statusesField.slot] draft
  let taskId ← Record.get present taskIdField
  let statuses ← Record.get present statusesField
  return { taskId, statuses }

def status? (progress : Progress) (displayName : String) : Option StatusView :=
  (progress.statuses.entries.map (·.2)).find? fun status => status.displayName == displayName

end Progress

/-- How a delegated task ended. -/
inductive TaskOutcome where
  | success
  | failed (error : String)
  | cancelled
deriving DecidableEq, Inhabited

namespace TaskOutcome

/-- The name of an outcome without its payload. -/
inductive Tag where
  | success
  | failed
  | cancelled
deriving DecidableEq, Inhabited

def Tag.names : List (String × Tag) :=
  [("success", .success), ("failed", .failed), ("cancelled", .cancelled)]

def errorField : RecordField String := .required "error" .text

/-- The members of an object with an outcome's tag taken out; every value must be readable. -/
def readMembers (tag : Option Tag) (others : List (Option String × Draft)) :
    List (Option String × Draft) → Except Fault (Option Tag × List (Option String × Draft))
  | [] => .ok (tag, others.reverse)
  | (key, value) :: rest => do
      let key ← readKey key
      if key = "outcome" then
        if tag.isSome then .error (.duplicateField "outcome")
        else readMembers (some (← Reader.name Tag.names value)) others rest
      else
        let _ ← value.toJson
        readMembers tag ((some key, value) :: others) rest

def readFailed (payload : Draft) : Except Fault TaskOutcome := do
  let present ← Record.present [errorField.slot] payload
  return failed (← Record.get present errorField)

def ofMembers (tag : Tag) (others : List (Option String × Draft)) : Except Fault TaskOutcome :=
  match tag with
  | .success => .ok success
  | .cancelled => .ok cancelled
  | .failed => readFailed (.object others true)

def ofItems (tag : Tag) (items : List Draft) : Except Fault TaskOutcome :=
  match tag with
  | .success => if items.isEmpty then .ok success else .error .wrongLength
  | .cancelled => if items.isEmpty then .ok cancelled else .error .wrongLength
  | .failed => readFailed (.array items true)

/-- An outcome as an object with its tag among the members, or as an array that begins with
the tag. -/
def reader : Reader TaskOutcome
  | .object members closed => do
      let (tag, others) ← readMembers none [] members
      demandClosed closed
      match tag with
      | some tag => ofMembers tag others
      | none => .error (.missingField "outcome")
  | .array [] closed => do
      demandClosed closed
      .error (.missingField "outcome")
  | .array (tag :: items) closed => do
      let tag ← Reader.name Tag.names tag
      let _ ← Draft.toItems items
      demandClosed closed
      ofItems tag items
  | other => Reader.mismatch other

def toJson : TaskOutcome → Json
  | success => .object [("outcome", .text "success")]
  | failed error => .object [("outcome", .text "failed"), ("error", .text error)]
  | cancelled => .object [("outcome", .text "cancelled")]

end TaskOutcome

end PlanSupervision
