import PlanSupervision.Document.Basic
import PlanSupervision.Json.Reader

/-!
Documents on the wire. A document is an object of its kind under `name` and its content
under `doc`; the content is read as soon as its kind is known, and held back until then.
-/

namespace PlanSupervision

open Json

def ExitStatus.names : List (String × ExitStatus) :=
  [ExitStatus.success, .failure, .abort].map fun status => (status.name, status)

def ExitStatus.reader : Reader ExitStatus := Reader.variant names

def ExitStatus.heldBackReader : Reader ExitStatus := Reader.variantOf .nothingHeldBack names

def ExitStatus.toJson (status : ExitStatus) : Json := .text status.name

namespace RunStart

def runUidField : RecordField String := .required "run_uid" .text
def metadataField : RecordField (Table String) := .withDefault "metadata" (.table .text) .empty
def activateCallbacksField : RecordField (Option (List String)) :=
  .optional "activate_callbacks" (.list .text)
def runNameField : RecordField (Option String) := .optional "run_name" .text

def slots : List Slot :=
  [runUidField.slot, metadataField.slot, activateCallbacksField.slot, runNameField.slot]

def reader : Reader RunStart := fun draft => do
  let present ← Record.present slots draft
  let runUid ← Record.get present runUidField
  let metadata ← Record.get present metadataField
  let activateCallbacks ← Record.get present activateCallbacksField
  let runName ← Record.get present runNameField
  return { runUid, metadata, activateCallbacks, runName }

def fields (run : RunStart) : List (String × Option Json) :=
  [("run_uid", some (.text run.runUid)),
   ("metadata", some (.ofTable .text run.metadata)),
   ("activate_callbacks", run.activateCallbacks.map fun names => .array (names.map .text)),
   ("run_name", run.runName.map .text)]

def toJson (run : RunStart) : Json := .ofFields run.fields

end RunStart

namespace Descriptor

def descriptorUidField : RecordField String := .required "descriptor_uid" .text
def runUidField : RecordField String := .required "run_uid" .text
def nameField : RecordField String := .required "name" .text

def slots : List Slot := [descriptorUidField.slot, runUidField.slot, nameField.slot]

def reader : Reader Descriptor := fun draft => do
  let present ← Record.present slots draft
  let descriptorUid ← Record.get present descriptorUidField
  let runUid ← Record.get present runUidField
  let name ← Record.get present nameField
  return { descriptorUid, runUid, name }

def toJson (stream : Descriptor) : Json :=
  .object
    [("descriptor_uid", .text stream.descriptorUid), ("run_uid", .text stream.runUid),
     ("name", .text stream.name)]

end Descriptor

namespace DataEvent

def descriptorUidField : RecordField String := .required "descriptor_uid" .text
def dataField : RecordField (Table Json) := .withDefault "data" (.table .json) .empty

def slots : List Slot := [descriptorUidField.slot, dataField.slot]

def reader : Reader DataEvent := fun draft => do
  let present ← Record.present slots draft
  let descriptorUid ← Record.get present descriptorUidField
  let data ← Record.get present dataField
  return { descriptorUid, data }

def toJson (reading : DataEvent) : Json :=
  .object
    [("descriptor_uid", .text reading.descriptorUid), ("data", .ofTable id reading.data)]

end DataEvent

namespace RunStop

def runStartField : RecordField String := .required "run_start" .text
def exitStatusField (status : Reader ExitStatus) : RecordField ExitStatus :=
  .required "exit_status" status
def reasonField : RecordField (Option String) := .optional "reason" .text

def slots (status : Reader ExitStatus) : List Slot :=
  [runStartField.slot, (exitStatusField status).slot, reasonField.slot]

def readerOf (status : Reader ExitStatus) : Reader RunStop := fun draft => do
  let present ← Record.present (slots status) draft
  let runStart ← Record.get present runStartField
  let exitStatus ← Record.get present (exitStatusField status)
  let reason ← Record.get present reasonField
  return { runStart, exitStatus, reason }

def reader : Reader RunStop := readerOf ExitStatus.reader

def fields (closing : RunStop) : List (String × Option Json) :=
  [("run_start", some (.text closing.runStart)),
   ("exit_status", some closing.exitStatus.toJson),
   ("reason", closing.reason.map .text)]

def toJson (closing : RunStop) : Json := .ofFields closing.fields

end RunStop

def DocumentKind.names : List (String × DocumentKind) :=
  [DocumentKind.start, .descriptor, .event, .stop].map fun kind => (kind.name, kind)

namespace Document

def contentReader (status : Reader ExitStatus) : DocumentKind → Reader Document
  | .start, draft => start <$> RunStart.reader draft
  | .descriptor, draft => descriptor <$> Descriptor.reader draft
  | .event, draft => event <$> DataEvent.reader draft
  | .stop, draft => stop <$> RunStop.readerOf status draft

/-- Content that is read where it stands. -/
def directReader : DocumentKind → Reader Document := contentReader ExitStatus.reader

def heldBackReader : DocumentKind → Reader Document := contentReader ExitStatus.heldBackReader

/-- What the members read so far have given. -/
inductive Reading where
  | nothing
  | tagged (kind : DocumentKind)
  | heldBack (content : Draft)
  | complete (document : Document)

def Reading.readName (reading : Reading) (value : Draft) : Except Fault Reading :=
  match reading with
  | .nothing => return .tagged (← Reader.variant DocumentKind.names value)
  | .heldBack content => do
      let kind ← Reader.variant DocumentKind.names value
      return .complete (← heldBackReader kind content)
  | .tagged _ | .complete _ => .error (.duplicateField "name")

/-- The member `doc`: read at once if the kind is known, else read as a value and held back. -/
def Reading.readContent (reading : Reading) (value : Draft) : Except Fault Reading :=
  match reading with
  | .nothing => do
      let _ ← value.toJson
      return .heldBack value
  | .tagged kind => return .complete (← directReader kind value)
  | .heldBack _ | .complete _ => .error (.duplicateField "doc")

def Reading.readMembers (reading : Reading) :
    List (Option String × Draft) → Except Fault Reading
  | [] => .ok reading
  | (key, value) :: rest => do
      let key ← readKey key
      if key = "name" then (← reading.readName value).readMembers rest
      else if key = "doc" then (← reading.readContent value).readMembers rest
      else
        value.skip
        reading.readMembers rest

def Reading.finish : Reading → Except Fault Document
  | .nothing | .heldBack _ => .error (.missingField "name")
  | .tagged _ => .error (.missingField "doc")
  | .complete document => .ok document

/-- A document as an object of `name` and `doc`, or as the array of both. -/
def reader : Reader Document
  | .object members closed => do
      let reading ← Reading.nothing.readMembers members
      demandClosed closed
      reading.finish
  | .array items closed =>
      match items with
      | [] => do
          demandClosed closed
          .error .wrongLength
      | [kind] => do
          let _ ← Reader.name DocumentKind.names kind
          demandClosed closed
          .error .wrongLength
      | kind :: content :: rest => do
          let kind ← Reader.name DocumentKind.names kind
          let document ← directReader kind content
          demandClosed closed
          if rest.isEmpty then .ok document else .error .wrongLength
  | other => Reader.mismatch other

def content : Document → Json
  | start run => run.toJson
  | descriptor stream => stream.toJson
  | event reading => reading.toJson
  | stop closing => closing.toJson

def toJson (document : Document) : Json :=
  .object [("name", .text document.kind.name), ("doc", document.content)]

end Document

inductive DocumentError where
  | malformed (fault : Fault)
  | emptyField (field : EmptyField)
  | unknownRun (runUid : String)
deriving DecidableEq, Inhabited

namespace DocumentError

def label : DocumentError → String
  | malformed _ => "document_malformed"
  | emptyField _ => "document_empty_field"
  | unknownRun _ => "document_unknown_run"

def message : DocumentError → String
  | malformed fault => "malformed document: " ++ fault.message
  | emptyField ⟨kind, field⟩ => kind.name ++ " document has an empty " ++ Fault.quoteName field
  | unknownRun runUid => "run " ++ runUid ++ " is not open"

end DocumentError

namespace Document

def accept (read : Except Fault Document) : Except DocumentError Document :=
  match read with
  | .error fault => .error (.malformed fault)
  | .ok document =>
      match document.validate with
      | .ok () => .ok document
      | .error field => .error (.emptyField field)

def ofText (source : String) : Except DocumentError Document := accept (readText reader source)

def ofJson (value : Json) : Except DocumentError Document := accept (readJson reader value)

end Document

end PlanSupervision
