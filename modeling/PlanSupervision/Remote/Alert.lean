import PlanSupervision.Json.Reader
import PlanSupervision.Span

/-!
Operator alerts. Every alert carries the tags that could be read from the parameters of
the delegated task: all three of them, or none.
-/

namespace PlanSupervision

open Json

inductive MetadataKey where
  | sampleId
  | visit
  | container
deriving DecidableEq, Inhabited

namespace MetadataKey

def name : MetadataKey → String
  | sampleId => "sample_id"
  | visit => "visit"
  | container => "container"

def all : List MetadataKey := [sampleId, visit, container]

def names : List (String × MetadataKey) := all.map fun key => (key.name, key)

def reader : Reader MetadataKey := Reader.variant names

def toJson (key : MetadataKey) : Json := .text key.name

end MetadataKey

/-- The tags of an alert, each key at most once. -/
structure AlertMetadata where
  sampleId : Option String
  visit : Option String
  container : Option String
deriving DecidableEq, Inhabited

namespace AlertMetadata

def empty : AlertMetadata := ⟨none, none, none⟩

def get? (metadata : AlertMetadata) : MetadataKey → Option String
  | .sampleId => metadata.sampleId
  | .visit => metadata.visit
  | .container => metadata.container

def insert (metadata : AlertMetadata) (key : MetadataKey) (value : String) : AlertMetadata :=
  match key with
  | .sampleId => { metadata with sampleId := some value }
  | .visit => { metadata with visit := some value }
  | .container => { metadata with container := some value }

def entries (metadata : AlertMetadata) : List (MetadataKey × String) :=
  MetadataKey.all.filterMap fun key => (metadata.get? key).map fun value => (key, value)

def reader : Reader AlertMetadata := fun draft => do
  let members ← Reader.members (Reader.named MetadataKey.names) .text draft
  return members.foldl (fun metadata entry => metadata.insert entry.1 entry.2) empty

def toJson (metadata : AlertMetadata) : Json :=
  .object (metadata.entries.map fun entry => (entry.1.name, .text entry.2))

end AlertMetadata

structure AlertRecord where
  summary : String
  content : String
  metadata : AlertMetadata
deriving DecidableEq, Inhabited

namespace AlertRecord

def waitingForBeam (taskId : String) (elapsed : Span) (metadata : AlertMetadata) : AlertRecord :=
  { summary := "Unattended data collection paused waiting for beam"
    content := "Task " ++ taskId ++ " has been waiting for beam for " ++
      toString (elapsed.wholeSeconds / 60) ++ " minutes."
    metadata }

def stuck (taskId : String) (timeout : Span) (metadata : AlertMetadata) : AlertRecord :=
  { summary := "Unattended data collection stuck"
    content := "Task " ++ taskId ++ " reported no progress for " ++
      toString timeout.wholeSeconds ++
      "s and is not waiting for beam. Cancellation has been requested."
    metadata }

def summaryField : RecordField String := .required "summary" .text
def contentField : RecordField String := .required "content" .text
def metadataField : RecordField AlertMetadata := .required "metadata" AlertMetadata.reader

def reader : Reader AlertRecord := fun draft => do
  let present ← Record.present [summaryField.slot, contentField.slot, metadataField.slot] draft
  let summary ← Record.get present summaryField
  let content ← Record.get present contentField
  let metadata ← Record.get present metadataField
  return { summary, content, metadata }

def toJson (alert : AlertRecord) : Json :=
  .object
    [("summary", .text alert.summary), ("content", .text alert.content),
     ("metadata", alert.metadata.toJson)]

end AlertRecord

namespace AlertMetadata

/-- The text of a tag: a text itself, or a signed 64 bit integer in decimal. -/
def readTag : Reader String
  | .text value => .ok value
  | .number (.integer value) =>
      if -9223372036854775808 ≤ value ∧ value < 9223372036854775808 then .ok (toString value)
      else .error .wrongType
  | other => Reader.mismatch other

def sampleIdField : RecordField String := .required "sample_id" readTag
def visitField : RecordField String := ⟨"visit", ["visit_id"], readTag, none⟩
def containerField : RecordField String :=
  ⟨"container", ["sample_puck", "container_id"], readTag, none⟩

def parameterReader : Reader AlertMetadata := fun draft => do
  let present ← Record.present [sampleIdField.slot, visitField.slot, containerField.slot] draft
  let sampleId ← Record.get present sampleIdField
  let visit ← Record.get present visitField
  let container ← Record.get present containerField
  return { sampleId := some sampleId, visit := some visit, container := some container }

/-- The tags of a task with these parameters; without all three there is none. -/
def ofParameters (parameters : Json) : AlertMetadata :=
  match readJson parameterReader parameters with
  | .ok metadata => metadata
  | .error _ => empty

end AlertMetadata

end PlanSupervision
