import PlanSupervision.Document.Wire
import PlanSupervision.Proofs.Json.Records

/-!
What the content of a document is read from. Each kind of content is read field by field, so the
order of members makes no difference to it. Content that is read where it stands and content that
was held back differ in one thing only: the payload of an exit status may be an empty object in
the latter.
-/

namespace PlanSupervision

open Json

variable {value : Json}

theorem ExitStatus.heedless_reader : ExitStatus.reader.Heedless :=
  Reader.heedless_nothing.variantOf names

theorem ExitStatus.heedless_heldBackReader : ExitStatus.heldBackReader.Heedless :=
  Reader.heedless_nothingHeldBack.variantOf names

/-- Where it stands an exit status is read from what it is read from when held back, an empty
object as payload excepted. -/
theorem ExitStatus.reader_eq_ok_iff {status : ExitStatus} :
    ExitStatus.reader (Draft.ofJson value) = .ok status ↔
      ExitStatus.heldBackReader (Draft.ofJson value) = .ok status ∧
        ∀ name, value ≠ .object [(name, .object [])] := by
  rw [ExitStatus.reader, Reader.variant, ExitStatus.heldBackReader, Reader.variantOf_eq_ok_iff,
    Reader.variantOf_eq_ok_iff]
  simp only [Reader.nothing_eq_ok_iff, Reader.nothingHeldBack_eq_ok_iff]
  constructor
  · rintro ⟨found, named, rfl | ⟨payload, rfl, rfl⟩⟩
    · exact ⟨⟨found, named, .inl rfl⟩, fun name same => by cases same⟩
    · exact ⟨⟨found, named, .inr ⟨_, rfl, .inl rfl⟩⟩, fun name same => by cases same⟩
  · rintro ⟨⟨found, named, rfl | ⟨payload, rfl, rfl | rfl⟩⟩, filled⟩
    · exact ⟨found, named, .inl rfl⟩
    · exact ⟨found, named, .inr ⟨_, rfl, rfl⟩⟩
    · exact absurd rfl (filled found)

namespace RunStart

theorem plain_slots : Record.Plain slots := ⟨by decide, by decide⟩

theorem reader_eq_ok_iff (distinct : value.DistinctKeys) {run : RunStart} :
    reader (Draft.ofJson value) = .ok run ↔
      Record.Fits slots value ∧
        Record.taken slots value runUidField = some run.runUid ∧
        Record.taken slots value metadataField = some run.metadata ∧
        Record.taken slots value activateCallbacksField = some run.activateCallbacks ∧
        Record.taken slots value runNameField = some run.runName := by
  apply Record.bind_present_eq_ok_iff plain_slots distinct
  · intro found get_iff
    simp only [bind_eq_ok_iff, get_iff runUidField (by simp [slots]),
      get_iff metadataField (by simp [slots]), get_iff activateCallbacksField (by simp [slots]),
      get_iff runNameField (by simp [slots])]
    constructor
    · rintro ⟨_, runUid, _, metadata, _, callbacks, _, runName, same⟩
      obtain rfl := Except.ok.inj same
      exact ⟨runUid, metadata, callbacks, runName⟩
    · rintro ⟨runUid, metadata, callbacks, runName⟩
      exact ⟨_, runUid, _, metadata, _, callbacks, _, runName, rfl⟩
  · rintro ⟨runUid, metadata, callbacks, runName⟩
    simp only [slots, List.forall_mem_cons]
    exact ⟨fun _ => Record.accepts_of_taken runUid, fun _ => Record.accepts_of_taken metadata,
      fun _ => Record.accepts_of_taken callbacks, fun _ => Record.accepts_of_taken runName,
      List.forall_mem_nil _⟩

theorem heedless_reader : reader.Heedless := by
  apply Reader.heedless_of_iff
  intro value distinct run
  rw [reader_eq_ok_iff (sortedKeys_sorted value).distinctKeys, reader_eq_ok_iff distinct,
    Record.fits_sorted, Record.taken_sorted Reader.heedless_text distinct,
    Record.taken_sorted Reader.heedless_text.table distinct,
    Record.taken_sorted Reader.heedless_text.list.optional distinct,
    Record.taken_sorted Reader.heedless_text.optional distinct]

end RunStart

namespace Descriptor

theorem plain_slots : Record.Plain slots := ⟨by decide, by decide⟩

theorem reader_eq_ok_iff (distinct : value.DistinctKeys) {stream : Descriptor} :
    reader (Draft.ofJson value) = .ok stream ↔
      Record.Fits slots value ∧
        Record.taken slots value descriptorUidField = some stream.descriptorUid ∧
        Record.taken slots value runUidField = some stream.runUid ∧
        Record.taken slots value nameField = some stream.name := by
  apply Record.bind_present_eq_ok_iff plain_slots distinct
  · intro found get_iff
    simp only [bind_eq_ok_iff, get_iff descriptorUidField (by simp [slots]),
      get_iff runUidField (by simp [slots]), get_iff nameField (by simp [slots])]
    constructor
    · rintro ⟨_, descriptorUid, _, runUid, _, name, same⟩
      obtain rfl := Except.ok.inj same
      exact ⟨descriptorUid, runUid, name⟩
    · rintro ⟨descriptorUid, runUid, name⟩
      exact ⟨_, descriptorUid, _, runUid, _, name, rfl⟩
  · rintro ⟨descriptorUid, runUid, name⟩
    simp only [slots, List.forall_mem_cons]
    exact ⟨fun _ => Record.accepts_of_taken descriptorUid, fun _ => Record.accepts_of_taken runUid,
      fun _ => Record.accepts_of_taken name, List.forall_mem_nil _⟩

theorem heedless_reader : reader.Heedless := by
  apply Reader.heedless_of_iff
  intro value distinct stream
  rw [reader_eq_ok_iff (sortedKeys_sorted value).distinctKeys, reader_eq_ok_iff distinct,
    Record.fits_sorted, Record.taken_sorted Reader.heedless_text distinct,
    Record.taken_sorted Reader.heedless_text distinct,
    Record.taken_sorted Reader.heedless_text distinct]

end Descriptor

namespace DataEvent

theorem plain_slots : Record.Plain slots := ⟨by decide, by decide⟩

theorem reader_eq_ok_iff (distinct : value.DistinctKeys) {reading : DataEvent} :
    reader (Draft.ofJson value) = .ok reading ↔
      Record.Fits slots value ∧
        Record.taken slots value descriptorUidField = some reading.descriptorUid ∧
        Record.taken slots value dataField = some reading.data := by
  apply Record.bind_present_eq_ok_iff plain_slots distinct
  · intro found get_iff
    simp only [bind_eq_ok_iff, get_iff descriptorUidField (by simp [slots]),
      get_iff dataField (by simp [slots])]
    constructor
    · rintro ⟨_, descriptorUid, _, data, same⟩
      obtain rfl := Except.ok.inj same
      exact ⟨descriptorUid, data⟩
    · rintro ⟨descriptorUid, data⟩
      exact ⟨_, descriptorUid, _, data, rfl⟩
  · rintro ⟨descriptorUid, data⟩
    simp only [slots, List.forall_mem_cons]
    exact ⟨fun _ => Record.accepts_of_taken descriptorUid, fun _ => Record.accepts_of_taken data,
      List.forall_mem_nil _⟩

theorem heedless_reader : reader.Heedless := by
  apply Reader.heedless_of_iff
  intro value distinct reading
  rw [reader_eq_ok_iff (sortedKeys_sorted value).distinctKeys, reader_eq_ok_iff distinct,
    Record.fits_sorted, Record.taken_sorted Reader.heedless_text distinct,
    Record.taken_sorted Reader.heedless_json.table distinct]

end DataEvent

namespace RunStop

variable {status : Reader ExitStatus}

theorem plain_slots (status : Reader ExitStatus) : Record.Plain (slots status) where
  distinct := by
    change ["run_start", "exit_status", "reason"].Nodup
    decide
  unaliased := by
    simp only [slots, List.forall_mem_cons]
    exact ⟨rfl, rfl, rfl, List.forall_mem_nil _⟩

theorem readerOf_eq_ok_iff (distinct : value.DistinctKeys) {closing : RunStop} :
    readerOf status (Draft.ofJson value) = .ok closing ↔
      Record.Fits (slots status) value ∧
        Record.taken (slots status) value runStartField = some closing.runStart ∧
        Record.taken (slots status) value (exitStatusField status) = some closing.exitStatus ∧
        Record.taken (slots status) value reasonField = some closing.reason := by
  apply Record.bind_present_eq_ok_iff (plain_slots status) distinct
  · intro found get_iff
    simp only [bind_eq_ok_iff, get_iff runStartField (by simp [slots]),
      get_iff (exitStatusField status) (by simp [slots]), get_iff reasonField (by simp [slots])]
    constructor
    · rintro ⟨_, runStart, _, exitStatus, _, reason, same⟩
      obtain rfl := Except.ok.inj same
      exact ⟨runStart, exitStatus, reason⟩
    · rintro ⟨runStart, exitStatus, reason⟩
      exact ⟨_, runStart, _, exitStatus, _, reason, rfl⟩
  · rintro ⟨runStart, exitStatus, reason⟩
    simp only [slots, List.forall_mem_cons]
    exact ⟨fun _ => Record.accepts_of_taken runStart, fun _ => Record.accepts_of_taken exitStatus,
      fun _ => Record.accepts_of_taken reason, List.forall_mem_nil _⟩

theorem heedless_readerOf (heedless : status.Heedless) : (readerOf status).Heedless := by
  apply Reader.heedless_of_iff
  intro value distinct closing
  rw [readerOf_eq_ok_iff (sortedKeys_sorted value).distinctKeys, readerOf_eq_ok_iff distinct,
    Record.fits_sorted, Record.taken_sorted Reader.heedless_text distinct,
    Record.taken_sorted heedless distinct, Record.taken_sorted Reader.heedless_text.optional distinct]

/-- The exit status stands as a name with an empty object as its payload. -/
def EmptyPayload (value : Json) : Prop :=
  ∃ name, Record.given (slots ExitStatus.reader) value "exit_status" =
    some (.object [(name, .object [])])

/-- What is read where it stands is what is read from held back content, unless the exit status
has an empty payload. -/
theorem reader_eq_ok_iff (distinct : value.DistinctKeys) {closing : RunStop} :
    reader (Draft.ofJson value) = .ok closing ↔
      readerOf ExitStatus.heldBackReader (Draft.ofJson value) = .ok closing ∧
        ¬EmptyPayload value := by
  have statuses : Record.taken (slots ExitStatus.reader) value (exitStatusField ExitStatus.reader) =
      some closing.exitStatus ↔
      Record.taken (slots ExitStatus.heldBackReader) value
        (exitStatusField ExitStatus.heldBackReader) = some closing.exitStatus ∧
      ¬EmptyPayload value := by
    have given : Record.given (slots ExitStatus.heldBackReader) value "exit_status" =
        Record.given (slots ExitStatus.reader) value "exit_status" := by
      cases value <;> rfl
    simp only [Record.taken, exitStatusField, RecordField.required, EmptyPayload, given]
    cases Record.given (slots ExitStatus.reader) value "exit_status" with
    | none => simp
    | some inner =>
        simp only [toOption_eq_some_iff, ExitStatus.reader_eq_ok_iff, Option.some.injEq, not_exists]
  have others : ∀ {Content : Type} (field : RecordField Content),
      Record.taken (slots ExitStatus.heldBackReader) value field =
        Record.taken (slots ExitStatus.reader) value field := by
    intro Content field
    cases value <;> rfl
  have fits : Record.Fits (slots ExitStatus.heldBackReader) value ↔
      Record.Fits (slots ExitStatus.reader) value := Record.fits_congr rfl
  rw [reader, readerOf_eq_ok_iff distinct, readerOf_eq_ok_iff distinct, statuses, fits,
    others runStartField, others reasonField]
  constructor
  · rintro ⟨isRecord, runStart, ⟨exitStatus, filled⟩, reason⟩
    exact ⟨⟨isRecord, runStart, exitStatus, reason⟩, filled⟩
  · rintro ⟨⟨isRecord, runStart, exitStatus, reason⟩, filled⟩
    exact ⟨isRecord, runStart, ⟨exitStatus, filled⟩, reason⟩

end RunStop

namespace Document

theorem heedless_contentReader {status : Reader ExitStatus} (heedless : status.Heedless)
    (kind : DocumentKind) : (contentReader status kind).Heedless := by
  cases kind with
  | start => exact RunStart.heedless_reader.map start
  | descriptor => exact Descriptor.heedless_reader.map descriptor
  | event => exact DataEvent.heedless_reader.map event
  | stop => exact (RunStop.heedless_readerOf heedless).map stop

theorem heedless_directReader (kind : DocumentKind) : (directReader kind).Heedless :=
  heedless_contentReader ExitStatus.heedless_reader kind

theorem heedless_heldBackReader (kind : DocumentKind) : (heldBackReader kind).Heedless :=
  heedless_contentReader ExitStatus.heedless_heldBackReader kind

/-- Content that is read where it stands is read as when it is held back, unless it is that of a
stop whose exit status has an empty payload. -/
theorem directReader_eq_ok_iff (distinct : value.DistinctKeys) {kind : DocumentKind}
    {document : Document} :
    directReader kind (Draft.ofJson value) = .ok document ↔
      heldBackReader kind (Draft.ofJson value) = .ok document ∧
        (kind = .stop → ¬RunStop.EmptyPayload value) := by
  cases kind with
  | start | descriptor | event =>
      exact (and_iff_left fun same => nomatch same).symm
  | stop =>
      rw [directReader, heldBackReader, contentReader, contentReader, map_eq_ok_iff, map_eq_ok_iff]
      constructor
      · rintro ⟨closing, isRead, rfl⟩
        obtain ⟨heldBack, filled⟩ := (RunStop.reader_eq_ok_iff distinct).mp isRead
        exact ⟨⟨closing, heldBack, rfl⟩, fun _ => filled⟩
      · rintro ⟨⟨closing, heldBack, rfl⟩, filled⟩
        exact ⟨closing, (RunStop.reader_eq_ok_iff distinct).mpr ⟨heldBack, filled rfl⟩, rfl⟩

end Document

end PlanSupervision
