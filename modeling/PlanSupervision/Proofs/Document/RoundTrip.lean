import PlanSupervision.Proofs.Document.Decoding

/-!
Documents survive the wire. A document that is valid is read back from its encoding, from the value
and from the value with its members sorted; and from the compact text, as long as that does not nest
too deep.
-/

namespace PlanSupervision

open Json

namespace Json

variable {Value : Type}

theorem keys_ofFields_sublist (fields : List (String × Option Json)) :
    ((fields.filterMap fun field => field.2.map fun value => (field.1, value)).map
      Prod.fst).Sublist (fields.map Prod.fst) := by
  induction fields with
  | nil => exact List.Sublist.refl []
  | cons field rest inductionHypothesis =>
      obtain ⟨key, value⟩ := field
      cases value with
      | none => exact inductionHypothesis.cons key
      | some value => exact inductionHypothesis.cons_cons key

/-- Without repeated names no key stands twice in an object that leaves out what is absent. -/
theorem distinctKeys_ofFields {fields : List (String × Option Json)}
    (distinct : (fields.map Prod.fst).Nodup)
    (each : ∀ field ∈ fields, ∀ value, field.2 = some value → value.DistinctKeys) :
    (ofFields fields).DistinctKeys := by
  refine distinctKeys_object.mpr ⟨(keys_ofFields_sublist fields).nodup distinct, ?_⟩
  intro member isMember
  obtain ⟨⟨key, value⟩, isField, isValue⟩ := List.mem_filterMap.mp isMember
  obtain ⟨content, isContent, rfl⟩ := Option.map_eq_some_iff.mp isValue
  exact each (key, value) isField content isContent

theorem distinctKeys_ofTable {encode : Value → Json} {table : Table Value}
    (each : ∀ entry ∈ table.entries, (encode entry.2).DistinctKeys) :
    (ofTable encode table).DistinctKeys := by
  refine distinctKeys_object.mpr ⟨?_, List.forall_mem_map.mpr each⟩
  rw [Table.Distinct, List.map_map]
  exact table.sorted.distinct

theorem integral_ofFields {fields : List (String × Option Json)}
    (each : ∀ field ∈ fields, ∀ value, field.2 = some value → value.Integral) :
    (ofFields fields).Integral := by
  rw [ofFields, Integral, integralMembers_iff]
  intro member isMember
  obtain ⟨⟨key, value⟩, isField, isValue⟩ := List.mem_filterMap.mp isMember
  obtain ⟨content, isContent, rfl⟩ := Option.map_eq_some_iff.mp isValue
  exact each (key, value) isField content isContent

theorem integral_ofTable {encode : Value → Json} {table : Table Value}
    (each : ∀ entry ∈ table.entries, (encode entry.2).Integral) :
    (ofTable encode table).Integral := by
  rw [ofTable, Integral, integralMembers_iff]
  exact List.forall_mem_map.mpr each

namespace Reader

theorem list_text (names : List String) :
    list text (Draft.ofJson (.array (names.map .text))) = .ok names := by
  have all : readItems text (Draft.ofItems (names.map .text)) = .ok names := by
    induction names with
    | nil => rfl
    | cons name rest inductionHypothesis =>
        rw [List.map_cons, Draft.ofItems, readItems, inductionHypothesis]
        rfl
  rw [Draft.ofJson, list, all]
  rfl

theorem readMembers_map {read : Reader Value} {encode : Value → Json}
    {entries : List (String × Value)}
    (each : ∀ entry ∈ entries, read (Draft.ofJson (encode entry.2)) = .ok entry.2) :
    readMembers .ok read (Draft.ofMembers (entries.map fun entry => (entry.1, encode entry.2))) =
      .ok entries := by
  induction entries with
  | nil => rfl
  | cons entry rest inductionHypothesis =>
      obtain ⟨first, others⟩ := List.forall_mem_cons.mp each
      rw [List.map_cons, readMembers_cons, first, inductionHypothesis others]
      rfl

/-- A table is read back if its values are. -/
theorem table_ofTable {read : Reader Value} {encode : Value → Json} {table : Table Value}
    (each : ∀ entry ∈ table.entries, read (Draft.ofJson (encode entry.2)) = .ok entry.2) :
    Reader.table read (Draft.ofJson (ofTable encode table)) = .ok table := by
  rw [ofTable, Draft.ofJson, Reader.table, Reader.members, readMembers_map each]
  exact congrArg Except.ok (Table.ofList_entries table)

theorem json_ofJson {value : Json} (isSorted : value.SortedKeys) :
    json (Draft.ofJson value) = .ok value := by
  rw [json, toJson_ofJson, isSorted.sorted_eq]

end Reader

end Json

namespace RunStart

/-- What holds of texts, of the metadata and of lists of texts holds of every field. -/
theorem forall_fields {motive : Json → Prop} (run : RunStart)
    (text : ∀ content, motive (.text content)) (metadata : motive (.ofTable .text run.metadata))
    (names : ∀ names : List String, motive (.array (names.map .text))) :
    ∀ field ∈ run.fields, ∀ value, field.2 = some value → motive value := by
  simp only [fields, List.forall_mem_cons, Option.some.injEq, Option.map_eq_some_iff]
  refine ⟨?_, ?_, ?_, ?_, List.forall_mem_nil _⟩
  · rintro _ rfl
    exact text run.runUid
  · rintro _ rfl
    exact metadata
  · rintro _ ⟨callbacks, _, rfl⟩
    exact names callbacks
  · rintro _ ⟨name, _, rfl⟩
    exact text name

theorem distinctKeys_toJson (run : RunStart) : run.toJson.DistinctKeys := by
  refine distinctKeys_ofFields (by simp [fields]) (run.forall_fields (fun _ => trivial) ?_ ?_)
  · exact distinctKeys_ofTable fun _ _ => trivial
  · exact fun _ => distinctKeys_array.mpr (List.forall_mem_map.mpr fun _ _ => trivial)

theorem reader_toJson (run : RunStart) :
    reader (Draft.ofJson run.toJson) = .ok run := by
  rw [reader_eq_ok_iff run.distinctKeys_toJson]
  obtain ⟨runUid, metadata, callbacks, runName⟩ := run
  refine ⟨trivial, ?_, ?_, ?_, ?_⟩
  · exact Record.taken_of_given (by rfl) rfl
  · exact Record.taken_of_given (by rfl) (Reader.table_ofTable fun _ _ => rfl)
  · cases callbacks with
    | none => cases runName <;> rfl
    | some names =>
        have isRead : activateCallbacksField.read (Draft.ofJson (.array (names.map .text))) =
            .ok (some names) := congrArg (some <$> ·) (Reader.list_text names)
        exact Record.taken_of_given (by rfl) isRead
  · cases runName with
    | none => cases callbacks <;> rfl
    | some name => cases callbacks <;> exact Record.taken_of_given (by rfl) rfl

end RunStart

namespace Descriptor

theorem distinctKeys_toJson (stream : Descriptor) : stream.toJson.DistinctKeys := by
  refine distinctKeys_object.mpr ⟨by simp [Table.Distinct], ?_⟩
  simp only [List.forall_mem_cons]
  exact ⟨trivial, trivial, trivial, List.forall_mem_nil _⟩

theorem reader_toJson (stream : Descriptor) : reader (Draft.ofJson stream.toJson) = .ok stream := by
  rw [reader_eq_ok_iff stream.distinctKeys_toJson]
  exact ⟨trivial, Record.taken_of_given (by rfl) rfl, Record.taken_of_given (by rfl) rfl,
    Record.taken_of_given (by rfl) rfl⟩

end Descriptor

namespace DataEvent

/-- The objects in the data list their members in the order of a map. -/
def SortedData (reading : DataEvent) : Prop := ∀ entry ∈ reading.data.entries, entry.2.SortedKeys

theorem distinctKeys_toJson {reading : DataEvent} (sorted : reading.SortedData) :
    reading.toJson.DistinctKeys := by
  refine distinctKeys_object.mpr ⟨by simp [Table.Distinct], ?_⟩
  simp only [List.forall_mem_cons]
  exact ⟨trivial, distinctKeys_ofTable fun entry member => (sorted entry member).distinctKeys,
    List.forall_mem_nil _⟩

theorem reader_toJson {reading : DataEvent} (sorted : reading.SortedData) :
    reader (Draft.ofJson reading.toJson) = .ok reading := by
  rw [reader_eq_ok_iff (distinctKeys_toJson sorted)]
  exact ⟨trivial, Record.taken_of_given (by rfl) rfl, Record.taken_of_given (by rfl)
    (Reader.table_ofTable fun entry member => Reader.json_ofJson (sorted entry member))⟩

end DataEvent

namespace RunStop

theorem forall_fields {motive : Json → Prop} (closing : RunStop)
    (text : ∀ content, motive (.text content)) :
    ∀ field ∈ closing.fields, ∀ value, field.2 = some value → motive value := by
  simp only [fields, List.forall_mem_cons, Option.some.injEq, Option.map_eq_some_iff]
  refine ⟨?_, ?_, ?_, List.forall_mem_nil _⟩
  · rintro _ rfl
    exact text closing.runStart
  · rintro _ rfl
    exact text closing.exitStatus.name
  · rintro _ ⟨reason, _, rfl⟩
    exact text reason

theorem distinctKeys_toJson (closing : RunStop) : closing.toJson.DistinctKeys :=
  distinctKeys_ofFields (by simp [fields]) (closing.forall_fields fun _ => trivial)

theorem reader_toJson (closing : RunStop) :
    reader (Draft.ofJson closing.toJson) = .ok closing := by
  rw [reader, readerOf_eq_ok_iff closing.distinctKeys_toJson]
  obtain ⟨runStart, exitStatus, reason⟩ := closing
  refine ⟨trivial, Record.taken_of_given (by rfl) rfl, Record.taken_of_given (by rfl) ?_, ?_⟩
  · cases exitStatus <;> rfl
  · cases reason with
    | none => rfl
    | some reason => exact Record.taken_of_given (by rfl) rfl

end RunStop

namespace Document

/-- The objects in the data of a reading list their members in the order of a map. -/
def SortedData : Document → Prop
  | event reading => reading.SortedData
  | _ => True

/-- Every number in the data of a reading is an integer of 64 bits. -/
def IntegralData : Document → Prop
  | event reading => ∀ entry ∈ reading.data.entries, entry.2.Integral
  | _ => True

theorem distinctKeys_content {document : Document} (sorted : document.SortedData) :
    document.content.DistinctKeys := by
  cases document with
  | start run => exact run.distinctKeys_toJson
  | descriptor stream => exact stream.distinctKeys_toJson
  | event reading => exact DataEvent.distinctKeys_toJson sorted
  | stop closing => exact closing.distinctKeys_toJson

theorem directReader_content {document : Document} (sorted : document.SortedData) :
    directReader document.kind (Draft.ofJson document.content) = .ok document := by
  cases document with
  | start run => exact congrArg (start <$> ·) run.reader_toJson
  | descriptor stream => exact congrArg (descriptor <$> ·) stream.reader_toJson
  | event reading => exact congrArg (event <$> ·) (DataEvent.reader_toJson sorted)
  | stop closing => exact congrArg (stop <$> ·) closing.reader_toJson

theorem distinctKeys_toJson {document : Document} (sorted : document.SortedData) :
    document.toJson.DistinctKeys := by
  refine distinctKeys_object.mpr ⟨by simp [Table.Distinct], ?_⟩
  simp only [List.forall_mem_cons]
  exact ⟨trivial, distinctKeys_content sorted, List.forall_mem_nil _⟩

theorem variant_kind (kind : DocumentKind) :
    Reader.variant DocumentKind.names (Draft.ofJson (.text kind.name)) = .ok kind := by
  cases kind <;> rfl

/-- A document is read back from its encoding. -/
theorem reader_toJson {document : Document} (sorted : document.SortedData) :
    reader (Draft.ofJson document.toJson) = .ok document := by
  rw [toJson, reader_object_eq_ok_iff (by simp [Table.Distinct])]
  exact ⟨_, _, document.kind, rfl, rfl, variant_kind document.kind, directReader_content sorted⟩

/-- The exit status is encoded as its name alone. -/
theorem not_emptyPayload_toJson (document : Document) : ¬EmptyPayload document.toJson := by
  rintro ⟨_, _, isName, isContent, isTag, name, isStatus⟩
  obtain rfl := Option.some.inj isName
  obtain rfl := Option.some.inj isContent
  rw [variant_kind] at isTag
  cases document with
  | start | descriptor | event => cases isTag
  | stop closing =>
      obtain ⟨runStart, exitStatus, reason⟩ := closing
      cases reason <;> cases isStatus

theorem reader_sorted_toJson {document : Document} (sorted : document.SortedData) :
    reader (Draft.ofJson document.toJson.sorted) = .ok document :=
  (reader_sorted (distinctKeys_toJson sorted) document.not_emptyPayload_toJson).mpr
    (reader_toJson sorted)

theorem integral_content {document : Document} (integral : document.IntegralData) :
    document.content.Integral := by
  cases document with
  | start run =>
      refine integral_ofFields (run.forall_fields (fun _ => trivial) ?_ fun names => ?_)
      · exact integral_ofTable fun _ _ => trivial
      · exact integralItems_iff.mpr (List.forall_mem_map.mpr fun _ _ => trivial)
  | descriptor stream => exact ⟨trivial, trivial, trivial, trivial⟩
  | event reading => exact ⟨trivial, integral_ofTable integral, trivial⟩
  | stop closing => exact integral_ofFields (closing.forall_fields fun _ => trivial)

theorem integral_toJson {document : Document} (integral : document.IntegralData) :
    document.toJson.Integral := ⟨trivial, integral_content integral, trivial⟩

/-- A valid document is decoded from its encoding, as a value with its members in either order and
as a compact text that does not nest too deep. -/
theorem decode_encode {document : Document} (valid : document.validate = .ok ())
    (sorted : document.SortedData) :
    ofJson document.toJson.sorted = .ok document ∧ ofJson document.toJson = .ok document ∧
      (document.IntegralData → document.toJson.depth ≤ Assembly.depthLimit →
        ofText document.toJson.render = .ok document) := by
  have accepted : accept (.ok document) = .ok document := by
    rw [accept, valid]
  refine ⟨?_, ?_, fun integral shallow => ?_⟩
  · rw [ofJson, readJson, reader_sorted_toJson sorted, accepted]
  · rw [ofJson, readJson, reader_toJson sorted, accepted]
  · have isDraft := ofText_render (integral_toJson integral) shallow
    rw [ofText, readText_of_draft isDraft, reader_toJson sorted, accepted]

/-- A reading with nested data and with characters that must be escaped. -/
def nestedReading : Document :=
  .event ⟨"d\"\\\n", Table.empty.insert "k\t"
    (.array [.null, .bool true, .number (.integer (-9223372036854775808)),
      .object [("a", .text "\"\\\x00"), ("b", .array [])]])⟩

theorem nestedReading_decoded :
    ofJson nestedReading.toJson.sorted = .ok nestedReading ∧
      ofText nestedReading.toJson.render = .ok nestedReading := by
  have valid : nestedReading.validate = .ok () := by decide
  have sorted : nestedReading.SortedData := by
    refine List.forall_mem_singleton.mpr ?_
    have keys : Table.Sorted [("a", Json.text "\"\\\x00"), ("b", .array [])] :=
      List.pairwise_pair.mpr (by decide)
    exact ⟨trivial, trivial, trivial, ⟨keys, trivial, trivial, trivial⟩, trivial⟩
  have integral : nestedReading.IntegralData := by
    refine List.forall_mem_singleton.mpr ?_
    have least : Number.Exact (-9223372036854775808) := by decide
    exact ⟨trivial, trivial, least, ⟨trivial, trivial, trivial⟩, trivial⟩
  have shallow : nestedReading.toJson.depth ≤ Assembly.depthLimit := by decide
  obtain ⟨value, _, text⟩ := decode_encode valid sorted
  exact ⟨value, text integral shallow⟩

end Document

end PlanSupervision
