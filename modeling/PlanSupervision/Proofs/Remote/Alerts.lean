import PlanSupervision.Proofs.Json.Compact
import PlanSupervision.Proofs.Json.Enlargement
import PlanSupervision.Remote.Alert

/-!
Alerts survive the wire. The tags of an alert are read from exactly the objects that list them, in
any order; an alert is read from its encoding, from every rearrangement of that, and from every
object that has further members between those of the encoding.
-/

namespace PlanSupervision

open Json

namespace MetadataKey

theorem named_eq_ok_iff {found : String} {key : MetadataKey} :
    Reader.named names found = .ok key ↔ found = key.name := by
  rw [Reader.named_eq_ok_iff]
  constructor
  · intro isFound
    obtain ⟨same, _, isEntry⟩ := List.mem_map.mp (Table.mem_of_lookup isFound)
    obtain ⟨rfl, rfl⟩ := Prod.mk.inj isEntry
    rfl
  · rintro rfl
    cases key <;> rfl

theorem name_injective {key other : MetadataKey} (same : key.name = other.name) : key = other :=
  Except.ok.inj ((named_eq_ok_iff.mpr rfl).symm.trans (named_eq_ok_iff.mpr same))

end MetadataKey

namespace AlertMetadata

variable {metadata : AlertMetadata} {key : MetadataKey} {value : String}
  {entries : List (MetadataKey × String)} {members : List (String × Json)}

theorem get?_insert (metadata : AlertMetadata) (key other : MetadataKey) (value : String) :
    (metadata.insert key value).get? other =
      if other = key then some value else metadata.get? other := by
  cases key <;> cases other <;> rfl

theorem get?_empty (key : MetadataKey) : empty.get? key ≠ some value := by
  cases key <;> exact nofun

theorem eq_of_get?_eq {other : AlertMetadata} (same : ∀ key, metadata.get? key = other.get? key) :
    metadata = other := by
  cases metadata
  cases other
  exact (mk.injEq ..).mpr ⟨same .sampleId, same .visit, same .container⟩

theorem mem_entries_iff : (key, value) ∈ metadata.entries ↔ metadata.get? key = some value := by
  rw [entries, List.mem_filterMap]
  constructor
  · rintro ⟨other, _, isEntry⟩
    obtain ⟨content, isGiven, same⟩ := Option.map_eq_some_iff.mp isEntry
    obtain ⟨rfl, rfl⟩ := Prod.mk.inj same
    exact isGiven
  · intro isGiven
    exact ⟨key, by cases key <;> simp [MetadataKey.all], by rw [isGiven]; rfl⟩

/-- No key stands for two tags. -/
theorem nodup_entries (metadata : AlertMetadata) : (metadata.entries.map Prod.fst).Nodup := by
  obtain ⟨_ | _, _ | _, _ | _⟩ := metadata <;> simp [entries, MetadataKey.all, get?]

/-- What is found among tags that were put in one by one, no key twice. -/
theorem get?_foldl_insert (distinct : (entries.map Prod.fst).Nodup) (metadata : AlertMetadata) :
    (entries.foldl (fun metadata entry => metadata.insert entry.1 entry.2) metadata).get? key =
        some value ↔
      (key, value) ∈ entries ∨ key ∉ entries.map Prod.fst ∧ metadata.get? key = some value := by
  induction entries generalizing metadata with
  | nil => simp
  | cons entry rest inductionHypothesis =>
      obtain ⟨first, content⟩ := entry
      obtain ⟨fresh, others⟩ := List.nodup_cons.mp distinct
      rw [List.foldl_cons, inductionHypothesis others, get?_insert]
      by_cases here : key = first
      · subst here
        have notLater : (key, value) ∉ rest := fun member =>
          fresh (List.mem_map.mpr ⟨_, member, rfl⟩)
        simp [notLater, fresh, eq_comm]
      · simp [here]

/-- The tags that are put in one by one make up the metadata whose tags they are. -/
theorem foldl_insert_of_perm (perm : entries.Perm metadata.entries) :
    entries.foldl (fun metadata entry => metadata.insert entry.1 entry.2) empty = metadata := by
  have distinct := (perm.map Prod.fst).nodup_iff.mpr metadata.nodup_entries
  apply eq_of_get?_eq
  intro key
  apply Option.ext
  intro value
  rw [get?_foldl_insert distinct, perm.mem_iff, mem_entries_iff,
    or_iff_left fun later => get?_empty key later.2]

/-- A tag as a member of an object. -/
def tagMember (entry : MetadataKey × String) : String × Json := (entry.1.name, .text entry.2)

theorem readMembers_eq_ok_iff :
    Reader.readMembers (Reader.named MetadataKey.names) Reader.text (Draft.ofMembers members) =
        .ok entries ↔ members = entries.map tagMember := by
  induction members generalizing entries with
  | nil => cases entries <;> simp [Draft.ofMembers, Reader.readMembers]
  | cons member rest inductionHypothesis =>
      obtain ⟨name, written⟩ := member
      simp only [Draft.ofMembers, Reader.readMembers, bind_eq_ok_iff, readKey, Except.ok.injEq,
        MetadataKey.named_eq_ok_iff, Reader.text_eq_ok_iff, inductionHypothesis]
      constructor
      · rintro ⟨_, rfl, key, rfl, content, rfl, later, rfl, same⟩
        rw [← Except.ok.inj same]
        rfl
      · intro same
        obtain ⟨entry, later, rfl, first, rfl⟩ := List.map_eq_cons_iff.mp same.symm
        obtain ⟨rfl, rfl⟩ := Prod.mk.inj first
        exact ⟨_, rfl, entry.1, rfl, entry.2, rfl, later, rfl, rfl⟩

/-- Tags are read from exactly the objects that list them, in any order. -/
theorem reader_eq_ok_iff (distinct : Table.Distinct members) :
    reader (Draft.ofJson (.object members)) = .ok metadata ↔
      members.Perm (metadata.entries.map tagMember) := by
  have unfolded : ∀ entries, Reader.members (Reader.named MetadataKey.names) .text
      (Draft.ofJson (.object members)) = .ok entries ↔ members = entries.map tagMember := by
    intro entries
    rw [Draft.ofJson, Reader.members, ← readMembers_eq_ok_iff]
    cases Reader.readMembers (Reader.named MetadataKey.names) Reader.text
      (Draft.ofMembers members) <;> rfl
  simp only [reader, bind_eq_ok_iff, unfolded]
  constructor
  · rintro ⟨entries, rfl, same⟩
    have keys : (entries.map Prod.fst).Nodup := by
      rw [Table.Distinct, List.map_map] at distinct
      refine List.Nodup.of_map MetadataKey.name ?_
      rwa [List.map_map]
    have perm : entries.Perm metadata.entries := by
      refine (List.perm_ext_iff_of_nodup keys.of_map metadata.nodup_entries.of_map).mpr ?_
      rintro ⟨key, value⟩
      rw [mem_entries_iff, ← Except.ok.inj same, get?_foldl_insert keys,
        or_iff_left fun later => get?_empty key later.2]
    exact perm.map tagMember
  · intro perm
    obtain ⟨entries, rfl, same⟩ := exists_of_perm_map perm
    exact ⟨entries, rfl, congrArg Except.ok (foldl_insert_of_perm same)⟩

theorem isText_tagMember (entries : List (MetadataKey × String)) :
    ∀ member ∈ entries.map tagMember, ∃ content, member.2 = .text content :=
  List.forall_mem_map.mpr fun entry _ => ⟨entry.2, rfl⟩

theorem heedless_reader : reader.Heedless := by
  apply Reader.heedless_of_iff
  intro value distinct metadata
  cases value with
  | null | bool | number | text | array => rfl
  | object members =>
      have keys := (distinctKeys_object.mp distinct).1
      have isSorted := sorted_sortedMembers sorted_nil members
      rw [sorted, reader_eq_ok_iff isSorted.distinct, reader_eq_ok_iff keys,
        (perm_sortedMembers keys).congr_left, perm_texts_iff (isText_tagMember _)]

theorem distinct_tags (metadata : AlertMetadata) :
    Table.Distinct (metadata.entries.map tagMember) := by
  have names := metadata.nodup_entries.map fun _ _ => MetadataKey.name_injective
  rw [List.map_map] at names
  rwa [Table.Distinct, List.map_map]

theorem distinctKeys_toJson (metadata : AlertMetadata) : metadata.toJson.DistinctKeys :=
  distinctKeys_object.mpr
    ⟨metadata.distinct_tags, List.forall_mem_map.mpr fun _ _ => trivial⟩

theorem reader_toJson (metadata : AlertMetadata) :
    reader (Draft.ofJson metadata.toJson) = .ok metadata :=
  (reader_eq_ok_iff metadata.distinct_tags).mpr (List.Perm.refl _)

theorem integral_toJson (metadata : AlertMetadata) : metadata.toJson.Integral :=
  integralMembers_iff.mpr (List.forall_mem_map.mpr fun _ _ => trivial)

theorem depth_toJson (metadata : AlertMetadata) : metadata.toJson.depth ≤ 1 :=
  Nat.succ_le_succ (membersDepth_le_iff.mpr (List.forall_mem_map.mpr fun _ _ => Nat.le_refl 0))

end AlertMetadata

namespace AlertRecord

variable {value : Json}

def slots : List Slot := [summaryField.slot, contentField.slot, metadataField.slot]

theorem plain_slots : Record.Plain slots := ⟨by decide, by decide⟩

theorem reader_eq_ok_iff (distinct : value.DistinctKeys) {alert : AlertRecord} :
    reader (Draft.ofJson value) = .ok alert ↔
      Record.Fits slots value ∧
        Record.taken slots value summaryField = some alert.summary ∧
        Record.taken slots value contentField = some alert.content ∧
        Record.taken slots value metadataField = some alert.metadata := by
  apply Record.bind_present_eq_ok_iff plain_slots distinct
  · intro found get_iff
    simp only [bind_eq_ok_iff, get_iff summaryField (by simp [slots]),
      get_iff contentField (by simp [slots]), get_iff metadataField (by simp [slots])]
    constructor
    · rintro ⟨_, summary, _, content, _, metadata, same⟩
      obtain rfl := Except.ok.inj same
      exact ⟨summary, content, metadata⟩
    · rintro ⟨summary, content, metadata⟩
      exact ⟨_, summary, _, content, _, metadata, rfl⟩
  · rintro ⟨summary, content, metadata⟩
    simp only [slots, List.forall_mem_cons]
    exact ⟨fun _ => Record.accepts_of_taken summary, fun _ => Record.accepts_of_taken content,
      fun _ => Record.accepts_of_taken metadata, List.forall_mem_nil _⟩

theorem heedless_reader : reader.Heedless := by
  apply Reader.heedless_of_iff
  intro value distinct alert
  rw [reader_eq_ok_iff (sortedKeys_sorted value).distinctKeys, reader_eq_ok_iff distinct,
    Record.fits_sorted, Record.taken_sorted Reader.heedless_text distinct,
    Record.taken_sorted Reader.heedless_text distinct,
    Record.taken_sorted AlertMetadata.heedless_reader distinct]

theorem distinctKeys_toJson (alert : AlertRecord) : alert.toJson.DistinctKeys := by
  refine distinctKeys_object.mpr ⟨by simp [Table.Distinct], ?_⟩
  simp only [List.forall_mem_cons]
  exact ⟨trivial, trivial, alert.metadata.distinctKeys_toJson, List.forall_mem_nil _⟩

theorem reader_toJson (alert : AlertRecord) : reader (Draft.ofJson alert.toJson) = .ok alert := by
  rw [reader_eq_ok_iff alert.distinctKeys_toJson]
  exact ⟨trivial, Record.taken_of_given (by rfl) rfl, Record.taken_of_given (by rfl) rfl,
    Record.taken_of_given (by rfl) alert.metadata.reader_toJson⟩

theorem integral_toJson (alert : AlertRecord) : alert.toJson.Integral :=
  ⟨trivial, trivial, alert.metadata.integral_toJson, trivial⟩

theorem depth_toJson (alert : AlertRecord) : alert.toJson.depth ≤ Assembly.depthLimit := by
  have inside := alert.metadata.depth_toJson
  simp only [toJson, depth, membersDepth, Assembly.depthLimit] at inside ⊢
  omega

/-- An alert is read from every object that enlarges its encoding with what can be passed over. -/
theorem reader_of_enlarges {alert : AlertRecord} {draft : Draft}
    (enlarges : Enlarges alert.toJson draft) (skipped : draft.skip = .ok ()) :
    reader draft = .ok alert := by
  obtain ⟨rearranged, unknown, together⟩ := enlarges
  have names := rearranged.perm_names alert.distinctKeys_toJson
  have each := Draft.skip_object_eq_ok_iff.mp skipped
  obtain ⟨others, perm, same⟩ := plain_slots.exists_present_eq names unknown together
    fun member further => each member (together.mem_iff.mpr (List.mem_append_right _ further))
  have isRead := heedless_reader.rearranged (rearranged.trans (.members perm.symm))
    alert.distinctKeys_toJson alert.reader_toJson
  rw [reader] at isRead ⊢
  rw [← isRead]
  exact congrArg (· >>= _) same

end AlertRecord

end PlanSupervision
