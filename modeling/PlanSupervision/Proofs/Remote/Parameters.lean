import PlanSupervision.Proofs.Json.Records
import PlanSupervision.Remote.Alert

/-!
Which parameters identify a sample. The tags of an alert are told from three parameters, given
by name or by position; if one of them is missing, given twice or no tag, there are no tags.
-/

namespace PlanSupervision.AlertMetadata

open Json

/-- A value that is a tag, and its text. -/
inductive IsTag : Json → String → Prop where
  | text (content : String) : IsTag (.text content) content
  | integer {value : Int} (least : -9223372036854775808 ≤ value)
      (greatest : value ≤ 9223372036854775807) :
      IsTag (.number (.integer value)) (toString value)

/-- Parameters with the three tags: an object that gives each of them under exactly one of its
names, exactly once, or an array of the three. -/
inductive Identifies : Json → String → String → String → Prop where
  | byName {members : List (String × Json)} {first second third : Json}
      {sampleId visit container : String}
      (givesSampleId : givenUnder ["sample_id"] members = [first])
      (givesVisit : givenUnder ["visit", "visit_id"] members = [second])
      (givesContainer :
        givenUnder ["container", "sample_puck", "container_id"] members = [third])
      (isSampleId : IsTag first sampleId) (isVisit : IsTag second visit)
      (isContainer : IsTag third container) :
      Identifies (.object members) sampleId visit container
  | byPosition {first second third : Json} {sampleId visit container : String}
      (isSampleId : IsTag first sampleId) (isVisit : IsTag second visit)
      (isContainer : IsTag third container) :
      Identifies (.array [first, second, third]) sampleId visit container

variable {value parameters : Json} {content sampleId visit container : String}

theorem readTag_eq_ok_iff : readTag (Draft.ofJson value) = .ok content ↔ IsTag value content := by
  constructor
  · intro isRead
    match value with
    | .text found =>
        obtain rfl := Except.ok.inj isRead
        exact .text found
    | .number (.integer value) =>
        rw [Draft.ofJson, readTag] at isRead
        split at isRead
        next inRange =>
          obtain rfl := Except.ok.inj isRead
          exact .integer inRange.1 (Int.le_of_lt_add_one inRange.2)
        next => cases isRead
  · rintro (_ | ⟨least, greatest⟩)
    · rfl
    · exact if_pos ⟨least, Int.lt_add_one_of_le greatest⟩

def tagSlots : List Slot := [sampleIdField.slot, visitField.slot, containerField.slot]

theorem apart_tagSlots : Record.Apart tagSlots := by
  simp [Record.Apart, tagSlots, Slot.names, RecordField.slot, sampleIdField, visitField,
    containerField, RecordField.required]

theorem accepts_of_isTag {field : RecordField String} (reads : field.read = readTag)
    (isTag : IsTag value content) : field.slot.accepts (Draft.ofJson value) = .ok () := by
  apply Record.accepts_of_read
  rw [reads]
  exact readTag_eq_ok_iff.mpr isTag

theorem get_eq_ok_iff {members : List (String × Json)} {found : Record.Present}
    (isRead : Record.readMembers tagSlots [] (Draft.ofMembers members) = .ok found)
    {field : RecordField String} (member : field.slot ∈ tagSlots) (needed : field.absent = none)
    (reads : field.read = readTag) :
    Record.get found field = .ok content ↔
      ∃ value, givenUnder field.slot.names members = [value] ∧ IsTag value content := by
  rw [apart_tagSlots.get_eq_ok_iff isRead member needed, reads]
  simp only [readTag_eq_ok_iff]

theorem parameterReader_eq_ok_iff {draft : Draft} {metadata : AlertMetadata} :
    parameterReader draft = .ok metadata ↔
      ∃ found, Record.present tagSlots draft = .ok found ∧
        ∃ sampleId, Record.get found sampleIdField = .ok sampleId ∧
          ∃ visit, Record.get found visitField = .ok visit ∧
            ∃ container, Record.get found containerField = .ok container ∧
              ⟨some sampleId, some visit, some container⟩ = metadata := by
  simp only [parameterReader, bind_eq_ok_iff, pure, Except.pure, Except.ok.injEq, tagSlots]

/-- These are the tags that the parameters give. -/
def Gives (parameters : Json) (metadata : AlertMetadata) : Prop :=
  ∃ sampleId visit container, Identifies parameters sampleId visit container ∧
    ⟨some sampleId, some visit, some container⟩ = metadata

theorem gives_of_readMembers {members : List (String × Json)} {metadata : AlertMetadata}
    (isRead : parameterReader (Draft.ofJson (.object members)) = .ok metadata) :
    Gives (.object members) metadata := by
  rw [parameterReader_eq_ok_iff, Record.present_object] at isRead
  obtain ⟨found, isRead, sampleId, getsSampleId, visit, getsVisit, container, getsContainer,
    rfl⟩ := isRead
  obtain ⟨first, givesSampleId, isSampleId⟩ :=
    (get_eq_ok_iff isRead (by simp [tagSlots]) rfl rfl).mp getsSampleId
  obtain ⟨second, givesVisit, isVisit⟩ :=
    (get_eq_ok_iff isRead (by simp [tagSlots]) rfl rfl).mp getsVisit
  obtain ⟨third, givesContainer, isContainer⟩ :=
    (get_eq_ok_iff isRead (by simp [tagSlots]) rfl rfl).mp getsContainer
  exact ⟨sampleId, visit, container,
    .byName givesSampleId givesVisit givesContainer isSampleId isVisit isContainer, rfl⟩

/-- An array that is long enough for the three tags and no longer. -/
theorem exists_of_fits {items : List Json} (fits : Record.Fits tagSlots (.array items)) :
    ∃ first second third, items = [first, second, third] := by
  obtain ⟨short, optional⟩ := fits
  have long : 3 ≤ items.length := by
    by_contra shorter
    have last : containerField.slot ∈ tagSlots.drop items.length := by
      match items with
      | [] | [_] | [_, _] => simp [tagSlots]
      | _ :: _ :: _ :: _ => simp at shorter
    cases optional _ last
  have three : items.length = 3 := Nat.le_antisymm short long
  exact List.length_eq_three.mp three

theorem get_eq_ok_iff_of_lookup {found : Record.Present} {field : RecordField String}
    (isFound : found.lookup field.name = some (Draft.ofJson value))
    (reads : field.read = readTag) :
    Record.get found field = .ok content ↔ IsTag value content := by
  rw [Record.get, isFound, reads]
  exact readTag_eq_ok_iff

theorem gives_of_readItems {items : List Json} {metadata : AlertMetadata}
    (isRead : parameterReader (Draft.ofJson (.array items)) = .ok metadata) :
    Gives (.array items) metadata := by
  rw [parameterReader_eq_ok_iff] at isRead
  obtain ⟨found, isRead, sampleId, getsSampleId, visit, getsVisit, container, getsContainer,
    rfl⟩ := isRead
  obtain ⟨fits, same⟩ := Record.lookup_readItems (by decide) isRead
  obtain ⟨first, second, third, rfl⟩ := exists_of_fits fits
  have isSampleId := (get_eq_ok_iff_of_lookup (same _) rfl).mp getsSampleId
  have isVisit := (get_eq_ok_iff_of_lookup (same _) rfl).mp getsVisit
  have isContainer := (get_eq_ok_iff_of_lookup (same _) rfl).mp getsContainer
  exact ⟨sampleId, visit, container, .byPosition isSampleId isVisit isContainer, rfl⟩

theorem reads_byName {members : List (String × Json)} {first second third : Json}
    (givesSampleId : givenUnder ["sample_id"] members = [first])
    (givesVisit : givenUnder ["visit", "visit_id"] members = [second])
    (givesContainer : givenUnder ["container", "sample_puck", "container_id"] members = [third])
    (isSampleId : IsTag first sampleId) (isVisit : IsTag second visit)
    (isContainer : IsTag third container) :
    parameterReader (Draft.ofJson (.object members)) =
      .ok ⟨some sampleId, some visit, some container⟩ := by
  have given : ∀ slot ∈ tagSlots, ∃ value, givenUnder slot.names members = [value] ∧
      slot.accepts (Draft.ofJson value) = .ok () := by
    simp only [tagSlots, List.forall_mem_cons]
    exact ⟨⟨first, givesSampleId, accepts_of_isTag rfl isSampleId⟩,
      ⟨second, givesVisit, accepts_of_isTag rfl isVisit⟩,
      ⟨third, givesContainer, accepts_of_isTag rfl isContainer⟩, List.forall_mem_nil _⟩
  obtain ⟨found, isRead⟩ : ∃ found,
      Record.readMembers tagSlots [] (Draft.ofMembers members) = .ok found := by
    apply apart_tagSlots.exists_readMembers
    · intro slot member
      obtain ⟨value, alone, _⟩ := given slot member
      simp [alone]
    · intro slot member other isGiven
      obtain ⟨value, alone, accepted⟩ := given slot member
      rw [alone, List.mem_singleton] at isGiven
      rwa [isGiven]
  rw [parameterReader_eq_ok_iff, Record.present_object]
  refine ⟨found, isRead, sampleId, ?_, visit, ?_, container, ?_, rfl⟩
  · exact (get_eq_ok_iff isRead (by simp [tagSlots]) rfl rfl).mpr ⟨_, givesSampleId, isSampleId⟩
  · exact (get_eq_ok_iff isRead (by simp [tagSlots]) rfl rfl).mpr ⟨_, givesVisit, isVisit⟩
  · exact (get_eq_ok_iff isRead (by simp [tagSlots]) rfl rfl).mpr
      ⟨_, givesContainer, isContainer⟩

theorem reads_byPosition {first second third : Json} (isSampleId : IsTag first sampleId)
    (isVisit : IsTag second visit) (isContainer : IsTag third container) :
    parameterReader (Draft.ofJson (.array [first, second, third])) =
      .ok ⟨some sampleId, some visit, some container⟩ := by
  have fits : Record.Fits tagSlots (.array [first, second, third]) :=
    ⟨Nat.le_refl 3, List.forall_mem_nil _⟩
  have given : ∀ slot ∈ tagSlots, ∃ value,
      ((tagSlots.map Slot.name).zip [first, second, third]).lookup slot.name = some value ∧
        slot.accepts (Draft.ofJson value) = .ok () := by
    simp only [tagSlots, List.forall_mem_cons]
    exact ⟨⟨first, rfl, accepts_of_isTag rfl isSampleId⟩,
      ⟨second, rfl, accepts_of_isTag rfl isVisit⟩,
      ⟨third, rfl, accepts_of_isTag rfl isContainer⟩, List.forall_mem_nil _⟩
  have accepted : ∀ slot ∈ tagSlots, ∀ value,
      ((tagSlots.map Slot.name).zip [first, second, third]).lookup slot.name = some value →
        slot.accepts (Draft.ofJson value) = .ok () := by
    intro slot member other isGiven
    obtain ⟨value, same, accepted⟩ := given slot member
    obtain rfl := Option.some.inj (same.symm.trans isGiven)
    exact accepted
  obtain ⟨found, isRead⟩ := @Record.exists_readItems _ [] _ (by decide) fits accepted
  obtain ⟨_, same⟩ := Record.lookup_readItems (by decide) isRead
  rw [parameterReader_eq_ok_iff]
  refine ⟨found, isRead, sampleId, ?_, visit, ?_, container, ?_, rfl⟩
  · exact (get_eq_ok_iff_of_lookup (same _) rfl).mpr isSampleId
  · exact (get_eq_ok_iff_of_lookup (same _) rfl).mpr isVisit
  · exact (get_eq_ok_iff_of_lookup (same _) rfl).mpr isContainer

theorem reads_of_identifies (identifies : Identifies parameters sampleId visit container) :
    parameterReader (Draft.ofJson parameters) =
      .ok ⟨some sampleId, some visit, some container⟩ := by
  cases identifies with
  | byName givesSampleId givesVisit givesContainer isSampleId isVisit isContainer =>
      exact reads_byName givesSampleId givesVisit givesContainer isSampleId isVisit isContainer
  | byPosition isSampleId isVisit isContainer =>
      exact reads_byPosition isSampleId isVisit isContainer

theorem gives_of_read {metadata : AlertMetadata}
    (isRead : parameterReader (Draft.ofJson parameters) = .ok metadata) :
    Gives parameters metadata := by
  cases parameters with
  | object members => exact gives_of_readMembers isRead
  | array items => exact gives_of_readItems isRead
  | null | bool | number | text => cases isRead

/-- The keys that are a name of one of the tags. -/
def tagNames : List String :=
  ["sample_id", "visit", "visit_id", "container", "sample_puck", "container_id"]

/-- What an object gives under the names of a tag does not depend on its other members. -/
theorem givenUnder_of_perm {names : List String} {members others : List (String × Json)}
    (areNames : ∀ name ∈ names, name ∈ tagNames)
    (same : (members.filter (·.1 ∈ tagNames)).Perm (others.filter (·.1 ∈ tagNames)))
    (given : givenUnder names members = [value]) : givenUnder names others = [value] := by
  have restricted : ∀ list : List (String × Json),
      givenUnder names (list.filter (·.1 ∈ tagNames)) = givenUnder names list := by
    intro list
    rw [givenUnder, List.filter_filter]
    congr 1
    refine List.filter_congr fun member _ => ?_
    by_cases isName : member.1 ∈ names
    · simp [isName, areNames]
    · simp [isName]
  have perm := (same.filter (·.1 ∈ names)).map Prod.snd
  change (givenUnder names _).Perm (givenUnder names _) at perm
  rw [restricted, restricted, given] at perm
  exact List.perm_singleton.mp perm.symm

theorem Identifies.of_perm {members others : List (String × Json)}
    (same : (members.filter (·.1 ∈ tagNames)).Perm (others.filter (·.1 ∈ tagNames)))
    (identifies : Identifies (.object members) sampleId visit container) :
    Identifies (.object others) sampleId visit container := by
  cases identifies with
  | byName givesSampleId givesVisit givesContainer isSampleId isVisit isContainer =>
      exact .byName (givenUnder_of_perm (by simp [tagNames]) same givesSampleId)
        (givenUnder_of_perm (by simp [tagNames]) same givesVisit)
        (givenUnder_of_perm (by simp [tagNames]) same givesContainer) isSampleId isVisit isContainer

theorem ofParameters_of_identifies (identifies : Identifies parameters sampleId visit container) :
    ofParameters parameters = ⟨some sampleId, some visit, some container⟩ := by
  rw [ofParameters, readJson, reads_of_identifies identifies]

theorem ofParameters_of_not_identifies
    (foreign : ¬ ∃ sampleId visit container, Identifies parameters sampleId visit container) :
    ofParameters parameters = empty := by
  rw [ofParameters, readJson]
  cases isRead : parameterReader (Draft.ofJson parameters) with
  | error fault => rfl
  | ok metadata =>
      obtain ⟨sampleId, visit, container, identifies, _⟩ := gives_of_read isRead
      exact absurd ⟨sampleId, visit, container, identifies⟩ foreign

/-- Of any parameters there are all three tags or none. There are tags exactly if the parameters
identify a sample, and then they are the texts of what identifies it; of an object, no member
under another key has an influence. -/
theorem tags_of_parameters :
    (∀ parameters : Json,
      ((ofParameters parameters).entries = [] ∨
        (ofParameters parameters).entries.map Prod.fst = [.sampleId, .visit, .container]) ∧
      ((ofParameters parameters).entries ≠ [] ↔
        ∃ sampleId visit container, Identifies parameters sampleId visit container) ∧
      ∀ sampleId visit container, Identifies parameters sampleId visit container →
        (ofParameters parameters).entries =
          [(.sampleId, sampleId), (.visit, visit), (.container, container)]) ∧
    ∀ members others : List (String × Json),
      (members.filter (·.1 ∈ tagNames)).Perm (others.filter (·.1 ∈ tagNames)) →
        ofParameters (.object members) = ofParameters (.object others) := by
  have entries : ∀ {parameters sampleId visit container},
      Identifies parameters sampleId visit container →
        (ofParameters parameters).entries =
          [(.sampleId, sampleId), (.visit, visit), (.container, container)] := by
    intro parameters sampleId visit container identifies
    rw [ofParameters_of_identifies identifies]
    rfl
  have nothing : ∀ {parameters},
      (¬ ∃ sampleId visit container, Identifies parameters sampleId visit container) →
        (ofParameters parameters).entries = [] := by
    intro parameters foreign
    rw [ofParameters_of_not_identifies foreign]
    rfl
  refine ⟨fun parameters => ⟨?_, ⟨?_, ?_⟩, fun _ _ _ => entries⟩, fun members others same => ?_⟩
  · by_cases identified : ∃ sampleId visit container,
        Identifies parameters sampleId visit container
    · obtain ⟨sampleId, visit, container, identifies⟩ := identified
      rw [entries identifies]
      exact .inr rfl
    · exact .inl (nothing identified)
  · exact fun tagged => not_imp_comm.mp nothing tagged
  · rintro ⟨sampleId, visit, container, identifies⟩
    rw [entries identifies]
    exact List.cons_ne_nil _ _
  · by_cases identified : ∃ sampleId visit container,
        Identifies (.object members) sampleId visit container
    · obtain ⟨sampleId, visit, container, identifies⟩ := identified
      rw [ofParameters_of_identifies identifies,
        ofParameters_of_identifies (identifies.of_perm same)]
    · have alsoForeign : ¬ ∃ sampleId visit container,
          Identifies (.object others) sampleId visit container := by
        rintro ⟨sampleId, visit, container, identifies⟩
        exact identified ⟨sampleId, visit, container, identifies.of_perm same.symm⟩
      rw [ofParameters_of_not_identifies identified, ofParameters_of_not_identifies alsoForeign]

end PlanSupervision.AlertMetadata
