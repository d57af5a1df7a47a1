import PlanSupervision.Proofs.Json.Aliases

/-!
Reading records. What a record is read from does not depend on the form it has: `given` is what
a value gives for a field, by name or by position, and `taken` is what the field makes of that.
A record is read exactly if its value fits and every field takes something.
-/

namespace PlanSupervision.Json

variable {Value : Type}

namespace Record

/-- Fields that go by one name each. -/
structure Plain (slots : List Slot) : Prop where
  distinct : (slots.map Slot.name).Nodup
  unaliased : ∀ slot ∈ slots, slot.aliases = []

/-- What a value gives for the field of a name. -/
def given (slots : List Slot) : Json → String → Option Json
  | .array items, name => ((slots.map Slot.name).zip items).lookup name
  | .object members, name => members.lookup name
  | _, _ => none

/-- A value that can be a record: of an array, as long as the fields allow. -/
def Fits (slots : List Slot) : Json → Prop
  | .array items =>
      items.length ≤ slots.length ∧ ∀ slot ∈ slots.drop items.length, slot.required = false
  | .object _ => True
  | _ => False

/-- What a field takes from a value. -/
def taken (slots : List Slot) (value : Json) (field : RecordField Value) : Option Value :=
  match given slots value field.name with
  | some inner => (field.read (Draft.ofJson inner)).toOption
  | none => field.absent

variable {slots : List Slot} {slot : Slot} {value inner : Json} {present found : Present}
  {members : List (String × Json)}

theorem Plain.apart (plain : Plain slots) : Apart slots := by
  have differ : slots.Pairwise fun slot other => slot.name ≠ other.name :=
    List.pairwise_map.mp plain.distinct
  refine differ.imp_of_mem fun member isOther different key isName => ?_
  rw [Slot.names, plain.unaliased _ member, List.mem_singleton] at isName
  rw [Slot.names, plain.unaliased _ isOther, List.mem_singleton, isName]
  exact different

theorem Plain.givenUnder_eq (plain : Plain slots) (member : slot ∈ slots)
    (distinct : Table.Distinct members) :
    givenUnder slot.names members = (members.lookup slot.name).toList := by
  rw [Slot.names, plain.unaliased slot member]
  induction members with
  | nil => rfl
  | cons entry rest inductionHypothesis =>
      obtain ⟨key, value⟩ := entry
      have others := inductionHypothesis distinct.of_cons
      rw [givenUnder_cons, others]
      by_cases here : slot.name = key
      · subst here
        have absent : rest.lookup slot.name = none :=
          Table.lookup_eq_none_iff.mpr (List.nodup_cons.mp distinct).1
        rw [List.lookup_cons_self, absent, if_pos (List.mem_singleton.mpr rfl)]
        rfl
      · have elsewhere : key ∉ [slot.name] := by simpa using Ne.symm here
        rw [Table.lookup_cons_of_ne here, if_neg elsewhere]

theorem lookup_readMembers (plain : Plain slots) (distinct : Table.Distinct members)
    (isRead : readMembers slots [] (Draft.ofMembers members) = .ok found)
    (member : slot ∈ slots) :
    found.lookup slot.name = (members.lookup slot.name).map Draft.ofJson := by
  have same := plain.apart.lookup_readMembers isRead member
  rw [plain.givenUnder_eq member distinct] at same
  simpa using congrArg List.head? same

theorem exists_readMembers (plain : Plain slots) (distinct : Table.Distinct members)
    (accepted : ∀ slot ∈ slots, ∀ inner, members.lookup slot.name = some inner →
      slot.accepts (Draft.ofJson inner) = .ok ()) :
    ∃ found, readMembers slots [] (Draft.ofMembers members) = .ok found := by
  apply plain.apart.exists_readMembers
  · intro slot member
    rw [plain.givenUnder_eq member distinct]
    cases members.lookup slot.name <;> simp
  · intro slot member value isGiven
    rw [plain.givenUnder_eq member distinct, Option.mem_toList] at isGiven
    exact accepted slot member value isGiven

theorem lookup_readItems {items : List Json} (distinct : (slots.map Slot.name).Nodup)
    (isRead : readItems true present slots (Draft.ofItems items) = .ok found) :
    Fits slots (.array items) ∧ ∀ name,
      found.lookup name =
        ((((slots.map Slot.name).zip items).lookup name).map Draft.ofJson).or
          (present.lookup name) := by
  induction slots generalizing present items with
  | nil =>
      cases items with
      | nil =>
          obtain rfl := Except.ok.inj isRead
          exact ⟨⟨Nat.le_refl 0, List.forall_mem_nil _⟩, fun _ => rfl⟩
      | cons item rest => cases isRead
  | cons slot slots inductionHypothesis =>
      obtain ⟨fresh, others⟩ := List.nodup_cons.mp distinct
      cases items with
      | nil =>
          rw [Draft.ofItems, readItems] at isRead
          cases needed : slot.required with
          | true =>
              rw [needed] at isRead
              cases isRead
          | false =>
              rw [needed] at isRead
              obtain ⟨⟨_, optional⟩, same⟩ := @inductionHypothesis _ [] others isRead
              refine ⟨⟨Nat.zero_le _, List.forall_mem_cons.mpr ⟨needed, optional⟩⟩, ?_⟩
              simpa using same
      | cons item rest =>
          rw [Draft.ofItems, readItems] at isRead
          obtain ⟨_, _, isRead⟩ := exists_of_bind_ok isRead
          obtain ⟨⟨short, optional⟩, same⟩ := inductionHypothesis others isRead
          refine ⟨⟨Nat.succ_le_succ short, optional⟩, fun name => ?_⟩
          rw [same, List.map_cons, List.zip_cons_cons]
          by_cases here : name = slot.name
          · subst here
            have absent : ((slots.map Slot.name).zip rest).lookup slot.name = none :=
              Table.lookup_eq_none_iff.mpr fun isKey => by
                obtain ⟨⟨_, _⟩, member, rfl⟩ := List.mem_map.mp isKey
                exact fresh (List.of_mem_zip member).1
            rw [absent, List.lookup_cons_self, List.lookup_cons_self]
            rfl
          · rw [Table.lookup_cons_of_ne here, Table.lookup_cons_of_ne here]

theorem exists_readItems {items : List Json} (distinct : (slots.map Slot.name).Nodup)
    (fits : Fits slots (.array items))
    (accepted : ∀ slot ∈ slots, ∀ inner,
      ((slots.map Slot.name).zip items).lookup slot.name = some inner →
        slot.accepts (Draft.ofJson inner) = .ok ()) :
    ∃ found, readItems true present slots (Draft.ofItems items) = .ok found := by
  obtain ⟨short, optional⟩ := fits
  induction slots generalizing present items with
  | nil =>
      cases items with
      | nil => exact ⟨present, rfl⟩
      | cons item rest => cases short
  | cons slot slots inductionHypothesis =>
      obtain ⟨fresh, others⟩ := List.nodup_cons.mp distinct
      cases items with
      | nil =>
          obtain ⟨needed, later⟩ := List.forall_mem_cons.mp optional
          rw [Draft.ofItems, readItems, needed]
          exact @inductionHypothesis _ [] others
            (fun slot member inner isGiven => by simp at isGiven) (Nat.zero_le _) later
      | cons item rest =>
          have first := accepted slot List.mem_cons_self item List.lookup_cons_self
          rw [Draft.ofItems, readItems, first]
          refine inductionHypothesis others (fun other member inner isGiven => ?_)
            (Nat.le_of_succ_le_succ short) optional
          apply accepted other (List.mem_cons_of_mem _ member)
          have different : other.name ≠ slot.name := by
            intro same
            exact fresh (same ▸ List.mem_map_of_mem member)
          rw [List.map_cons, List.zip_cons_cons, Table.lookup_cons_of_ne different]
          exact isGiven

/-- What is present is what the value gives. -/
theorem lookup_present (plain : Plain slots) (distinct : value.DistinctKeys)
    (isPresent : Record.present slots (Draft.ofJson value) = .ok found) :
    Fits slots value ∧ ∀ slot ∈ slots,
      found.lookup slot.name = (given slots value slot.name).map Draft.ofJson := by
  cases value with
  | null | bool | number | text => cases isPresent
  | array items =>
      obtain ⟨fits, same⟩ := lookup_readItems plain.distinct isPresent
      refine ⟨fits, fun slot _ => ?_⟩
      rw [same]
      exact Option.or_none
  | object members =>
      rw [present_object] at isPresent
      exact ⟨trivial, fun slot member =>
        lookup_readMembers plain (distinctKeys_object.mp distinct).1 isPresent member⟩

theorem exists_present (plain : Plain slots) (distinct : value.DistinctKeys)
    (fits : Fits slots value)
    (accepted : ∀ slot ∈ slots, ∀ inner, given slots value slot.name = some inner →
      slot.accepts (Draft.ofJson inner) = .ok ()) :
    ∃ found, Record.present slots (Draft.ofJson value) = .ok found := by
  cases value with
  | null | bool | number | text => cases fits
  | array items => exact exists_readItems plain.distinct fits accepted
  | object members =>
      rw [present_object]
      exact exists_readMembers plain (distinctKeys_object.mp distinct).1 accepted

theorem get_eq_ok_iff {field : RecordField Value} {content : Value}
    (same : found.lookup field.name = (given slots value field.name).map Draft.ofJson) :
    get found field = .ok content ↔ taken slots value field = some content := by
  rw [get, taken, same]
  cases given slots value field.name with
  | some inner => exact toOption_eq_some_iff.symm
  | none => cases field.absent <;> simp

/-- A record is read from a value that fits, each field from what it takes. -/
theorem bind_present_eq_ok_iff {Taken : Prop} {content : Value}
    {fill : Present → Except Fault Value} (plain : Plain slots) (distinct : value.DistinctKeys)
    (fills : ∀ found : Present,
      (∀ {Content : Type} (field : RecordField Content), field.slot ∈ slots → ∀ content,
        get found field = .ok content ↔ taken slots value field = some content) →
      (fill found = .ok content ↔ Taken))
    (accepted : Taken → ∀ slot ∈ slots, ∀ inner, given slots value slot.name = some inner →
      slot.accepts (Draft.ofJson inner) = .ok ()) :
    (Record.present slots (Draft.ofJson value) >>= fill) = .ok content ↔
      Fits slots value ∧ Taken := by
  constructor
  · intro isRead
    obtain ⟨found, isPresent, isRead⟩ := exists_of_bind_ok isRead
    obtain ⟨fits, same⟩ := lookup_present plain distinct isPresent
    refine ⟨fits, (fills found fun field member content => ?_).mp isRead⟩
    exact get_eq_ok_iff (same field.slot member)
  · rintro ⟨fits, isTaken⟩
    obtain ⟨found, isPresent⟩ := exists_present plain distinct fits (accepted isTaken)
    obtain ⟨_, same⟩ := lookup_present plain distinct isPresent
    rw [isPresent]
    refine (fills found fun field member content => ?_).mpr isTaken
    exact get_eq_ok_iff (same field.slot member)

/-- A field that takes something accepts what the value gives for it. -/
theorem accepts_of_taken {field : RecordField Value} {content : Value}
    (takes : taken slots value field = some content)
    (isGiven : given slots value field.name = some inner) :
    field.slot.accepts (Draft.ofJson inner) = .ok () := by
  rw [taken, isGiven] at takes
  exact accepts_of_read (toOption_eq_some_iff.mp takes)

/-- A field that is given what reads as its content takes it. -/
theorem taken_of_given {field : RecordField Value} {content : Value}
    (isGiven : given slots value field.name = some inner)
    (isRead : field.read (Draft.ofJson inner) = .ok content) :
    taken slots value field = some content := by
  rw [taken, isGiven]
  exact toOption_eq_some_iff.mpr isRead

/-- Whether a value can be a record depends on which fields are required. -/
theorem fits_congr {others : List Slot}
    (same : slots.map Slot.required = others.map Slot.required) :
    Fits slots value ↔ Fits others value := by
  cases value with
  | null | bool | number | text | object => rfl
  | array items =>
      have lengths := congrArg List.length same
      have dropped := congrArg (List.drop items.length) same
      rw [List.length_map, List.length_map] at lengths
      rw [← List.map_drop, ← List.map_drop] at dropped
      rw [Fits, Fits, lengths]
      apply and_congr_right
      intro _
      have optional : ∀ list : List Slot, (∀ slot ∈ list, slot.required = false) ↔
          ∀ needed ∈ list.map Slot.required, needed = false := by
        intro list
        rw [List.forall_mem_map]
      rw [optional, optional, dropped]

theorem fits_sorted : Fits slots value.sorted ↔ Fits slots value := by
  cases value with
  | null | bool | number | text | object => rfl
  | array items =>
      rw [sorted, sortedItems_eq_map, Fits, Fits, List.length_map]

theorem given_sorted (distinct : value.DistinctKeys) (name : String) :
    given slots value.sorted name = (given slots value name).map sorted := by
  cases value with
  | null | bool | number | text => rfl
  | array items =>
      rw [sorted, sortedItems_eq_map, given, given, List.zip_map_right]
      exact Table.lookup_map sorted _ name
  | object members => exact lookup_sorted (distinctKeys_object.mp distinct).1 name

theorem distinctKeys_given (distinct : value.DistinctKeys) {name : String}
    (isGiven : given slots value name = some inner) : inner.DistinctKeys := by
  cases value with
  | null | bool | number | text => cases isGiven
  | array items =>
      have member := List.of_mem_zip (Table.mem_of_lookup isGiven)
      exact distinctKeys_array.mp distinct inner member.2
  | object members =>
      exact (distinctKeys_object.mp distinct).2 _ (Table.mem_of_lookup isGiven)

theorem taken_sorted {field : RecordField Value} (heedless : field.read.Heedless)
    (distinct : value.DistinctKeys) : taken slots value.sorted field = taken slots value field := by
  rw [taken, taken, given_sorted distinct]
  cases isGiven : given slots value field.name with
  | none => rfl
  | some inner => exact heedless inner (distinctKeys_given distinct isGiven)

end Record

end PlanSupervision.Json
