import PlanSupervision.Proofs.Json.Sorting

/-!
Reading does not heed the order of members. A reader that is given a value in which no object
repeats a key gives what it gives for the value with its members sorted; of a record this holds
field by field, whether the fields come by name or by position.
-/

namespace PlanSupervision.Json

variable {Value Other : Type}

theorem toOption_bind {first : Except Fault Value} {second : Value → Except Fault Other} :
    (first >>= second).toOption = first.toOption.bind fun value => (second value).toOption := by
  cases first <;> rfl

theorem toOption_map {read : Except Fault Value} {change : Value → Other} :
    (change <$> read).toOption = read.toOption.map change := by
  cases read <;> rfl

theorem map_eq_ok_iff {read : Except Fault Value} {change : Value → Other} {other : Other} :
    change <$> read = .ok other ↔ ∃ value, read = .ok value ∧ change value = other := by
  cases read <;> simp [Functor.map, Except.map]

theorem toOption_eq_some_iff {read : Except Fault Value} {value : Value} :
    read.toOption = some value ↔ read = .ok value := by
  cases read <;> simp [Except.toOption]

theorem readText_of_draft {read : Reader Value} {source : String} {draft : Draft}
    (isDraft : Draft.ofText source = (draft, true)) : readText read source = read draft := by
  rw [readText, isDraft]
  dsimp only
  cases read draft <;> rfl

namespace Reader

/-- One reader gives for a value what another gives for the value with its members sorted. -/
def Agrees (read other : Reader Value) (value : Json) : Prop :=
  (other (Draft.ofJson value.sorted)).toOption = (read (Draft.ofJson value)).toOption

/-- The reader does not heed the order of members. -/
def Heedless (read : Reader Value) : Prop := ∀ value : Json, value.DistinctKeys → read.Agrees read value

theorem heedless_of_iff {read : Reader Value}
    (same : ∀ {value : Json}, value.DistinctKeys → ∀ content,
      read (Draft.ofJson value.sorted) = .ok content ↔ read (Draft.ofJson value) = .ok content) :
    read.Heedless := by
  intro value distinct
  apply Option.ext
  intro content
  rw [toOption_eq_some_iff, toOption_eq_some_iff]
  exact same distinct content

theorem Heedless.eq_ok_iff {read : Reader Value} (heedless : read.Heedless) {value : Json}
    (distinct : value.DistinctKeys) {content : Value} :
    read (Draft.ofJson value.sorted) = .ok content ↔ read (Draft.ofJson value) = .ok content := by
  have same : (read (Draft.ofJson value.sorted)).toOption = _ := heedless value distinct
  rw [← toOption_eq_some_iff, same, toOption_eq_some_iff]

theorem Heedless.map {read : Reader Value} (heedless : read.Heedless) (change : Value → Other) :
    Reader.Heedless fun draft => change <$> read draft := by
  intro value distinct
  rw [Agrees, toOption_map, toOption_map, heedless value distinct]

theorem text_eq_ok_iff {value : Json} {content : String} :
    text (Draft.ofJson value) = .ok content ↔ value = .text content := by
  cases value <;> simp [Draft.ofJson, text, mismatch]

theorem heedless_text : text.Heedless := by
  rintro (_ | _ | _ | _ | _ | _) _ <;> rfl

theorem heedless_json : json.Heedless := by
  intro value _
  rw [Agrees, json, toJson_ofJson, toJson_ofJson, (sortedKeys_sorted value).sorted_eq]

theorem Heedless.optional {read : Reader Value} (heedless : read.Heedless) :
    (optional read).Heedless := by
  intro value distinct
  have inside := congrArg (Option.map some) (heedless value distinct)
  rw [← toOption_map, ← toOption_map] at inside
  cases value with
  | null => rfl
  | bool | number | text | array | object => exact inside

theorem Heedless.list {read : Reader Value} (heedless : read.Heedless) : (list read).Heedless := by
  intro value distinct
  cases value with
  | null | bool | number | text | object => rfl
  | array items =>
      have each := distinctKeys_array.mp distinct
      have all : (readItems read (Draft.ofItems (sortedItems items))).toOption =
          (readItems read (Draft.ofItems items)).toOption := by
        clear distinct
        induction items with
        | nil => rfl
        | cons item rest inductionHypothesis =>
            obtain ⟨first, others⟩ := List.forall_mem_cons.mp each
            have same : (read (Draft.ofJson item.sorted)).toOption = _ := heedless item first
            rw [sortedItems, Draft.ofItems, Draft.ofItems, readItems, readItems, toOption_bind,
              toOption_bind, same]
            simp only [toOption_bind, inductionHypothesis others]
      rw [Agrees, sorted, Draft.ofJson, Draft.ofJson, Reader.list, Reader.list, toOption_bind,
        toOption_bind, all]

theorem readMembers_cons (read : Reader Value) (name : String) (value : Json)
    (rest : List (String × Json)) :
    readMembers .ok read (Draft.ofMembers ((name, value) :: rest)) = do
      let value ← read (Draft.ofJson value)
      let rest ← readMembers .ok read (Draft.ofMembers rest)
      return (name, value) :: rest := rfl

/-- The members of a table are read if every one of them can be. -/
theorem readMembers_eq_ok_iff {read : Reader Value} {members : List (String × Json)} :
    (∃ entries, readMembers .ok read (Draft.ofMembers members) = .ok entries) ↔
      ∀ member ∈ members, ∃ value, read (Draft.ofJson member.2) = .ok value := by
  induction members with
  | nil => exact ⟨fun _ => List.forall_mem_nil _, fun _ => ⟨[], rfl⟩⟩
  | cons member rest inductionHypothesis =>
      obtain ⟨name, written⟩ := member
      rw [List.forall_mem_cons, ← inductionHypothesis, readMembers_cons]
      constructor
      · rintro ⟨entries, isRead⟩
        obtain ⟨value, first, isRead⟩ := exists_of_bind_ok isRead
        obtain ⟨later, others, _⟩ := exists_of_bind_ok isRead
        exact ⟨⟨value, first⟩, later, others⟩
      · rintro ⟨⟨value, first⟩, later, others⟩
        refine ⟨(name, value) :: later, ?_⟩
        rw [first, others]
        rfl

theorem lookup_readMembers {read : Reader Value} {members : List (String × Json)}
    {entries : List (String × Value)}
    (isRead : readMembers .ok read (Draft.ofMembers members) = .ok entries) :
    entries.map Prod.fst = members.map Prod.fst ∧
      ∀ key, (entries.lookup key).map some =
        (members.lookup key).map fun value => (read (Draft.ofJson value)).toOption := by
  induction members generalizing entries with
  | nil =>
      cases isRead
      exact ⟨rfl, fun _ => rfl⟩
  | cons member rest inductionHypothesis =>
      obtain ⟨name, written⟩ := member
      rw [readMembers_cons] at isRead
      obtain ⟨value, first, isRead⟩ := exists_of_bind_ok isRead
      obtain ⟨later, others, same⟩ := exists_of_bind_ok isRead
      obtain rfl := Except.ok.inj same
      obtain ⟨keys, found⟩ := inductionHypothesis others
      refine ⟨by simp [keys], fun key => ?_⟩
      by_cases here : key = name
      · subst here
        rw [List.lookup_cons_self, List.lookup_cons_self, Option.map_some, Option.map_some,
          first]
        rfl
      · rw [Table.lookup_cons_of_ne here, Table.lookup_cons_of_ne here, found]

theorem Heedless.table {read : Reader Value} (heedless : read.Heedless) :
    (table read).Heedless := by
  intro value distinct
  cases value with
  | null | bool | number | text | array => rfl
  | object members =>
      obtain ⟨keys, values⟩ := distinctKeys_object.mp distinct
      have perm := perm_sortedMembers keys
      have same : ∀ member ∈ members, (read (Draft.ofJson member.2.sorted)).toOption =
          (read (Draft.ofJson member.2)).toOption :=
        fun member isMember => heedless member.2 (values member isMember)
      have together : (∃ entries, readMembers .ok read
          (Draft.ofMembers (sortedMembers [] members)) = .ok entries) ↔
          ∃ entries, readMembers .ok read (Draft.ofMembers members) = .ok entries := by
        rw [readMembers_eq_ok_iff, readMembers_eq_ok_iff]
        simp only [perm.mem_iff, List.forall_mem_map, ← toOption_eq_some_iff]
        exact forall₂_congr fun member isMember => by rw [same member isMember]
      have reading : ∀ members : List (String × Json),
          Reader.table read (Draft.ofJson (.object members)) =
            (readMembers .ok read (Draft.ofMembers members)).map Table.ofList := by
        intro members
        rw [Reader.table, Draft.ofJson, Reader.members]
        cases readMembers .ok read (Draft.ofMembers members) <;> rfl
      rw [Agrees, sorted, reading, reading]
      cases former : readMembers .ok read (Draft.ofMembers members) with
      | error fault =>
          cases latter : readMembers .ok read (Draft.ofMembers (sortedMembers [] members)) with
          | error _ => rfl
          | ok entries =>
              obtain ⟨_, read⟩ := together.mp ⟨entries, latter⟩
              rw [former] at read
              cases read
      | ok entries =>
          obtain ⟨others, latter⟩ := together.mpr ⟨entries, former⟩
          obtain ⟨names, found⟩ := lookup_readMembers former
          obtain ⟨otherNames, otherFound⟩ := lookup_readMembers latter
          rw [latter]
          refine congrArg some (Table.ofList_eq_of_lookup_eq ?_ ?_ fun key => ?_)
          · rw [Table.Distinct, otherNames]
            exact (sorted_sortedMembers sorted_nil members).distinct
          · rwa [Table.Distinct, names]
          · apply Option.map_injective (fun _ _ => Option.some.inj)
            rw [otherFound, found, lookup_sorted keys, Option.map_map]
            cases here : members.lookup key with
            | none => rfl
            | some value => exact congrArg some (same _ (Table.mem_of_lookup here))

theorem named_eq_ok_iff {names : List (String × Value)} {found : String} {value : Value} :
    named names found = .ok value ↔ names.lookup found = some value := by
  rw [named]
  cases names.lookup found <;> simp

theorem heedless_name (names : List (String × Value)) : (name names).Heedless := by
  rintro (_ | _ | _ | _ | _ | _) _ <;> rfl

theorem nothing_eq_ok_iff {value : Json} : nothing (Draft.ofJson value) = .ok () ↔ value = null := by
  cases value <;> simp [Draft.ofJson, nothing, mismatch]

theorem nothingHeldBack_eq_ok_iff {value : Json} :
    nothingHeldBack (Draft.ofJson value) = .ok () ↔ value = null ∨ value = object [] := by
  cases value with
  | object members =>
      cases members <;>
        simp [Draft.ofJson, Draft.ofMembers, nothingHeldBack, nothing, mismatch]
  | null | bool | number | text | array =>
      simp [Draft.ofJson, nothingHeldBack, nothing, mismatch]

/-- What a variant is read from: its name alone, or its name as the key of a payload. -/
theorem variantOf_eq_ok_iff {readPayload : Reader Unit} {names : List (String × Value)}
    {written : Json} {chosen : Value} :
    variantOf readPayload names (Draft.ofJson written) = .ok chosen ↔
      ∃ found, names.lookup found = some chosen ∧
        (written = .text found ∨
          ∃ payload, written = .object [(found, payload)] ∧
            readPayload (Draft.ofJson payload) = .ok ()) := by
  constructor
  · intro isRead
    match written with
    | .text found => exact ⟨found, named_eq_ok_iff.mp isRead, .inl rfl⟩
    | .object ((found, payload) :: rest) =>
        rw [Draft.ofJson, Draft.ofMembers, variantOf] at isRead
        obtain ⟨key, same, isRead⟩ := exists_of_bind_ok isRead
        obtain rfl := Except.ok.inj same
        obtain ⟨value, isNamed, isRead⟩ := exists_of_bind_ok isRead
        obtain ⟨_, isPayload, isRead⟩ := exists_of_bind_ok isRead
        cases rest with
        | nil =>
            obtain rfl := Except.ok.inj isRead
            exact ⟨found, named_eq_ok_iff.mp isNamed, .inr ⟨payload, rfl, isPayload⟩⟩
        | cons member rest => cases isRead
  · rintro ⟨found, isNamed, rfl | ⟨payload, rfl, isPayload⟩⟩
    · exact named_eq_ok_iff.mpr isNamed
    · have chosenName := named_eq_ok_iff.mpr isNamed
      simp only [Draft.ofJson, Draft.ofMembers, variantOf, readKey, bind, Except.bind, chosenName,
        isPayload]
      rfl

theorem sorted_eq_text_iff {value : Json} {content : String} :
    value.sorted = .text content ↔ value = .text content := by
  cases value <;> simp [sorted]

theorem sorted_eq_singleton_iff {value payload : Json} {key : String}
    (distinct : value.DistinctKeys) :
    value.sorted = .object [(key, payload)] ↔
      ∃ inner, value = .object [(key, inner)] ∧ inner.sorted = payload := by
  cases value with
  | null | bool | number | text | array => simp [sorted]
  | object members =>
      have perm := perm_sortedMembers (distinctKeys_object.mp distinct).1
      constructor
      · intro same
        rw [object.inj same, List.singleton_perm] at perm
        obtain ⟨⟨other, inner⟩, rfl, alike⟩ := List.map_eq_singleton_iff.mp perm.symm
        obtain ⟨rfl, rfl⟩ := Prod.mk.inj alike
        exact ⟨inner, rfl, rfl⟩
      · rintro ⟨inner, same, rfl⟩
        rw [object.inj same]
        rfl

theorem Heedless.variantOf {readPayload : Reader Unit} (heedless : readPayload.Heedless)
    (names : List (String × Value)) : (variantOf readPayload names).Heedless := by
  apply heedless_of_iff
  intro value distinct chosen
  rw [variantOf_eq_ok_iff, variantOf_eq_ok_iff]
  apply exists_congr
  intro found
  rw [sorted_eq_text_iff]
  apply and_congr_right
  intro _
  apply or_congr_right
  constructor
  · rintro ⟨payload, isSorted, isPayload⟩
    obtain ⟨inner, rfl, rfl⟩ := (sorted_eq_singleton_iff distinct).mp isSorted
    have inside := (distinctKeys_object.mp distinct).2 _ List.mem_cons_self
    exact ⟨inner, rfl, (heedless.eq_ok_iff inside).mp isPayload⟩
  · rintro ⟨payload, rfl, isPayload⟩
    have inside := (distinctKeys_object.mp distinct).2 _ List.mem_cons_self
    exact ⟨payload.sorted, (sorted_eq_singleton_iff distinct).mpr ⟨payload, rfl, rfl⟩,
      (heedless.eq_ok_iff inside).mpr isPayload⟩

theorem heedless_nothing : nothing.Heedless := by
  rintro (_ | _ | _ | _ | _ | _) _ <;> rfl

theorem heedless_nothingHeldBack : nothingHeldBack.Heedless := by
  apply heedless_of_iff
  intro value distinct done
  have empty : value.sorted = null ∨ value.sorted = object [] ↔ value = null ∨ value = object [] := by
    cases value with
    | null | bool | number | text | array => simp [sorted]
    | object members =>
        have perm := perm_sortedMembers (distinctKeys_object.mp distinct).1
        have lengths := perm.length_eq
        rw [List.length_map] at lengths
        simp [sorted, ← List.length_eq_zero_iff, lengths]
  rw [nothingHeldBack_eq_ok_iff, nothingHeldBack_eq_ok_iff, empty]

end Reader

end PlanSupervision.Json
