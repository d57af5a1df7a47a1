import PlanSupervision.Json.Reader
import PlanSupervision.Proofs.Json.Assembly
import PlanSupervision.Proofs.Table

/-!
The value of a text is what was written, with the members of each object sorted by key. If no
object repeats a key, a rearrangement of members leaves the sorted value as it is.
-/

namespace PlanSupervision.Json

mutual

/-- The value with the members of every object sorted; of a repeated key the last counts. -/
def sorted : Json → Json
  | array items => array (sortedItems items)
  | object members => object (sortedMembers [] members)
  | other => other

def sortedItems : List Json → List Json
  | [] => []
  | item :: rest => sorted item :: sortedItems rest

def sortedMembers (read : List (String × Json)) : List (String × Json) → List (String × Json)
  | [] => read
  | (key, value) :: rest => sortedMembers (Table.put key (sorted value) read) rest

end

mutual

/-- No object repeats a key. -/
def Draft.DistinctKeys : Draft → Prop
  | .array items _ => Draft.DistinctItems items
  | .object members _ => (members.map Prod.fst).Nodup ∧ Draft.DistinctMembers members
  | _ => True

def Draft.DistinctItems : List Draft → Prop
  | [] => True
  | item :: rest => Draft.DistinctKeys item ∧ Draft.DistinctItems rest

def Draft.DistinctMembers : List (Option String × Draft) → Prop
  | [] => True
  | (_, value) :: rest => Draft.DistinctKeys value ∧ Draft.DistinctMembers rest

end

def DistinctKeys (value : Json) : Prop := (Draft.ofJson value).DistinctKeys

theorem distinctKeys_array {items : List Json} :
    (array items).DistinctKeys ↔ ∀ item ∈ items, item.DistinctKeys := by
  rw [DistinctKeys, Draft.ofJson, Draft.DistinctKeys]
  induction items with
  | nil => simp [Draft.ofItems, Draft.DistinctItems]
  | cons item rest inductionHypothesis =>
      rw [Draft.ofItems, Draft.DistinctItems, inductionHypothesis, List.forall_mem_cons]
      rfl

theorem distinctKeys_object {members : List (String × Json)} :
    (object members).DistinctKeys ↔
      Table.Distinct members ∧ ∀ member ∈ members, member.2.DistinctKeys := by
  have keys : ((Draft.ofMembers members).map Prod.fst).Nodup ↔ Table.Distinct members := by
    rw [ofMembers_eq_map, List.map_map, Table.Distinct]
    have same : Prod.fst ∘ draftMember = some ∘ Prod.fst := rfl
    rw [same, ← List.map_map]
    exact List.nodup_map_iff fun _ _ => Option.some.inj
  have values : Draft.DistinctMembers (Draft.ofMembers members) ↔
      ∀ member ∈ members, member.2.DistinctKeys := by
    clear keys
    induction members with
    | nil => simp [Draft.ofMembers, Draft.DistinctMembers]
    | cons member rest inductionHypothesis =>
        rw [Draft.ofMembers, Draft.DistinctMembers, inductionHypothesis, List.forall_mem_cons]
        rfl
  rw [DistinctKeys, Draft.ofJson, Draft.DistinctKeys, keys, values]

theorem sortedItems_eq_map (items : List Json) : sortedItems items = items.map sorted := by
  induction items with
  | nil => rfl
  | cons item rest inductionHypothesis => rw [sortedItems, inductionHypothesis, List.map_cons]

theorem sorted_sortedMembers {read : List (String × Json)} (isSorted : Table.Sorted read)
    (members : List (String × Json)) : Table.Sorted (sortedMembers read members) := by
  induction members generalizing read with
  | nil => exact isSorted
  | cons member rest inductionHypothesis => exact inductionHypothesis (Table.sorted_put isSorted)

theorem lookup_sortedMembers {members : List (String × Json)} (distinct : Table.Distinct members)
    (read : List (String × Json)) (key : String) :
    (sortedMembers read members).lookup key =
      ((members.lookup key).map sorted).or (read.lookup key) := by
  induction members generalizing read with
  | nil => rfl
  | cons member rest inductionHypothesis =>
      obtain ⟨other, value⟩ := member
      rw [sortedMembers, inductionHypothesis distinct.of_cons, Table.lookup_put]
      by_cases same : key = other
      · subst same
        have absent : rest.lookup key = none :=
          Table.lookup_eq_none_iff.mpr (List.nodup_cons.mp distinct).1
        rw [List.lookup_cons_self, absent, if_pos rfl]
        rfl
      · rw [Table.lookup_cons_of_ne same, if_neg same]

/-- What is found in an object with sorted members is what was found before, sorted. -/
theorem lookup_sorted {members : List (String × Json)} (distinct : Table.Distinct members)
    (key : String) :
    (sortedMembers [] members).lookup key = (members.lookup key).map sorted := by
  rw [lookup_sortedMembers distinct]
  exact Option.or_none

theorem sorted_nil : Table.Sorted ([] : List (String × Json)) := List.Pairwise.nil

/-- Sorting the members of an object keeps all of them. -/
theorem perm_sortedMembers {members : List (String × Json)} (distinct : Table.Distinct members) :
    (sortedMembers [] members).Perm (members.map fun member => (member.1, member.2.sorted)) := by
  have keys : Table.Distinct (sortedMembers [] members) :=
    (sorted_sortedMembers sorted_nil members).distinct
  have others : Table.Distinct (members.map fun member => (member.1, member.2.sorted)) := by
    rw [Table.Distinct, List.map_map]
    exact distinct
  refine (List.perm_ext_iff_of_nodup (List.Nodup.of_map _ keys)
    (List.Nodup.of_map _ others)).mpr ?_
  rintro ⟨key, value⟩
  rw [← keys.lookup_eq_some_iff, ← others.lookup_eq_some_iff, lookup_sorted distinct,
    Table.lookup_map]

/-- The value that is read from the draft of a value. -/
theorem toJson_ofJson (value : Json) : (Draft.ofJson value).toJson = .ok value.sorted := by
  induction value using induction with
  | null | bool | number | text => rfl
  | array items inductionHypothesis =>
      have all : Draft.toItems (Draft.ofItems items) = .ok (sortedItems items) := by
        induction items with
        | nil => rfl
        | cons item rest restHypothesis =>
            obtain ⟨first, others⟩ := List.forall_mem_cons.mp inductionHypothesis
            rw [Draft.ofItems, Draft.toItems, first, restHypothesis others]
            rfl
      rw [Draft.ofJson, Draft.toJson, all]
      rfl
  | object members inductionHypothesis =>
      have all : ∀ read, Draft.toMembers read (Draft.ofMembers members) =
          .ok (sortedMembers read members) := by
        induction members with
        | nil => exact fun _ => rfl
        | cons member rest restHypothesis =>
            intro read
            obtain ⟨key, value⟩ := member
            obtain ⟨first, others⟩ := List.forall_mem_cons.mp inductionHypothesis
            have value : (Draft.ofJson value).toJson = .ok value.sorted := first
            rw [Draft.ofMembers, Draft.toMembers, sortedMembers, ← restHypothesis others, value]
            rfl
      rw [Draft.ofJson, Draft.toJson, all]
      rfl

/-- Induction on a draft, with one hypothesis for all items and one for all members. -/
@[elab_as_elim]
theorem Draft.induction {motive : Draft → Prop} (null : motive .null)
    (bool : ∀ value, motive (.bool value)) (number : ∀ value, motive (.number value))
    (text : ∀ value, motive (.text value))
    (array : ∀ items closed, (∀ item ∈ items, motive item) → motive (.array items closed))
    (object : ∀ members closed, (∀ member ∈ members, motive member.2) →
      motive (.object members closed))
    (valueless : motive .valueless) (broken : motive .broken) (draft : Draft) : motive draft :=
  @Draft.rec motive (fun items => ∀ item ∈ items, motive item)
    (fun members => ∀ member ∈ members, motive member.2) (fun member => motive member.2)
    null bool number text array object valueless broken
    (List.forall_mem_nil _) (fun _ _ first others => List.forall_mem_cons.mpr ⟨first, others⟩)
    (List.forall_mem_nil _) (fun _ _ first others => List.forall_mem_cons.mpr ⟨first, others⟩)
    (fun _ _ holds => holds) draft

/-- What comes of two steps of which the second gave a value. -/
theorem exists_of_bind_ok {Middle Value : Type} {first : Except Fault Middle}
    {second : Middle → Except Fault Value} {value : Value} (done : (first >>= second) = .ok value) :
    ∃ middle, first = .ok middle ∧ second middle = .ok value := by
  cases first with
  | error fault => cases done
  | ok middle => exact ⟨middle, rfl, done⟩

theorem bind_eq_ok_iff {Middle Value : Type} {first : Except Fault Middle}
    {second : Middle → Except Fault Value} {value : Value} :
    (first >>= second) = .ok value ↔ ∃ middle, first = .ok middle ∧ second middle = .ok value := by
  refine ⟨exists_of_bind_ok, ?_⟩
  rintro ⟨middle, isFirst, isSecond⟩
  rw [isFirst]
  exact isSecond

theorem closed_of_demandClosed {closed : Bool} {done : Unit}
    (demanded : demandClosed closed = .ok done) : closed = true := by
  cases closed with
  | false => cases demanded
  | true => rfl

theorem exists_ofItems {items : List Draft} {values : List Json}
    (each : ∀ item ∈ items, ∀ value, item.toJson = .ok value →
      ∃ written, item = Draft.ofJson written) (read : Draft.toItems items = .ok values) :
    ∃ written, items = Draft.ofItems written := by
  induction items generalizing values with
  | nil => exact ⟨[], rfl⟩
  | cons item rest inductionHypothesis =>
      obtain ⟨first, others⟩ := List.forall_mem_cons.mp each
      rw [Draft.toItems] at read
      obtain ⟨value, readItem, read⟩ := exists_of_bind_ok read
      obtain ⟨later, readRest, _⟩ := exists_of_bind_ok read
      obtain ⟨written, rfl⟩ := first value readItem
      obtain ⟨more, rfl⟩ := inductionHypothesis others readRest
      exact ⟨written :: more, rfl⟩

theorem exists_ofMembers {members : List (Option String × Draft)}
    {before values : List (String × Json)}
    (each : ∀ member ∈ members, ∀ value, member.2.toJson = .ok value →
      ∃ written, member.2 = Draft.ofJson written)
    (read : Draft.toMembers before members = .ok values) :
    ∃ written, members = Draft.ofMembers written := by
  induction members generalizing before with
  | nil => exact ⟨[], rfl⟩
  | cons member rest inductionHypothesis =>
      obtain ⟨key, draft⟩ := member
      obtain ⟨first, others⟩ := List.forall_mem_cons.mp each
      rw [Draft.toMembers] at read
      obtain ⟨name, named, read⟩ := exists_of_bind_ok read
      obtain ⟨value, readValue, readRest⟩ := exists_of_bind_ok read
      obtain ⟨written, rfl⟩ : ∃ written, draft = Draft.ofJson written := first value readValue
      obtain ⟨more, rfl⟩ := inductionHypothesis others readRest
      cases key with
      | none => cases named
      | some name => exact ⟨(name, written) :: more, rfl⟩

/-- A draft with a value is the draft of what was written. -/
theorem exists_ofJson {draft : Draft} {value : Json} (read : draft.toJson = .ok value) :
    ∃ written, draft = Draft.ofJson written := by
  induction draft using Draft.induction generalizing value with
  | null => exact ⟨.null, rfl⟩
  | bool content => exact ⟨.bool content, rfl⟩
  | number content => exact ⟨.number content, rfl⟩
  | text content => exact ⟨.text content, rfl⟩
  | valueless | broken => cases read
  | array items closed inductionHypothesis =>
      rw [Draft.toJson] at read
      obtain ⟨values, readItems, read⟩ := exists_of_bind_ok read
      obtain ⟨done, demanded, _⟩ := exists_of_bind_ok read
      obtain rfl := closed_of_demandClosed demanded
      obtain ⟨written, rfl⟩ :=
        exists_ofItems (fun item member _ => inductionHypothesis item member) readItems
      exact ⟨.array written, rfl⟩
  | object members closed inductionHypothesis =>
      rw [Draft.toJson] at read
      obtain ⟨values, readMembers, read⟩ := exists_of_bind_ok read
      obtain ⟨done, demanded, _⟩ := exists_of_bind_ok read
      obtain rfl := closed_of_demandClosed demanded
      obtain ⟨written, rfl⟩ :=
        exists_ofMembers (fun member isMember _ => inductionHypothesis member isMember) readMembers
      exact ⟨.object written, rfl⟩

/-- A text that has a value has the draft of what was written, and the value is that with its
members sorted. -/
theorem exists_written {source : String} {value : Json} (parses : parse source = .ok value) :
    ∃ written, Draft.ofText source = (Draft.ofJson written, true) ∧ value = written.sorted := by
  rw [parse, readText] at parses
  obtain ⟨read, isRead, parses⟩ := exists_of_bind_ok parses
  obtain ⟨done, demanded, same⟩ := exists_of_bind_ok parses
  obtain ⟨written, isWritten⟩ := exists_ofJson isRead
  refine ⟨written, Prod.ext isWritten (closed_of_demandClosed demanded), ?_⟩
  rw [isWritten, Reader.json, toJson_ofJson] at isRead
  obtain rfl := Except.ok.inj isRead
  exact (Except.ok.inj same).symm

/-- The members of any objects in a value are put into another order. -/
inductive Rearranged : Json → Json → Prop where
  | refl (value : Json) : Rearranged value value
  | trans {first second third : Json} (earlier : Rearranged first second)
      (later : Rearranged second third) : Rearranged first third
  | members {members others : List (String × Json)} (perm : members.Perm others) :
      Rearranged (.object members) (.object others)
  | item {before after : List Json} {value other : Json} (inside : Rearranged value other) :
      Rearranged (.array (before ++ value :: after)) (.array (before ++ other :: after))
  | member {before after : List (String × Json)} {key : String} {value other : Json}
      (inside : Rearranged value other) :
      Rearranged (.object (before ++ (key, value) :: after))
        (.object (before ++ (key, other) :: after))

theorem sorted_object_eq {members others : List (String × Json)} (distinct : Table.Distinct members)
    (alsoDistinct : Table.Distinct others)
    (same : ∀ key, (members.lookup key).map sorted = (others.lookup key).map sorted) :
    (object members).sorted = (object others).sorted := by
  rw [sorted, sorted]
  congr 1
  refine Table.Sorted.eq_of_lookup_eq (sorted_sortedMembers sorted_nil members)
    (sorted_sortedMembers sorted_nil others) fun key => ?_
  rw [lookup_sorted distinct, lookup_sorted alsoDistinct, same]

/-- A rearrangement repeats no key either, and has the same sorted value. -/
theorem Rearranged.sorted_eq {value other : Json} (rearranged : Rearranged value other)
    (distinct : value.DistinctKeys) : other.DistinctKeys ∧ other.sorted = value.sorted := by
  induction rearranged with
  | refl value => exact ⟨distinct, rfl⟩
  | trans _ _ earlier later =>
      obtain ⟨middle, first⟩ := earlier distinct
      obtain ⟨last, second⟩ := later middle
      exact ⟨last, second.trans first⟩
  | @members members others perm =>
      obtain ⟨keys, values⟩ := distinctKeys_object.mp distinct
      have alsoKeys : Table.Distinct others := (perm.map Prod.fst).nodup_iff.mp keys
      refine ⟨distinctKeys_object.mpr ⟨alsoKeys, fun member isMember =>
        values member (perm.mem_iff.mpr isMember)⟩, ?_⟩
      refine sorted_object_eq alsoKeys keys fun key => ?_
      rw [keys.lookup_eq_of_perm perm]
  | @item before after value other _ inductionHypothesis =>
      have each := distinctKeys_array.mp distinct
      obtain ⟨inside, same⟩ := inductionHypothesis (each value (by simp))
      refine ⟨distinctKeys_array.mpr ?_, ?_⟩
      · intro item member
        rcases List.mem_append.mp member with early | late
        · exact each item (List.mem_append_left _ early)
        · rcases List.mem_cons.mp late with rfl | later
          · exact inside
          · exact each item (List.mem_append_right _ (List.mem_cons_of_mem _ later))
      · simp [sorted, sortedItems_eq_map, same]
  | @member before after key value other _ inductionHypothesis =>
      obtain ⟨keys, values⟩ := distinctKeys_object.mp distinct
      obtain ⟨inside, same⟩ := inductionHypothesis (values (key, value) (by simp))
      have alsoKeys : Table.Distinct (before ++ (key, other) :: after) := by
        simpa [Table.Distinct] using keys
      refine ⟨distinctKeys_object.mpr ⟨alsoKeys, ?_⟩, ?_⟩
      · intro member isMember
        rcases List.mem_append.mp isMember with early | late
        · exact values member (List.mem_append_left _ early)
        · rcases List.mem_cons.mp late with rfl | later
          · exact inside
          · exact values member (List.mem_append_right _ (List.mem_cons_of_mem _ later))
      · refine sorted_object_eq alsoKeys keys fun name => ?_
        rw [← Table.lookup_map, ← Table.lookup_map]
        simp [same]

theorem sortedItems_iff {items : List Json} :
    SortedItems items ↔ ∀ item ∈ items, item.SortedKeys := by
  induction items with
  | nil => simp [SortedItems]
  | cons item rest inductionHypothesis => simp [SortedItems, inductionHypothesis]

theorem sortedMembers_iff {members : List (String × Json)} :
    SortedMembers members ↔ ∀ member ∈ members, member.2.SortedKeys := by
  induction members with
  | nil => simp [SortedMembers]
  | cons member rest inductionHypothesis => simp [SortedMembers, inductionHypothesis]

theorem sortedKeys_sorted (value : Json) : value.sorted.SortedKeys := by
  induction value using induction with
  | null | bool | number | text => trivial
  | array items inductionHypothesis =>
      rw [sorted, sortedItems_eq_map, SortedKeys, sortedItems_iff]
      exact List.forall_mem_map.mpr inductionHypothesis
  | object members inductionHypothesis =>
      rw [sorted, SortedKeys, sortedMembers_iff]
      refine ⟨sorted_sortedMembers sorted_nil members, ?_⟩
      have filled : ∀ read : List (String × Json), (∀ member ∈ read, member.2.SortedKeys) →
          ∀ member ∈ sortedMembers read members, member.2.SortedKeys := by
        induction members with
        | nil => exact fun _ each => each
        | cons member rest restHypothesis =>
            intro read each
            obtain ⟨first, others⟩ := List.forall_mem_cons.mp inductionHypothesis
            refine restHypothesis others _ fun entry isEntry => ?_
            rcases Table.mem_put isEntry with rfl | old
            · exact first
            · exact each entry old
      exact filled [] (List.forall_mem_nil _)

theorem SortedKeys.distinctKeys {value : Json} (isSorted : value.SortedKeys) :
    value.DistinctKeys := by
  induction value using induction with
  | null | bool | number | text => trivial
  | array items inductionHypothesis =>
      rw [SortedKeys, sortedItems_iff] at isSorted
      exact distinctKeys_array.mpr fun item member =>
        inductionHypothesis item member (isSorted item member)
  | object members inductionHypothesis =>
      rw [SortedKeys, sortedMembers_iff] at isSorted
      exact distinctKeys_object.mpr ⟨isSorted.1.distinct, fun member isMember =>
        inductionHypothesis member isMember (isSorted.2 member isMember)⟩

theorem SortedKeys.sorted_eq {value : Json} (isSorted : value.SortedKeys) :
    value.sorted = value := by
  induction value using induction with
  | null | bool | number | text => rfl
  | array items inductionHypothesis =>
      rw [SortedKeys, sortedItems_iff] at isSorted
      rw [sorted, sortedItems_eq_map]
      congr 1
      exact (List.map_congr_left fun item member =>
        inductionHypothesis item member (isSorted item member)).trans (List.map_id items)
  | object members inductionHypothesis =>
      rw [SortedKeys, sortedMembers_iff] at isSorted
      obtain ⟨keys, values⟩ := isSorted
      rw [sorted]
      congr 1
      refine Table.Sorted.eq_of_lookup_eq (sorted_sortedMembers sorted_nil members) keys
        fun key => ?_
      rw [lookup_sorted keys.distinct]
      cases found : members.lookup key with
      | none => rfl
      | some value =>
          have member := Table.mem_of_lookup found
          exact congrArg some (inductionHypothesis _ member (values _ member))

end PlanSupervision.Json
