import Mathlib.Data.List.Perm.Basic
import PlanSupervision.Proofs.Json.Records
import PlanSupervision.Proofs.Json.Wholeness

/-!
Encodings put into another order and enlarged. The members of an encoding may be rearranged, those
of the objects in it included, and members under other names may stand between them. A record is
read from such an object as it is read from one of the rearrangements of the encoding, as long as
what stands under the other names can be passed over.
-/

namespace PlanSupervision.Json

variable {Value : Type}

/-- An object with the members of an encoding in any order, those of the objects in it as well, and
with further members under names that the encoding does not have. -/
inductive Enlarges (encoding : Json) : Draft → Prop where
  | object {members : List (String × Json)} {further all : List (Option String × Draft)}
      (rearranged : Rearranged encoding (.object members))
      (unknown : ∀ member ∈ further, ∃ name, member.1 = some name ∧ name ∉ members.map Prod.fst)
      (together : all.Perm (Draft.ofMembers members ++ further)) :
      Enlarges encoding (.object all true)

theorem enlarges_self (members : List (String × Json)) :
    Enlarges (.object members) (Draft.ofJson (.object members)) :=
  .object (.refl _) (List.forall_mem_nil _) (by rw [List.append_nil])

theorem enlarges_of_beside {encoding : Json} {members : List (String × Json)}
    {all : List (Option String × Draft)} {name : String} {value : Draft}
    (rearranged : Rearranged encoding (.object members)) (unknown : name ∉ members.map Prod.fst)
    (together : all.Perm ((some name, value) :: Draft.ofMembers members)) :
    Enlarges encoding (.object all true) :=
  .object rearranged (List.forall_mem_singleton.mpr ⟨name, rfl, unknown⟩)
    (together.trans (List.perm_append_singleton ..).symm)

/-- What lists the images of something in another order lists the images of another order. -/
theorem exists_of_perm_map {First Second : Type} {image : First → Second} {list : List Second}
    {others : List First} (perm : list.Perm (others.map image)) :
    ∃ sources : List First, list = sources.map image ∧ sources.Perm others := by
  have shuffled : Relation.Comp (· = List.map image ·) List.Perm list others :=
    List.eq_map_comp_perm image ▸ perm
  exact shuffled

section Rearrangements

variable {members others : List (String × Json)}

/-- Sorting what texts hold leaves them as they are, and no other value becomes a text. -/
theorem perm_texts_iff (texts : ∀ member ∈ others, ∃ content, member.2 = .text content) :
    (members.map fun member => (member.1, member.2.sorted)).Perm others ↔ members.Perm others := by
  have kept : ∀ list : List (String × Json),
      (∀ member ∈ list, ∃ content, member.2 = .text content) →
        (list.map fun member => (member.1, member.2.sorted)) = list := by
    intro list texts
    refine (List.map_congr_left fun member isMember => ?_).trans (List.map_id list)
    obtain ⟨key, value⟩ := member
    obtain ⟨content, rfl⟩ := texts (key, value) isMember
    rfl
  constructor
  · intro perm
    rwa [kept members] at perm
    intro member isMember
    obtain ⟨content, isText⟩ := texts _ (perm.mem_iff.mp (List.mem_map_of_mem isMember))
    exact ⟨content, Reader.sorted_eq_text_iff.mp isText⟩
  · intro perm
    have sorted := perm.map fun member : String × Json => (member.1, member.2.sorted)
    rwa [kept others texts] at sorted

/-- A rearranged object has the members that it had, each of them rearranged. -/
theorem Rearranged.perm_sorted (rearranged : Rearranged (.object members) (.object others))
    (distinct : (Json.object members).DistinctKeys) :
    (others.map fun member => (member.1, member.2.sorted)).Perm
      (members.map fun member => (member.1, member.2.sorted)) := by
  obtain ⟨alsoDistinct, same⟩ := rearranged.sorted_eq distinct
  have former := perm_sortedMembers (distinctKeys_object.mp distinct).1
  have latter := perm_sortedMembers (distinctKeys_object.mp alsoDistinct).1
  rw [sorted, sorted] at same
  rw [object.inj same] at latter
  exact latter.symm.trans former

theorem Rearranged.perm_names (rearranged : Rearranged (.object members) (.object others))
    (distinct : (Json.object members).DistinctKeys) :
    (others.map Prod.fst).Perm (members.map Prod.fst) := by
  have names := (rearranged.perm_sorted distinct).map Prod.fst
  rwa [List.map_map, List.map_map] at names

/-- Of an object of texts nothing but the members can be rearranged. -/
theorem Rearranged.perm_of_texts (rearranged : Rearranged (.object members) (.object others))
    (distinct : (Json.object members).DistinctKeys)
    (texts : ∀ member ∈ members, ∃ content, member.2 = .text content) : others.Perm members := by
  have alike := (perm_texts_iff texts).mpr (List.Perm.refl members)
  exact (perm_texts_iff texts).mp ((rearranged.perm_sorted distinct).trans alike)

end Rearrangements

/-- What is read from a value is read from its rearrangements. -/
theorem Reader.Heedless.rearranged {read : Reader Value} (heedless : read.Heedless)
    {value other : Json} (rearranged : Rearranged value other) (distinct : value.DistinctKeys)
    {content : Value} (isRead : read (Draft.ofJson value) = .ok content) :
    read (Draft.ofJson other) = .ok content := by
  obtain ⟨alsoDistinct, same⟩ := rearranged.sorted_eq distinct
  rw [← heedless.eq_ok_iff alsoDistinct, same, heedless.eq_ok_iff distinct]
  exact isRead

namespace Record

variable {slots : List Slot} {present : Present} {all further : List (Option String × Draft)}
  {members : List (String × Json)}

theorem Plain.slot?_eq_none_iff (plain : Plain slots) {name : String} :
    slot? slots name = none ↔ name ∉ slots.map Slot.name := by
  rw [slot?_eq, List.find?_eq_none, List.mem_map, not_exists]
  refine forall_congr' fun slot => ?_
  rw [not_and]
  refine imp_congr_right fun member => ?_
  rw [Slot.names, plain.unaliased slot member, decide_eq_true_iff, List.mem_singleton, eq_comm]

/-- Members of no field make no difference if they can be passed over. -/
theorem Plain.readMembers_filter (plain : Plain slots)
    (passed : ∀ member ∈ all, ∃ name, member.1 = some name ∧
      (name ∉ slots.map Slot.name → member.2.skip = .ok ())) :
    readMembers slots present all =
      readMembers slots present (all.filter (·.1 ∈ (slots.map Slot.name).map some)) := by
  induction all generalizing present with
  | nil => rfl
  | cons member rest inductionHypothesis =>
      obtain ⟨⟨name, isKey, skipped⟩, others⟩ := List.forall_mem_cons.mp passed
      obtain ⟨key, value⟩ := member
      obtain rfl : key = some name := isKey
      by_cases isName : name ∈ slots.map Slot.name
      · rw [List.filter_cons_of_pos (by simpa using isName), readMembers, readMembers]
        simp only [inductionHypothesis others]
      · have foreign := plain.slot?_eq_none_iff.mpr isName
        rw [List.filter_cons_of_neg (by simpa using isName), ← inductionHypothesis others,
          readMembers, readKey]
        simp only [bind, Except.bind, foreign, skipped isName]

section Fields

variable (fields : (members.map Prod.fst).Perm (slots.map Slot.name))
  (unknown : ∀ member ∈ further, ∃ name, member.1 = some name ∧ name ∉ members.map Prod.fst)
  (together : all.Perm (Draft.ofMembers members ++ further))

include fields

theorem field_of_mem : ∀ member ∈ Draft.ofMembers members,
    member.1 ∈ (slots.map Slot.name).map some := by
  rw [ofMembers_eq_map, List.forall_mem_map]
  exact fun member isMember => List.mem_map_of_mem
    (fields.mem_iff.mp (List.mem_map_of_mem isMember))

include unknown

theorem not_field_of_mem : ∀ member ∈ further, member.1 ∉ (slots.map Slot.name).map some := by
  intro member isMember isField
  obtain ⟨name, isKey, notName⟩ := unknown member isMember
  obtain ⟨field, isName, same⟩ := List.mem_map.mp isField
  obtain rfl : field = name := Option.some.inj (same.trans isKey)
  exact notName (fields.mem_iff.mpr isName)

include together

/-- The members of fields are those of the object without what was added. -/
theorem perm_filter_fields :
    (all.filter (·.1 ∈ (slots.map Slot.name).map some)).Perm (Draft.ofMembers members) := by
  have own : (Draft.ofMembers members).filter (·.1 ∈ (slots.map Slot.name).map some) =
      Draft.ofMembers members :=
    List.filter_eq_self.mpr fun member isMember =>
      decide_eq_true (field_of_mem fields member isMember)
  have others : further.filter (·.1 ∈ (slots.map Slot.name).map some) = [] :=
    List.filter_eq_nil_iff.mpr fun member isMember => by
      simpa using not_field_of_mem fields unknown member isMember
  have filtered := together.filter (·.1 ∈ (slots.map Slot.name).map some)
  rwa [List.filter_append, own, others, List.append_nil] at filtered

/-- An object that gives every field, with members of no field between, is a record of what it
gives, in some order. -/
theorem Plain.exists_present_eq (plain : Plain slots)
    (skipped : ∀ member ∈ further, member.2.skip = .ok ()) :
    ∃ others : List (String × Json), others.Perm members ∧
      Record.present slots (.object all true) =
        Record.present slots (Draft.ofJson (.object others)) := by
  have passed : ∀ member ∈ all, ∃ name, member.1 = some name ∧
      (name ∉ slots.map Slot.name → member.2.skip = .ok ()) := by
    intro member isMember
    rcases List.mem_append.mp (together.mem_iff.mp isMember) with own | other
    · obtain ⟨name, isField, isKey⟩ := List.mem_map.mp (field_of_mem fields member own)
      exact ⟨name, isKey.symm, fun notField => absurd isField notField⟩
    · obtain ⟨name, isKey, _⟩ := unknown member other
      exact ⟨name, isKey, fun _ => skipped member other⟩
  have kept := perm_filter_fields fields unknown together
  -- What is kept is a list of members that stand for values, so it is a draft of such a list.
  rw [ofMembers_eq_map] at kept
  obtain ⟨others, same, perm⟩ := exists_of_perm_map kept
  rw [← ofMembers_eq_map] at same
  refine ⟨others, perm, ?_⟩
  rw [present_closed, plain.readMembers_filter passed, same, present_object]

end Fields

end Record

end PlanSupervision.Json
