import PlanSupervision.Proofs.Json.Compact
import PlanSupervision.Proofs.Json.Enlargement
import PlanSupervision.Remote.Progress

/-!
Outcomes survive the wire. The tag of an outcome may stand anywhere among its members, so all that
stands beside the tag is held back until the tag is known, and held back content must have a value.
An outcome is read from every object that has further members between those of its encoding, as
long as each of them has a value; otherwise nothing is read.
-/

namespace PlanSupervision.TaskOutcome

open Json

variable {outcome : TaskOutcome} {before after all others : List (Option String × Draft)}

/-- A member that can be held back: its name is a text and its content has a value. -/
def Tenable (member : Option String × Draft) : Prop :=
  ∃ name, member.1 = some name ∧ ∃ value, member.2.toJson = .ok value

theorem tenable_draftMember (member : String × Json) : Tenable (draftMember member) :=
  ⟨member.1, rfl, member.2.sorted, toJson_ofJson member.2⟩

theorem Tenable.skip {member : Option String × Draft} (tenable : Tenable member) :
    member.2.skip = .ok () := by
  obtain ⟨_, _, _, hasValue⟩ := tenable
  obtain ⟨written, isWritten⟩ := exists_ofJson hasValue
  rw [isWritten, skip_ofJson]

/-- An object has a value if each of its members can be held back. -/
theorem exists_toJson_iff :
    (∃ value, (Draft.object all true).toJson = .ok value) ↔ ∀ member ∈ all, Tenable member := by
  constructor
  · rintro ⟨value, hasValue⟩
    obtain ⟨written, isWritten⟩ := exists_ofJson hasValue
    cases written with
    | object members =>
        obtain rfl := (Draft.object.inj isWritten).1
        rw [ofMembers_eq_map]
        exact List.forall_mem_map.mpr fun member _ => tenable_draftMember member
    | null | bool | number | text | array => cases isWritten
  · intro tenable
    obtain ⟨members, rfl⟩ : ∃ members, all = Draft.ofMembers members := by
      induction all with
      | nil => exact ⟨[], rfl⟩
      | cons member rest inductionHypothesis =>
          obtain ⟨⟨name, isKey, value, hasValue⟩, others⟩ := List.forall_mem_cons.mp tenable
          obtain ⟨members, rfl⟩ := inductionHypothesis others
          obtain ⟨written, isWritten⟩ := exists_ofJson hasValue
          exact ⟨(name, written) :: members, by rw [Draft.ofMembers, ← isKey, ← isWritten]⟩
    exact ⟨_, toJson_ofJson (.object members)⟩

/-- Members beside the tag are held back in their order. -/
theorem readMembers_append {tag : Option Tag} {rest : List (Option String × Draft)}
    (tenable : ∀ member ∈ before, Tenable member)
    (beside : ∀ member ∈ before, member.1 ≠ some "outcome") :
    readMembers tag others (before ++ rest) = readMembers tag (before.reverse ++ others) rest := by
  induction before generalizing others with
  | nil => rfl
  | cons member later inductionHypothesis =>
      obtain ⟨⟨name, isKey, value, hasValue⟩, laterTenable⟩ := List.forall_mem_cons.mp tenable
      obtain ⟨notTag, laterBeside⟩ := List.forall_mem_cons.mp beside
      obtain ⟨key, content⟩ := member
      obtain rfl : key = some name := isKey
      have another : name ≠ "outcome" := fun same => notTag (congrArg some same)
      have held : content.toJson = .ok value := hasValue
      rw [List.cons_append, readMembers, readKey]
      simp only [bind, Except.bind, if_neg another, held]
      rw [inductionHypothesis laterTenable laterBeside, List.reverse_cons, List.append_assoc]
      rfl

/-- A member beside the tag that has no value is refused, whatever follows it. -/
theorem readMembers_of_untenable {tag : Option Tag} {rest : List (Option String × Draft)}
    (untenable : ¬∀ member ∈ before, Tenable member)
    (beside : ∀ member ∈ before, member.1 ≠ some "outcome") :
    readMembers tag others (before ++ rest) = .error .notJson := by
  induction before generalizing others with
  | nil => exact absurd (List.forall_mem_nil _) untenable
  | cons member later inductionHypothesis =>
      obtain ⟨key, content⟩ := member
      obtain ⟨notTag, laterBeside⟩ := List.forall_mem_cons.mp beside
      rw [List.cons_append, readMembers]
      cases key with
      | none => rfl
      | some name =>
          have another : name ≠ "outcome" := fun same => notTag (congrArg some same)
          simp only [readKey, bind, Except.bind, if_neg another]
          cases held : content.toJson with
          | error fault => rw [Draft.failsAsJson_toJson content fault held]
          | ok value =>
              refine inductionHypothesis (fun laterTenable => untenable ?_) laterBeside
              exact List.forall_mem_cons.mpr ⟨⟨name, rfl, value, held⟩, laterTenable⟩

section Tag

variable {found : String} {tag : Tag}

/-- After the members before it the tag is found, and those are held back. -/
theorem readMembers_to_tag (isTag : Reader.named Tag.names found = .ok tag)
    (tenable : ∀ member ∈ before, Tenable member)
    (beside : ∀ member ∈ before, member.1 ≠ some "outcome") :
    readMembers none [] (before ++ (some "outcome", .text found) :: after) =
      readMembers (some tag) before.reverse after := by
  rw [readMembers_append tenable beside, List.append_nil, readMembers, readKey]
  simp only [bind, Except.bind, if_pos, Reader.name, isTag, Option.isSome_none, Bool.false_eq_true,
    if_false]

/-- Wherever the tag stands, it is found, and the rest is held back. -/
theorem readMembers_of_tag (isTag : Reader.named Tag.names found = .ok tag)
    (tenable : ∀ member ∈ before ++ after, Tenable member)
    (beside : ∀ member ∈ before ++ after, member.1 ≠ some "outcome") :
    readMembers none [] (before ++ (some "outcome", .text found) :: after) =
      .ok (some tag, before ++ after) := by
  obtain ⟨tenableBefore, tenableAfter⟩ := List.forall_mem_append.mp tenable
  obtain ⟨besideBefore, besideAfter⟩ := List.forall_mem_append.mp beside
  have later := @readMembers_append after before.reverse (some tag) [] tenableAfter besideAfter
  rw [List.append_nil] at later
  rw [readMembers_to_tag isTag tenableBefore besideBefore, later, readMembers, List.reverse_append,
    List.reverse_reverse, List.reverse_reverse]

/-- Wherever the tag stands, what has no value is refused. -/
theorem readMembers_of_tag_untenable (isTag : Reader.named Tag.names found = .ok tag)
    (untenable : ¬∀ member ∈ before ++ after, Tenable member)
    (beside : ∀ member ∈ before ++ after, member.1 ≠ some "outcome") :
    readMembers none [] (before ++ (some "outcome", .text found) :: after) = .error .notJson := by
  obtain ⟨besideBefore, besideAfter⟩ := List.forall_mem_append.mp beside
  by_cases tenableBefore : ∀ member ∈ before, Tenable member
  · have untenableAfter : ¬∀ member ∈ after, Tenable member := fun tenableAfter =>
      untenable (List.forall_mem_append.mpr ⟨tenableBefore, tenableAfter⟩)
    have later := @readMembers_of_untenable after before.reverse (some tag) [] untenableAfter
      besideAfter
    rwa [readMembers_to_tag isTag tenableBefore besideBefore, ← List.append_nil after]
  · exact readMembers_of_untenable tenableBefore besideBefore

/-- Wherever the tag stands, an object is read as what the tag and the others say, if it has a
value; the others are not looked at unless all of them can be held back. -/
theorem reader_around_tag (isTag : Reader.named Tag.names found = .ok tag)
    (beside : ∀ member ∈ before ++ after, member.1 ≠ some "outcome") :
    reader (.object (before ++ (some "outcome", .text found) :: after) true) =
      (Draft.object (before ++ (some "outcome", .text found) :: after) true).toJson >>= fun _ =>
        ofMembers tag (before ++ after) := by
  have tenableTag : Tenable (some "outcome", .text found) :=
    tenable_draftMember ("outcome", .text found)
  -- The tag itself can always be held back, so it is the others that decide.
  have around : (∀ member ∈ before ++ (some "outcome", .text found) :: after, Tenable member) ↔
      ∀ member ∈ before ++ after, Tenable member := by
    simp only [List.forall_mem_append, List.forall_mem_cons, tenableTag, true_and]
  cases hasValue : (Draft.object
      (before ++ (some "outcome", .text found) :: after) true).toJson with
  | ok value =>
      have tenable := around.mp (exists_toJson_iff.mp ⟨value, hasValue⟩)
      rw [reader, readMembers_of_tag isTag tenable beside]
      rfl
  | error fault =>
      have untenable : ¬∀ member ∈ before ++ after, Tenable member := by
        intro tenable
        obtain ⟨_, found⟩ := exists_toJson_iff.mpr (around.mpr tenable)
        rw [found] at hasValue
        cases hasValue
      rw [Draft.failsAsJson_toJson _ fault hasValue, reader,
        readMembers_of_tag_untenable isTag untenable beside]
      rfl

end Tag

def tag : TaskOutcome → Tag
  | success => .success
  | failed _ => .failed
  | cancelled => .cancelled

def tagName : TaskOutcome → String
  | success => "success"
  | failed _ => "failed"
  | cancelled => "cancelled"

/-- What an outcome carries beside its tag. -/
def payload : TaskOutcome → List (String × Json)
  | failed error => [("error", .text error)]
  | _ => []

theorem toJson_eq (outcome : TaskOutcome) :
    outcome.toJson = .object (("outcome", .text outcome.tagName) :: outcome.payload) := by
  cases outcome <;> rfl

theorem named_tagName (outcome : TaskOutcome) :
    Reader.named Tag.names outcome.tagName = .ok outcome.tag := by
  cases outcome <;> rfl

theorem isText_members (outcome : TaskOutcome) :
    ∀ member ∈ ("outcome", .text outcome.tagName) :: outcome.payload,
      ∃ content, member.2 = Json.text content := by
  refine List.forall_mem_cons.mpr ⟨⟨_, rfl⟩, ?_⟩
  cases outcome with
  | success | cancelled => exact List.forall_mem_nil _
  | failed error => exact List.forall_mem_singleton.mpr ⟨error, rfl⟩

theorem distinctKeys_toJson (outcome : TaskOutcome) : outcome.toJson.DistinctKeys := by
  rw [toJson_eq]
  refine distinctKeys_object.mpr ⟨?_, fun member isMember => ?_⟩
  · cases outcome <;> simp [Table.Distinct, payload]
  · obtain ⟨content, isText⟩ := outcome.isText_members member isMember
    rw [isText]
    trivial

theorem integral_toJson (outcome : TaskOutcome) : outcome.toJson.Integral := by
  cases outcome <;> simp [toJson, Integral, IntegralMembers]

theorem depth_toJson (outcome : TaskOutcome) : outcome.toJson.depth ≤ Assembly.depthLimit := by
  cases outcome <;> simp [toJson, depth, membersDepth, Assembly.depthLimit]

theorem plain_error : Record.Plain [errorField.slot] := ⟨by decide, by decide⟩

/-- What was held back gives the outcome that the tag names. -/
theorem ofMembers_of_perm {further : List (Option String × Draft)}
    (unknown : ∀ member ∈ further,
      ∃ name, member.1 = some name ∧ name ∉ outcome.payload.map Prod.fst)
    (together : all.Perm (Draft.ofMembers outcome.payload ++ further))
    (skipped : ∀ member ∈ further, member.2.skip = .ok ()) :
    ofMembers outcome.tag all = .ok outcome := by
  cases outcome with
  | success | cancelled => rfl
  | failed error =>
      obtain ⟨others, perm, same⟩ :=
        plain_error.exists_present_eq (List.Perm.refl _) unknown together skipped
      rw [payload, List.perm_singleton] at perm
      rw [tag, ofMembers, readFailed, same, perm]
      rfl

/-- An object that enlarges the encoding of an outcome has the tag somewhere, and around it what
the outcome carries and members under names that are neither the tag's nor carried. -/
theorem exists_around_tag {closed : Bool}
    (enlarges : Enlarges outcome.toJson (.object all closed)) :
    ∃ before after further, closed = true ∧
      all = before ++ (some "outcome", .text outcome.tagName) :: after ∧
      (before ++ after).Perm (Draft.ofMembers outcome.payload ++ further) ∧
      ∀ member ∈ further, ∃ name,
        member.1 = some name ∧ name ≠ "outcome" ∧ name ∉ outcome.payload.map Prod.fst := by
  obtain @⟨members, further, _, rearranged, unknown, together⟩ := enlarges
  have distinct := outcome.distinctKeys_toJson
  rw [toJson_eq] at rearranged distinct
  have own := rearranged.perm_of_texts distinct outcome.isText_members
  have listed : all.Perm ((some "outcome", .text outcome.tagName) ::
      (Draft.ofMembers outcome.payload ++ further)) := by
    rw [ofMembers_eq_map] at together ⊢
    exact together.trans ((own.map draftMember).append_right further)
  obtain ⟨before, after, rfl⟩ := List.append_of_mem (listed.mem_iff.mpr List.mem_cons_self)
  refine ⟨before, after, further, rfl, rfl, (List.perm_middle.symm.trans listed).cons_inv, ?_⟩
  intro member isMember
  obtain ⟨name, isKey, notName⟩ := unknown member isMember
  rw [(own.map Prod.fst).mem_iff, List.map_cons, List.mem_cons, not_or] at notName
  exact ⟨name, isKey, notName⟩

theorem not_tag_of_carried (outcome : TaskOutcome) :
    ∀ member ∈ Draft.ofMembers outcome.payload, member.1 ≠ some "outcome" := by
  cases outcome with
  | success | cancelled => exact List.forall_mem_nil _
  | failed error => exact List.forall_mem_singleton.mpr (by simp)

/-- Of an object that enlarges its encoding an outcome is read if the object has a value, and
otherwise nothing is read, for the reason for which the object has no value. -/
theorem reader_of_enlarges {draft : Draft} (enlarges : Enlarges outcome.toJson draft) :
    reader draft = draft.toJson.map fun _ => outcome := by
  cases draft with
  | object all closed =>
    obtain ⟨before, after, further, rfl, rfl, rest, foreign⟩ := exists_around_tag enlarges
    have beside : ∀ member ∈ before ++ after, member.1 ≠ some "outcome" := by
      intro member isMember
      rcases List.mem_append.mp (rest.mem_iff.mp isMember) with carried | other
      · exact outcome.not_tag_of_carried member carried
      · obtain ⟨name, isKey, another, _⟩ := foreign member other
        rw [isKey]
        exact fun same => another (Option.some.inj same)
    rw [reader_around_tag outcome.named_tagName beside]
    cases hasValue : (Draft.object
        (before ++ (some "outcome", .text outcome.tagName) :: after) true).toJson with
    | error fault => rfl
    | ok value =>
        have tenable := exists_toJson_iff.mp ⟨value, hasValue⟩
        refine ofMembers_of_perm (fun member isMember => ?_) rest fun member isMember => ?_
        · obtain ⟨name, isKey, _, notCarried⟩ := foreign member isMember
          exact ⟨name, isKey, notCarried⟩
        · have isOther := rest.mem_iff.mpr (List.mem_append_right _ isMember)
          exact (tenable member (List.perm_middle.mem_iff.mpr (.tail _ isOther))).skip
  | null | bool | number | text | array | valueless | broken => cases enlarges

end PlanSupervision.TaskOutcome
