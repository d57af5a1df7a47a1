import PlanSupervision.Proofs.Remote.Alerts
import PlanSupervision.Proofs.Remote.Outcomes

/-!
What goes over the wire to and from a remote service is recovered, whatever the order of its
members and whatever stands between them. Main statement: alerts and outcomes are read from their
compact texts, from the values and the texts that enlarge their encodings, and from texts with
members that name no value; of the latter an alert makes nothing, while an outcome is refused.
-/

namespace PlanSupervision

open Json

namespace Json.Reader

variable {Value : Type}

/-- A content is recovered from its encoding: from the compact text, from every value that
enlarges it, and from every text that spells such a value and does not nest too deep. -/
structure Recovers (read : Reader Value) (content : Value) (encoding : Json) : Prop where
  compact : readText read encoding.render = .ok content
  value : ∀ value : Json, Enlarges encoding (Draft.ofJson value) → readJson read value = .ok content
  spelled : ∀ value : Json, Enlarges encoding (Draft.ofJson value) →
    value.depth ≤ Assembly.depthLimit → ∀ source : String, Spelled (.value value) source.toList →
      readText read source = .ok content

theorem recovers_of_reads {read : Reader Value} {content : Value} {members : List (String × Json)}
    (integral : (Json.object members).Integral)
    (shallow : (Json.object members).depth ≤ Assembly.depthLimit)
    (reads : ∀ value : Json, Enlarges (.object members) (Draft.ofJson value) →
      read (Draft.ofJson value) = .ok content) :
    read.Recovers content (.object members) where
  compact := by
    rw [readText_of_draft (ofText_render integral shallow)]
    exact reads _ (enlarges_self members)
  value := reads
  spelled := fun value enlarges shallow source spelled => by
    rw [readText_of_draft (ofText_of_spelled spelled shallow)]
    exact reads value enlarges

end Json.Reader

/-- Alerts and outcomes are recovered from their encodings. Of a text that enlarges the encoding of
an alert the alert is read whatever the further members are. Of one that enlarges the encoding of
an outcome the outcome is read if the text has a value; if it has none, that is all that is said. -/
theorem recovered_from_enlargements :
    (∀ alert : AlertRecord, AlertRecord.reader.Recovers alert alert.toJson ∧
      ∀ (source : String) (draft : Draft), Draft.ofText source = (draft, true) →
        Enlarges alert.toJson draft → readText AlertRecord.reader source = .ok alert) ∧
    ∀ outcome : TaskOutcome, TaskOutcome.reader.Recovers outcome outcome.toJson ∧
      ∀ (source : String) (draft : Draft), Draft.ofText source = (draft, true) →
        Enlarges outcome.toJson draft →
          readText TaskOutcome.reader source = (parse source).map fun _ => outcome := by
  refine ⟨fun alert => ⟨?_, fun source draft isDraft enlarges => ?_⟩,
    fun outcome => ⟨?_, fun source draft isDraft enlarges => ?_⟩⟩
  · exact Reader.recovers_of_reads alert.integral_toJson alert.depth_toJson fun value enlarges =>
      AlertRecord.reader_of_enlarges enlarges (skip_ofJson value)
  · rw [readText_of_draft isDraft]
    exact AlertRecord.reader_of_enlarges enlarges (skip_of_ofText isDraft)
  · have integral := outcome.integral_toJson
    have shallow := outcome.depth_toJson
    rw [TaskOutcome.toJson_eq] at integral shallow ⊢
    refine Reader.recovers_of_reads integral shallow fun value enlarges => ?_
    rw [← TaskOutcome.toJson_eq] at enlarges
    rw [TaskOutcome.reader_of_enlarges enlarges, toJson_ofJson]
    rfl
  · rw [parse, readText_of_draft isDraft, readText_of_draft isDraft]
    exact TaskOutcome.reader_of_enlarges enlarges

/-- A further member behind those of an object. -/
def appended (members : List (String × Json)) (name : String) (spelling : List Char) : String :=
  .ofList ('{' :: memberChars members ++ ',' :: (quote name ++ ':' :: (spelling ++ ['}'])))

/-- What is appended names no value, and the draft of the text is whole all the same. -/
theorem ofText_appended {members : List (String × Json)} (nonempty : members ≠ [])
    (integral : IntegralMembers members) (shallow : membersDepth members < Assembly.depthLimit)
    (name : String) {spelling : List Char} {isText : Bool}
    (valueless : Scans spelling [.valueless isText]) :
    Draft.ofText (appended members name spelling) =
      (.object (Draft.ofMembers members ++ [(some name, .valueless)]) true, true) := by
  have comma : Delimits ',' := Or.inr (Or.inl rfl)
  have colon : Delimits ':' := Or.inr (Or.inr (Or.inl rfl))
  have brace : Delimits '}' := Or.inr (Or.inr (Or.inr (Or.inr rfl)))
  have spelled : Spelled (.members members) (memberChars members) :=
    spelled_memberChars fun member isMember =>
      spelled_chars (integralMembers_iff.mp integral member isMember)
  have last : Scans (quote name ++ ':' :: (spelling ++ ['}']))
      [.text name, .colon, .valueless isText, .closeObject] := by
    have closed := valueless.append (.punctuation rfl .nil) (delimited_cons brace [])
    exact (spelled_quote name).scans.append (.punctuation rfl closed) (delimited_cons colon _)
  have scanned : Token.scan (appended members name spelling).toList = .openObject ::
      (memberTokens members ++ [.comma, .text name, .colon, .valueless isText, .closeObject]) := by
    rw [appended, String.toList_ofList]
    exact (Scans.punctuation rfl
      (spelled.scans.append (.punctuation rfl last) (delimited_cons comma _))).scan
  have filled := Assembly.foldl_memberTokens (Assembly.start.enter (.members [] none) .firstKey) []
    nonempty (fun member _ => Assembly.places member.2) rfl (Or.inr rfl) (by
      simp only [Assembly.enter, Assembly.start, List.length_cons, List.length_nil]
      omega)
  have opens : Assembly.start.step .openObject =
      Assembly.start.enter (.members [] none) .firstKey := rfl
  rw [Draft.ofText, scanned, List.foldl_cons, opens, List.foldl_append, filled, ofMembers_eq_map]
  simp [Assembly.withMembers, Assembly.step, Assembly.takeKey, Assembly.key?, Assembly.takeValue,
    Assembly.scalar?, Assembly.place, Assembly.close, Assembly.enclose, Assembly.finish,
    Assembly.enter, Assembly.start, Assembly.depthLimit]

/-- A number beyond the doubles. -/
def huge : List Char := ['1', 'e', '4', '0', '0']

theorem scans_huge : Scans huge [.valueless false] :=
  ⟨[], [.valueless false], .number ⟨false, .exponent, [1], [], false, 400⟩, fun _ => rfl,
    .number rfl, rfl⟩

/-- The members of an alert turned round, and the tags in it. -/
def alertMembers : List (String × Json) :=
  [("metadata", .object [("visit", .text "v"), ("sample_id", .text "7")]), ("content", .text ""),
    ("summary", .text "A")]

theorem rearranged_alertMembers :
    Rearranged (AlertRecord.toJson ⟨"A", "", ⟨some "7", some "v", none⟩⟩) (.object alertMembers) :=
  .trans (.members (List.reverse_perm _).symm)
    (@Rearranged.member [] _ _ _ _ (.members (.swap ..)))

/-- A failure told before its tag, with another tag inside what stands between. -/
def failureAmongOthers : Json :=
  .object
    [("error", .text "x"), ("later", .array [.object [("outcome", .null)]]),
     ("outcome", .text "failed")]

theorem enlarges_failureAmongOthers :
    Enlarges (TaskOutcome.failed "x").toJson (Draft.ofJson failureAmongOthers) := by
  have rearranged : Rearranged (TaskOutcome.failed "x").toJson
      (.object [("error", .text "x"), ("outcome", .text "failed")]) :=
    .members (.swap ..)
  exact enlarges_of_beside rearranged (by decide) (.swap ..)

def successMembers : List (String × Json) := [("outcome", .text "success")]

/-- An alert is read beside a number beyond the doubles, and a success is not: the text
`{"outcome":"success","seen":1e400}` is refused. -/
theorem recovered_among_others :
    readText AlertRecord.reader (appended alertMembers "seen" huge) =
        .ok ⟨"A", "", ⟨some "7", some "v", none⟩⟩ ∧
      readJson TaskOutcome.reader failureAmongOthers = .ok (.failed "x") ∧
      readText TaskOutcome.reader failureAmongOthers.render = .ok (.failed "x") ∧
      readText TaskOutcome.reader (appended successMembers "seen" huge) = .error .notJson := by
  obtain ⟨alerts, outcomes⟩ := recovered_from_enlargements
  have beside : ∀ {members : List (String × Json)} {value : Draft},
      (Draft.ofMembers members ++ [(some "seen", value)]).Perm
        ((some "seen", value) :: Draft.ofMembers members) := List.perm_append_singleton _ _
  have integralAlert : IntegralMembers alertMembers := by
    simp [alertMembers, Integral, IntegralMembers]
  have integralSuccess : IntegralMembers successMembers := by
    simp [successMembers, Integral, IntegralMembers]
  have someAlert : alertMembers ≠ [] := List.cons_ne_nil _ _
  have someSuccess : successMembers ≠ [] := List.cons_ne_nil _ _
  have isAlert := ofText_appended someAlert integralAlert (by decide) "seen" scans_huge
  have isSuccess := ofText_appended someSuccess integralSuccess (by decide) "seen" scans_huge
  have integral : failureAmongOthers.Integral := by
    simp [failureAmongOthers, Integral, IntegralMembers, IntegralItems]
  have failure := (outcomes (.failed "x")).1
  refine ⟨(alerts _).2 _ _ isAlert (enlarges_of_beside rearranged_alertMembers (by decide) beside),
    failure.value _ enlarges_failureAmongOthers,
    failure.spelled _ enlarges_failureAmongOthers (by decide) _ (spelled_render integral), ?_⟩
  rw [(outcomes .success).2 _ _ isSuccess (enlarges_of_beside (.refl _) (by decide) beside),
    parse, readText_of_draft isSuccess]
  rfl

/-- Arrays within each other, so many around the innermost. -/
def brackets : Nat → Json
  | 0 => .array []
  | around + 1 => .array [brackets around]

def notedSuccess : Json := .object [("outcome", .text "success"), ("note", brackets 126)]

/-- A success beside a note that nests so deep that the note has no value. -/
theorem deep_note_refused :
    Enlarges TaskOutcome.success.toJson (Draft.ofJson notedSuccess) ∧
      readText TaskOutcome.reader notedSuccess.render = .error .notJson := by
  constructor
  · exact enlarges_of_beside (.refl _) (by decide) (.swap ..)
  · rw [readText, Draft.ofText, render, String.toList_ofList]
    decide +kernel

end PlanSupervision
