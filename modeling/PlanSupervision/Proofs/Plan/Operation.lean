import PlanSupervision.Plan.Course
import PlanSupervision.Proofs.Plan.Nesting
import PlanSupervision.Proofs.Plan.Writes

/-!
The operations of a plan's context, one by one. Whatever the observers answer, an operation
hands over at most one document, which fits the runs that are open, and leaves those runs
open that the document leaves open.
-/

namespace PlanSupervision

def PlanAction.isCall : PlanAction → Bool
  | openRun _ | generateRun _ | descriptor _ _ | event _ _ | closeRun _ _ => true
  | _ => false

namespace PlanContext

/-- Every open run has a uid that is not empty. -/
def Named (openRuns : List String) : Prop := ∀ runUid ∈ openRuns, runUid.isEmpty = false

variable {context laterContext : PlanContext} {station laterStation : Station}
  {documents : List Document} {handover : Handover}

/-- From one point to a later one these documents were handed over, each of which fitted, and
the runs that are open are those that the documents left open. -/
structure Accounted (context : PlanContext) (station : Station) (documents : List Document)
    (laterContext : PlanContext) (laterStation : Station) : Prop where
  handed : station.Writes laterStation documents []
  nested : Document.Nested context.openRuns documents
  openRuns : laterContext.openRuns = documents.foldl Document.track context.openRuns
  cancelled : laterContext.cancelled = context.cancelled

namespace Accounted

theorem of_journal_eq (same : laterStation.journal = station.journal) :
    Accounted context station [] context laterStation :=
  ⟨.of_journal_eq same, trivial, rfl, rfl⟩

theorem of_same {first : Station} (same : station.journal = first.journal)
    (accounted : Accounted context station documents laterContext laterStation) :
    Accounted context first documents laterContext laterStation :=
  ⟨accounted.handed.of_same same rfl, accounted.nested, accounted.openRuns, accounted.cancelled⟩

theorem named (accounted : Accounted context station documents laterContext laterStation)
    (named : Named context.openRuns) : Named laterContext.openRuns := by
  rw [accounted.openRuns]
  exact accounted.nested.foldl_nonempty named

end Accounted

structure Handover.Sound (context : PlanContext) (handover : Handover) : Prop where
  fits : handover.document.Fits context.openRuns
  openRuns : handover.context.openRuns = handover.document.track context.openRuns
  cancelled : handover.context.cancelled = context.cancelled

theorem Handover.check_ok {checked : Handover} (passed : checked.check = .ok handover) :
    handover = checked ∧ checked.document.validate = .ok () := by
  unfold check at passed
  split at passed
  · rename_i valid
    obtain rfl := Except.ok.inj passed
    exact ⟨rfl, valid⟩
  · cases passed

theorem openRun_sound {run : RunStart} (opened : context.openRun run = .ok handover) :
    handover.Sound context := by
  obtain ⟨rfl, valid⟩ := Handover.check_ok opened
  exact ⟨⟨valid, by simp, by simp⟩, rfl, rfl⟩

theorem emitEvent_sound {descriptorUid : String} {data : Table Json}
    (emitted : context.emitEvent descriptorUid data = .ok handover) :
    handover.Sound context := by
  obtain ⟨rfl, valid⟩ := Handover.check_ok emitted
  exact ⟨⟨valid, by simp, by simp⟩, rfl, rfl⟩

theorem describe_sound {descriptorUid runUid name : String} (named : Named context.openRuns)
    (made : descriptorUid.isEmpty = false)
    (described : context.describe descriptorUid runUid name = .ok handover) :
    handover.Sound context := by
  unfold describe at described
  split at described
  · rename_i member
    obtain rfl := Except.ok.inj described
    refine ⟨⟨?_, ?_, by simp⟩, rfl, rfl⟩
    · simp [Document.validate, Document.identifiers, made, named runUid member]
    · rintro stream ⟨rfl⟩
      exact member
  · cases described

theorem closeRun_sound {runUid : String} {exitStatus : ExitStatus}
    (named : Named context.openRuns)
    (closed : context.closeRun runUid exitStatus = .ok handover) : handover.Sound context := by
  unfold closeRun at closed
  rw [eraseLast?_eq] at closed
  by_cases member : runUid ∈ context.openRuns
  · simp only [member, if_true] at closed
    obtain rfl := Except.ok.inj closed
    refine ⟨⟨?_, by simp, ?_⟩, rfl, rfl⟩
    · simp [Document.validate, Document.identifiers, named runUid member]
    · rintro closing ⟨rfl⟩
      exact member
  · simp only [member, if_false] at closed
    cases closed

/-- An operation is refused without a trace, or its document is handed over. A fault of the
observers on the way changes neither. -/
theorem submit_accounted {Value : Type} (context : PlanContext) (station : Station) (now : Span)
    {handover : Except PlanError Handover} (value : Value)
    (sound : ∀ accepted, handover = .ok accepted → accepted.Sound context) :
    let after := context.submit station now handover value
    ∃ documents, Accounted context station documents after.context after.station := by
  cases handover with
  | error error => exact ⟨[], Accounted.of_journal_eq rfl⟩
  | ok accepted =>
      obtain ⟨fits, openRuns, cancelled⟩ := sound accepted rfl
      have dispatched := station.writes_dispatch now accepted.document
      refine ⟨[accepted.document], ⟨?_, ⟨fits, trivial⟩, ?_, ?_⟩⟩
      · simp only [submit]
        split
        · rename_i same
          rw [same] at dispatched
          exact dispatched
        · rename_i fault same
          rw [same] at dispatched
          exact dispatched.trans (Station.writes_publish _ now (faultEvent context.plan fault))
      · simp only [submit]
        split
        · exact openRuns
        · exact openRuns
      · simp only [submit]
        split
        · exact cancelled
        · exact cancelled

theorem act_accounted (named : Named context.openRuns) (station : Station) (now : Span)
    (action : PlanAction) :
    let after := context.act station now action
    ∃ documents, Accounted context station documents after.context after.station := by
  have silent : ∀ {later : Station}, later.journal = station.journal →
      ∃ documents, Accounted context station documents context later :=
    fun same => ⟨[], Accounted.of_journal_eq same⟩
  have unmoved : station.makeUid.2.journal = station.journal := rfl
  cases action with
  | openRun run => exact submit_accounted context station now _ fun _ => openRun_sound
  | generateRun activateCallbacks =>
      have sound : ∀ accepted,
          context.openRun { RunStart.ofUid station.makeUid.1 with activateCallbacks } =
            .ok accepted → accepted.Sound context := fun _ => openRun_sound
      have submitted := submit_accounted context station.makeUid.2 now
        (StepResult.uid station.makeUid.1) sound
      obtain ⟨documents, accounted⟩ := submitted
      exact ⟨documents, accounted.of_same unmoved⟩
  | descriptor runUid name =>
      have sound : ∀ accepted, context.describe station.makeUid.1 runUid name = .ok accepted →
          accepted.Sound context := fun _ => describe_sound named station.makeUid_nonempty
      simp only [act]
      split
      · have submitted := submit_accounted context station.makeUid.2 now
          (StepResult.uid station.makeUid.1) sound
        obtain ⟨documents, accounted⟩ := submitted
        exact ⟨documents, accounted.of_same unmoved⟩
      · exact submit_accounted context station now _ sound
  | event descriptorUid data =>
      exact submit_accounted context station now _ fun _ => emitEvent_sound
  | closeRun runUid status =>
      exact submit_accounted context station now _ fun _ => closeRun_sound named
  | sleep duration =>
      simp only [act]
      split
      · exact silent rfl
      · exact silent rfl
  | reset => exact silent rfl
  | wait | checkpoint | view | fail | abort | branch => exact silent rfl

end PlanContext

/-- An operation of a context, on the station as it is at an instant. -/
structure Operation where
  context : PlanContext
  station : Station
  now : Span
  action : PlanAction

namespace Operation

open PlanContext

def after (operation : Operation) : After StepResult :=
  operation.context.act operation.station operation.now operation.action

def documents (operation : Operation) : List Document :=
  operation.station.handedUntil operation.after.station

/-- Operations each of which finds those runs open that the one before it left open. -/
def Chained (openRuns : List String) : List Operation → Prop
  | [] => True
  | operation :: later =>
      operation.context.openRuns = openRuns ∧ Chained operation.after.context.openRuns later

def openAfter (openRuns : List String) : List Operation → List String
  | [] => openRuns
  | operation :: later => openAfter operation.after.context.openRuns later

def handed (operations : List Operation) : List Document :=
  operations.flatMap Operation.documents

def calls (operations : List Operation) : List PlanAction :=
  (operations.map Operation.action).filter PlanAction.isCall

theorem accounted (operation : Operation) (named : Named operation.context.openRuns) :
    Accounted operation.context operation.station operation.documents operation.after.context
      operation.after.station := by
  obtain ⟨documents, account⟩ := act_accounted named operation.station operation.now
    operation.action
  have same : operation.documents = documents := account.handed.handedUntil_eq
  rw [same]
  exact account

/-- After each operation those runs are open that the documents so far leave open. -/
theorem Chained.account {openRuns : List String} {operations : List Operation}
    (chained : Chained openRuns operations) (named : Named openRuns) :
    Document.Nested openRuns (handed operations) ∧
      openAfter openRuns operations = (handed operations).foldl Document.track openRuns := by
  induction operations generalizing openRuns with
  | nil => exact ⟨trivial, rfl⟩
  | cons operation later inductionHypothesis =>
      obtain ⟨rfl, laterChained⟩ := chained
      have account := operation.accounted named
      have laterNamed := account.named named
      obtain ⟨laterNested, laterRuns⟩ := inductionHypothesis laterChained laterNamed
      rw [account.openRuns] at laterNested
      refine ⟨?_, ?_⟩
      · exact Document.nested_append.mpr ⟨account.nested, laterNested⟩
      · rw [openAfter, laterRuns, account.openRuns]
        exact List.foldl_append.symm

theorem Chained.take {openRuns : List String} {operations : List Operation}
    (chained : Chained openRuns operations) (count : Nat) :
    Chained openRuns (operations.take count) := by
  induction operations generalizing openRuns count with
  | nil => simpa using chained
  | cons operation later inductionHypothesis =>
      cases count with
      | zero => exact trivial
      | succ count => exact ⟨chained.1, inductionHypothesis chained.2 count⟩

theorem chained_append {openRuns : List String} {earlier later : List Operation} :
    Chained openRuns (earlier ++ later) ↔
      Chained openRuns earlier ∧ Chained (openAfter openRuns earlier) later := by
  induction earlier generalizing openRuns with
  | nil => simp [Chained, openAfter]
  | cons operation rest inductionHypothesis =>
      rw [List.cons_append, Chained, Chained, inductionHypothesis, openAfter]
      exact and_assoc.symm

theorem openAfter_append {openRuns : List String} {earlier later : List Operation} :
    openAfter openRuns (earlier ++ later) = openAfter (openAfter openRuns earlier) later := by
  induction earlier generalizing openRuns with
  | nil => rfl
  | cons operation rest inductionHypothesis => exact inductionHypothesis

end Operation

end PlanSupervision
