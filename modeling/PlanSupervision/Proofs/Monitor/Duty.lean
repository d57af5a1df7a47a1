import PlanSupervision.Proofs.Monitor.History

/-!
What an escalation has to do: the operators are notified on the bus if there is one, a stuck
task is cancelled, and an alert is raised. Every stage does the first of what is left and
leaves the rest to the stages after it.
-/

namespace PlanSupervision

inductive Duty where
  /-- An event of the escalation is published. -/
  | notice
  /-- The service is asked to cancel the task. -/
  | cancellation
  | alert
deriving DecidableEq

def EventKind.isNotice : EventKind → Bool
  | escalationWaiting | escalationStuck => true
  | _ => false

/-- The duty that an entry does, if any. -/
def Entry.duty? : Entry → Option Duty
  | published event => if event.kind.isNotice then some .notice else none
  | abortRequested _ => some .cancellation
  | alertRaised _ => some .alert
  | _ => none

namespace Journal

def duties (journal : Journal) : List Duty := journal.filterMap fun entry => entry.2.duty?

theorem duties_append (earlier later : Journal) :
    duties (earlier ++ later) = earlier.duties ++ later.duties :=
  List.filterMap_append

end Journal

/-- All that an escalation has to do, in order. -/
def Escalation.duties (attached : Bool) (escalation : Escalation) : List Duty :=
  (if attached then [.notice] else []) ++
    match escalation with
    | .waiting _ => [.alert]
    | .stuck => [.cancellation, .alert]

/-- What an escalation under way has still to do. -/
def EscalationCourse.owes (attached : Bool) (course : EscalationCourse) : List Duty :=
  match course.stage with
  | .begun => course.escalation.duties attached
  | .cancelling _ _ => [.alert]
  | .alerting _ _ | .ended => []

/-- The instant from which an escalation can go on. -/
def EscalationStage.due : EscalationStage → Span
  | .begun | .ended => 0
  | .cancelling due _ | .alerting due _ => due

/-- Doing some of what one entry of a list owes leaves the rest. -/
theorem flatMap_modify_perm {Course Task : Type} {owes : Course → List Task}
    {change : Course → Course} {courses : List Course} {index : Nat} {course : Course}
    (found : courses[index]? = some course) {done : List Task}
    (left : done ++ owes (change course) = owes course) :
    (done ++ (courses.modify index change).flatMap owes).Perm (courses.flatMap owes) := by
  induction courses generalizing index with
  | nil => cases found
  | cons head rest inductionHypothesis =>
      cases index with
      | zero =>
          obtain rfl := Option.some.inj found
          simp only [List.modify_zero_cons, List.flatMap_cons, ← List.append_assoc, left]
          exact List.Perm.refl _
      | succ index =>
          have foundLater : rest[index]? = some course := by simpa using found
          have later := inductionHypothesis foundLater
          simp only [List.modify_succ_cons, List.flatMap_cons]
          refine List.Perm.trans ?_ (later.append_left (owes head))
          simp only [← List.append_assoc]
          exact List.perm_append_comm.append_right _

namespace MonitorPost

def attached (post : MonitorPost) : Bool := post.bus.isSome

/-- What the escalations under way have still to do. -/
def owed (post : MonitorPost) : List Duty :=
  post.escalations.flatMap (EscalationCourse.owes post.attached)

/-- All that the escalations decided so far have to do, done or not. -/
def due (post : MonitorPost) : List Duty :=
  (post.escalations.map EscalationCourse.escalation).flatMap (Escalation.duties post.attached)

/-- From one state of a post to a later one these duties were done. -/
def Does (before after : MonitorPost) (duties : List Duty) : Prop :=
  ∃ written : Journal, after.journal = before.journal ++ written ∧ written.duties = duties

namespace Does

variable {before after last : MonitorPost} {duties more : List Duty}

theorem of_journal_eq (same : after.journal = before.journal) : Does before after [] := by
  refine ⟨[], ?_, rfl⟩
  rw [same, List.append_nil]

theorem trans (first : Does before after duties) (second : Does after last more) :
    Does before last (duties ++ more) := by
  obtain ⟨earlier, earlierJournal, rfl⟩ := first
  obtain ⟨later, laterJournal, rfl⟩ := second
  refine ⟨earlier ++ later, ?_, Journal.duties_append earlier later⟩
  rw [laterJournal, earlierJournal, List.append_assoc]

theorem write (post : MonitorPost) (now : Span) (entry : Entry) :
    Does post (post.write now entry) entry.duty?.toList := by
  refine ⟨[(now, entry)], rfl, ?_⟩
  cases duty : entry.duty? <;> simp [Journal.duties, duty]

theorem journal_duties (does : Does before after duties) :
    after.journal.duties = before.journal.duties ++ duties := by
  obtain ⟨written, journal, rfl⟩ := does
  rw [journal, Journal.duties_append]

/-- The duties done between two states of a post are determined by these. -/
theorem unique (does : Does before after duties) (others : Does before after more) :
    duties = more := by
  apply List.append_cancel_left
  rw [← does.journal_duties, others.journal_duties]

end Does

/-- A step that does these duties and leaves the escalations under way as they are. -/
structure Reports (before after : MonitorPost) (duties : List Duty) : Prop where
  attached : after.attached = before.attached
  escalations : after.escalations = before.escalations
  does : Does before after duties

namespace Reports

variable {before after last : MonitorPost} {duties more : List Duty}

theorem refl (post : MonitorPost) : Reports post post [] := ⟨rfl, rfl, .of_journal_eq rfl⟩

theorem trans (first : Reports before after duties) (second : Reports after last more) :
    Reports before last (duties ++ more) :=
  ⟨second.attached.trans first.attached, second.escalations.trans first.escalations,
    first.does.trans second.does⟩

theorem write (post : MonitorPost) (now : Span) (entry : Entry) :
    Reports post (post.write now entry) entry.duty?.toList :=
  ⟨rfl, rfl, .write post now entry⟩

theorem publish (post : MonitorPost) (now : Span) (event : Event) :
    Reports post (post.publish now event)
      (if post.attached && event.kind.isNotice then [.notice] else []) := by
  cases bus : post.bus with
  | none =>
      simp only [MonitorPost.publish, bus, MonitorPost.attached, Option.isSome_none,
        Bool.false_and, Bool.false_eq_true, if_false]
      exact refl post
  | some channel =>
      simp only [MonitorPost.publish, bus, MonitorPost.attached, Option.isSome_some,
        Bool.true_and]
      refine ⟨by simp [MonitorPost.attached, bus], rfl, [(now, .published event)], rfl, ?_⟩
      cases notice : event.kind.isNotice <;> simp [Journal.duties, Entry.duty?, notice]

theorem publish_other (post : MonitorPost) (now : Span) {event : Event}
    (other : event.kind.isNotice = false) : Reports post (post.publish now event) [] := by
  simpa [other] using publish post now event

theorem publish_notice (post : MonitorPost) (now : Span) {event : Event}
    (notice : event.kind.isNotice = true) :
    Reports post (post.publish now event) (if post.attached then [.notice] else []) := by
  simpa [notice] using publish post now event

theorem noteFailure (post : MonitorPost) (now : Span) (message : String) {kind : EventKind}
    (error : CollaboratorError) (other : kind.isNotice = false) :
    Reports post (post.noteFailure now message kind error) [] :=
  (write post now (.logged _)).trans (publish_other _ now other)

theorem noteCancel (post : MonitorPost) (now : Span) (answer : Except CollaboratorError Unit) :
    Reports post (post.noteCancel now answer) [] := by
  cases answer with
  | ok _ => exact publish_other post now rfl
  | error error => exact noteFailure post now _ error rfl

theorem noteAlert (post : MonitorPost) (now : Span) (answer : Except CollaboratorError Unit) :
    Reports post (post.noteAlert now answer) [] := by
  cases answer with
  | ok _ => exact refl post
  | error error => exact noteFailure post now _ error rfl

end Reports

/-- From one state of a post to a later one these duties are done and these escalations are
decided. What was owed before and what the escalations have to do is either done or still
owed. -/
structure Settles (before after : MonitorPost) (done : List Duty) (decided : List Escalation) :
    Prop where
  attached : after.attached = before.attached
  escalations : after.escalations.map EscalationCourse.escalation =
    before.escalations.map EscalationCourse.escalation ++ decided
  does : Does before after done
  left : (done ++ after.owed).Perm
    (before.owed ++ decided.flatMap (Escalation.duties before.attached))

namespace Settles

variable {before after last : MonitorPost} {done more : List Duty}
  {decided further : List Escalation}

theorem of_reports (reports : Reports before after []) : Settles before after [] [] := by
  refine ⟨reports.attached, by rw [reports.escalations, List.append_nil], reports.does, ?_⟩
  rw [List.nil_append, List.flatMap_nil, List.append_nil, owed, owed, reports.attached,
    reports.escalations]

theorem refl (post : MonitorPost) : Settles post post [] [] := of_reports (.refl post)

theorem trans (first : Settles before after done decided)
    (second : Settles after last more further) :
    Settles before last (done ++ more) (decided ++ further) := by
  refine ⟨second.attached.trans first.attached, ?_, first.does.trans second.does, ?_⟩
  · rw [second.escalations, first.escalations, List.append_assoc]
  · have left := second.left
    rw [first.attached] at left
    rw [List.append_assoc, List.flatMap_append, ← List.append_assoc before.owed]
    refine (left.append_left done).trans ?_
    rw [← List.append_assoc]
    exact first.left.append_right _

theorem decidedSince_eq (settles : Settles before after done decided) :
    decidedSince before after = decided := by
  have count : before.escalations.length =
      (before.escalations.map EscalationCourse.escalation).length := by
    rw [List.length_map]
  rw [decidedSince, List.map_drop, settles.escalations, count, List.drop_left]

/-- A course goes on to a stage at which it owes what was not done. -/
theorem setStage {middle : MonitorPost} {index : Nat} {course : EscalationCourse}
    (reports : Reports before middle done)
    (found : before.escalations[index]? = some course) {stage : EscalationStage}
    (left : done ++ EscalationCourse.owes before.attached { course with stage } =
      course.owes before.attached)
    (attached : after.attached = middle.attached) (journal : after.journal = middle.journal)
    (escalations : after.escalations = (middle.setStage index stage).escalations) :
    Settles before after done [] := by
  have advanced : after.escalations =
      before.escalations.modify index fun course => { course with stage } := by
    rw [escalations, MonitorPost.setStage, reports.escalations]
  refine ⟨attached.trans reports.attached, ?_, ?_, ?_⟩
  · rw [advanced, List.append_nil]
    apply List.ext_getElem?
    intro position
    rw [List.getElem?_map, List.getElem?_map, List.getElem?_modify]
    cases before.escalations[position]? with
    | none => rfl
    | some other => by_cases same : index = position <;> simp [same]
  · have does := reports.does.trans (.of_journal_eq journal)
    rwa [List.append_nil] at does
  · rw [List.flatMap_nil, List.append_nil, owed, owed, attached.trans reports.attached, advanced]
    exact flatMap_modify_perm found left

theorem raiseAlert {middle : MonitorPost} {index : Nat} {course : EscalationCourse}
    (reports : Reports before middle done) (found : before.escalations[index]? = some course)
    (left : done ++ [.alert] = course.owes before.attached) (now : Span)
    (escalation : Escalation) :
    Settles before (middle.raiseAlert now index escalation) (done ++ [.alert]) [] := by
  refine setStage (reports.trans (.write middle now (.alertRaised _))) found ?_ rfl rfl rfl
  rw [← left]
  exact List.append_nil _

theorem requestCancel {middle : MonitorPost} {index : Nat} {course : EscalationCourse}
    (reports : Reports before middle done) (found : before.escalations[index]? = some course)
    (left : done ++ [.cancellation, .alert] = course.owes before.attached) (now : Span) :
    Settles before (middle.requestCancel now index) (done ++ [.cancellation]) [] := by
  refine setStage (reports.trans (.write middle now (.abortRequested _))) found ?_ rfl rfl rfl
  rw [← left, List.append_assoc]
  rfl

theorem escalate (post : MonitorPost) (now : Span) (escalation : Escalation) :
    Settles post (post.carryOut now (.escalate escalation)) [] [escalation] := by
  refine ⟨rfl, ?_, .of_journal_eq rfl, ?_⟩
  · simp [carryOut, MonitorPost.wake]
  · have owes : (post.carryOut now (.escalate escalation)).owed =
        post.owed ++ [escalation].flatMap (Escalation.duties post.attached) := by
      simp only [owed, carryOut, MonitorPost.wake, List.flatMap_append]
      rfl
    rw [List.nil_append, owes]

end Settles

/-- A stage of an escalation does what it owes first, at the latest when it is answered. -/
theorem advanceEscalation_settles (post : MonitorPost) (now : Span) (index : Nat) :
    ∃ done, Settles post (post.advanceEscalation now index) done [] ∧
      ∀ course, post.escalations[index]? = some course → course.stage.due ≤ now →
        course.owes post.attached ≠ [] → done ≠ [] := by
  unfold MonitorPost.advanceEscalation
  split
  · rename_i missing
    refine ⟨[], .refl post, ?_⟩
    intro course found
    rw [missing] at found
    cases found
  · rename_i escalation ended
    refine ⟨[], .refl post, ?_⟩
    intro course found ready owes
    rw [ended] at found
    cases found
    exact absurd rfl owes
  · rename_i elapsed begun
    refine ⟨_, .raiseAlert (.publish_notice post now rfl) begun rfl now _, ?_⟩
    simp
  · rename_i begun
    have logged := Reports.write post now (.logged (stuckLine post.monitor))
    refine ⟨_, .requestCancel (logged.trans (.publish_notice _ now rfl)) begun rfl now, ?_⟩
    simp
  · rename_i escalation due answer cancelling
    split
    · refine ⟨_, .raiseAlert (.noteCancel post now answer) cancelling rfl now escalation, ?_⟩
      simp
    · rename_i early
      refine ⟨[], .refl post, ?_⟩
      intro course found ready
      rw [cancelling] at found
      cases found
      exact absurd ready early
  · rename_i escalation due answer alerting
    refine ⟨[], ?_, ?_⟩
    · split
      · exact .setStage (.noteAlert post now answer) alerting rfl rfl rfl rfl
      · exact .refl post
    · intro course found ready owes
      rw [alerting] at found
      cases found
      exact absurd rfl owes

theorem escalationTurn_settles (post : MonitorPost) (now : Span) (index : Nat) :
    ∃ done, Settles post (post.escalationTurn now index) done [] ∧
      ∀ course, post.escalations[index]? = some course → course.stage.due ≤ now →
        course.owes post.attached ≠ [] → done ≠ [] := by
  obtain ⟨done, first, does⟩ := post.advanceEscalation_settles now index
  obtain ⟨more, second, _⟩ :=
    (post.advanceEscalation now index).advanceEscalation_settles now index
  obtain ⟨rest, third, _⟩ :=
    ((post.advanceEscalation now index).advanceEscalation now
      index).advanceEscalation_settles now index
  refine ⟨_, (first.trans second).trans third, ?_⟩
  intro course found ready owes nothing
  simp only [List.append_eq_nil_iff] at nothing
  exact does course found ready owes nothing.1.1

end MonitorPost

/-- An effect that publishes no event of an escalation. -/
def MonitorEffect.isQuiet : MonitorEffect → Bool
  | publish event => !event.kind.isNotice
  | startTimer _ _ | stopTimer _ | escalate _ => true

namespace Monitor

variable (monitor : Monitor)

theorem isQuiet_of_mem_arm : ∀ effect ∈ monitor.arm.2, effect.isQuiet = true := by
  intro effect member
  rcases List.mem_append.mp member with stopped | started
  · obtain ⟨handle, _, rfl⟩ := List.mem_map.mp stopped
    rfl
  · obtain rfl := List.mem_singleton.mp started
    rfl

theorem isQuiet_of_mem_enter (now : Span) :
    ∀ effect ∈ (monitor.enter now).2, effect.isQuiet = true := by
  intro effect member
  rcases List.mem_append.mp member with armed | published
  · exact isQuiet_of_mem_arm _ effect armed
  · obtain rfl := List.mem_singleton.mp published
    rfl

theorem isQuiet_of_mem_progress (progress : Progress) :
    ∀ effect ∈ (monitor.progress progress).2, effect.isQuiet = true := by
  intro effect member
  unfold Monitor.progress at member
  split at member
  · cases member
  · split at member
    · cases member
    · rcases List.mem_append.mp member with armed | published
      · exact isQuiet_of_mem_arm _ effect armed
      · obtain rfl := List.mem_singleton.mp published
        rfl

theorem isQuiet_of_mem_exit : ∀ effect ∈ monitor.exit.2, effect.isQuiet = true := by
  intro effect member
  unfold Monitor.exit at member
  split at member
  · rcases List.mem_append.mp member with stopped | published
    · obtain ⟨handle, _, rfl⟩ := List.mem_map.mp stopped
      rfl
    · obtain rfl := List.mem_singleton.mp published
      rfl
  · cases member

theorem isQuiet_of_mem_expire (generation : UInt64) (now : Span) :
    ∀ effect ∈ (monitor.expire generation now).2, effect.isQuiet = true := by
  intro effect member
  unfold Monitor.expire at member
  split at member
  · cases member
  · split at member
    · rcases List.mem_append.mp member with started | escalated
      · obtain rfl := List.mem_singleton.mp started
        rfl
      · obtain rfl := List.mem_singleton.mp escalated
        rfl
    · obtain rfl := List.mem_singleton.mp member
      rfl

end Monitor

namespace MonitorPost

variable {post : MonitorPost}

theorem carryOut_settles (post : MonitorPost) (now : Span) {effect : MonitorEffect}
    (quiet : effect.isQuiet = true) :
    ∃ decided, Settles post (post.carryOut now effect) [] decided := by
  cases effect with
  | startTimer handle generation => exact ⟨[], .of_reports ⟨rfl, rfl, .of_journal_eq rfl⟩⟩
  | stopTimer handle => exact ⟨[], .of_reports ⟨rfl, rfl, .of_journal_eq rfl⟩⟩
  | publish event =>
      have other : event.kind.isNotice = false := by simpa [MonitorEffect.isQuiet] using quiet
      exact ⟨[], .of_reports (.publish_other post now other)⟩
  | escalate escalation => exact ⟨[escalation], .escalate post now escalation⟩

theorem carryOutAll_settles (post : MonitorPost) (now : Span)
    (step : Monitor × List MonitorEffect) (quiet : ∀ effect ∈ step.2, effect.isQuiet = true) :
    ∃ decided, Settles post (post.carryOutAll now step) [] decided := by
  obtain ⟨monitor, effects⟩ := step
  have folded : ∀ {earlier : List Escalation} {middle : MonitorPost},
      Settles post middle [] earlier →
        ∃ decided, Settles post (effects.foldl (carryOut now) middle) [] decided := by
    induction effects with
    | nil => exact fun settles => ⟨_, settles⟩
    | cons effect rest inductionHypothesis =>
        intro earlier middle settles
        obtain ⟨decided, carried⟩ := middle.carryOut_settles now (quiet effect (by simp))
        have quietRest : ∀ other ∈ rest, other.isQuiet = true :=
          fun other member => quiet other (List.mem_cons_of_mem effect member)
        exact inductionHypothesis quietRest (settles.trans carried)
  exact folded (.of_reports ⟨rfl, rfl, .of_journal_eq rfl⟩)

end MonitorPost

end PlanSupervision
