import PlanSupervision.Proofs.Monitor.Reduction

/-!
What an escalation writes on its way. Every stage writes lines that are known beforehand, makes at
most one call of a service, and leads to the stage at which that call is answered.
-/

namespace PlanSupervision

namespace Monitor

open MonitorPost

/-- A service answered with an error. -/
def failureLines (monitor : Monitor) (attached : Bool) (now : Span) (message : String)
    (kind : EventKind) (error : CollaboratorError) : Journal :=
  (now, .logged ⟨.warn, message,
    [("task", monitor.taskId), ("error", error.message), ("label", error.label)]⟩) ::
      announced attached now [(monitor.event kind).withReason error.message]

/-- A task is found stuck and the service is asked to cancel it. -/
def stuckLines (monitor : Monitor) (attached : Bool) (now : Span) : Journal :=
  (now, .logged (stuckLine monitor)) ::
    announced attached now [(monitor.event .escalationStuck).withTimeout monitor.timeout] ++
      [(now, .abortRequested monitor.cancelReason)]

def alertLine (monitor : Monitor) (now : Span) (escalation : Escalation) : Span × Entry :=
  (now, .alertRaised (monitor.alert escalation))

/-- The operators are told that a task still waits, and an alert is raised. -/
def waitingLines (monitor : Monitor) (attached : Bool) (now elapsed : Span) : Journal :=
  announced attached now [(monitor.event .escalationWaiting).withReason
    (monitor.alert (.waiting elapsed)).content] ++ [monitor.alertLine now (.waiting elapsed)]

/-- The service answered whether it cancels the task. -/
def cancelLines (monitor : Monitor) (attached : Bool) (now : Span) :
    Except CollaboratorError Unit → Journal
  | .ok () =>
      announced attached now [(monitor.event .cancelRequested).withReason monitor.cancelReason]
  | .error error =>
      monitor.failureLines attached now "cancellation request failed" .cancelFailed error

/-- The alert service answered. -/
def alertLines (monitor : Monitor) (attached : Bool) (now : Span) :
    Except CollaboratorError Unit → Journal
  | .ok () => []
  | .error error =>
      monitor.failureLines attached now "alert could not be raised" .alertFailed error

namespace SameTask

variable {monitor origin : Monitor} (same : monitor.SameTask origin) (attached : Bool)
  (now : Span)

include same

theorem alert_eq (escalation : Escalation) : monitor.alert escalation = origin.alert escalation := by
  cases escalation <;> simp only [alert, same.taskId, same.timeout, same.metadata]

theorem cancelReason_eq : monitor.cancelReason = origin.cancelReason :=
  congrArg (fun timeout : Span => "no progress for " ++ toString timeout.wholeSeconds ++ "s")
    same.timeout

theorem stuckLines_eq : monitor.stuckLines attached now = origin.stuckLines attached now := by
  simp only [stuckLines, stuckLine, event, same.cancelReason_eq, same.taskId, same.timeout]

theorem alertLine_eq (escalation : Escalation) :
    monitor.alertLine now escalation = origin.alertLine now escalation := by
  simp only [alertLine, same.alert_eq]

theorem waitingLines_eq (elapsed : Span) :
    monitor.waitingLines attached now elapsed = origin.waitingLines attached now elapsed := by
  simp only [waitingLines, event, same.alert_eq, same.alertLine_eq, same.taskId]

theorem cancelLines_eq (answer : Except CollaboratorError Unit) :
    monitor.cancelLines attached now answer = origin.cancelLines attached now answer := by
  cases answer <;>
    simp only [cancelLines, failureLines, event, same.cancelReason_eq, same.taskId]

theorem alertLines_eq (answer : Except CollaboratorError Unit) :
    monitor.alertLines attached now answer = origin.alertLines attached now answer := by
  cases answer <;> simp only [alertLines, failureLines, event, same.taskId]

end SameTask

end Monitor

/-- How many stages are left at most. -/
def EscalationStage.left : EscalationStage → Nat
  | .begun => 3
  | .cancelling _ _ => 2
  | .alerting _ _ => 1
  | .ended => 0

namespace MonitorPost

/-- What an escalation does next: the stage that it reaches, the lines that it writes, and how
often it calls the one service and the other. -/
inductive Advance (post : MonitorPost) (now : Span) :
    EscalationCourse → EscalationStage → Journal → Nat → Nat → Prop where
  | asks : Advance post now ⟨.stuck, .begun⟩
      (.cancelling (now + (post.cancelService post.cancelCalls).1)
        (post.cancelService post.cancelCalls).2)
      (post.monitor.stuckLines post.attached now) 1 0
  | notifies (elapsed : Span) : Advance post now ⟨.waiting elapsed, .begun⟩
      (.alerting (now + (post.alertService post.alertCalls).1)
        (post.alertService post.alertCalls).2)
      (post.monitor.waitingLines post.attached now elapsed) 0 1
  | alerts {escalation : Escalation} {due : Span} {answer : Except CollaboratorError Unit}
      (ready : due ≤ now) : Advance post now ⟨escalation, .cancelling due answer⟩
      (.alerting (now + (post.alertService post.alertCalls).1)
        (post.alertService post.alertCalls).2)
      (post.monitor.cancelLines post.attached now answer ++
        [post.monitor.alertLine now escalation]) 0 1
  | ends {escalation : Escalation} {due : Span} {answer : Except CollaboratorError Unit}
      (ready : due ≤ now) : Advance post now ⟨escalation, .alerting due answer⟩ .ended
      (post.monitor.alertLines post.attached now answer) 0 0

/-- An escalation goes on to a stage, writes these lines and makes so many calls. -/
structure Forwards (index : Nat) (stage : EscalationStage) (lines : Journal)
    (requests alerts : Nat) (before after : MonitorPost) : Prop where
  attached : after.attached = before.attached
  services : after.cancelService = before.cancelService ∧
    after.alertService = before.alertService
  requests : after.cancelCalls = before.cancelCalls + requests
  alerts : after.alertCalls = before.alertCalls + alerts
  journal : after.journal = before.journal ++ lines
  escalations : after.escalations =
    before.escalations.modify index fun course => { course with stage }

theorem noteFailure_eq (post : MonitorPost) (now : Span) (message : String) (kind : EventKind)
    (error : CollaboratorError) :
    post.noteFailure now message kind error =
      { post with
        journal := post.journal ++
          post.monitor.failureLines post.attached now message kind error
        bus := post.bus.map (·.send ((post.monitor.event kind).withReason error.message)) } := by
  simp only [noteFailure, publish_eq, write, Journal.write, Monitor.failureLines,
    List.append_assoc]
  rfl

theorem noteCancel_eq (post : MonitorPost) (now : Span)
    (answer : Except CollaboratorError Unit) :
    ∃ bus, bus.isSome = post.bus.isSome ∧ post.noteCancel now answer =
      { post with
        journal := post.journal ++ post.monitor.cancelLines post.attached now answer
        bus } := by
  cases answer with
  | ok _ =>
      refine ⟨_, ?_, publish_eq post now _⟩
      simp only [Option.isSome_map]
  | error error =>
      refine ⟨_, ?_, noteFailure_eq post now _ _ error⟩
      simp only [Option.isSome_map]

theorem noteAlert_eq (post : MonitorPost) (now : Span)
    (answer : Except CollaboratorError Unit) :
    ∃ bus, bus.isSome = post.bus.isSome ∧ post.noteAlert now answer =
      { post with
        journal := post.journal ++ post.monitor.alertLines post.attached now answer
        bus } := by
  cases answer with
  | ok _ =>
      refine ⟨post.bus, rfl, ?_⟩
      simp only [Monitor.alertLines, List.append_nil]
      rfl
  | error error =>
      refine ⟨_, ?_, noteFailure_eq post now _ _ error⟩
      simp only [Option.isSome_map]

/-- A stage of an escalation is waited for, or it is left for the next one. -/
theorem advanceEscalation_cases (post : MonitorPost) (now : Span) (index : Nat) :
    (post.advanceEscalation now index = post ∧ ∀ course, post.escalations[index]? = some course →
      course.stage = .ended ∨ now < course.stage.due) ∨
      ∃ course stage lines requests alerts, post.escalations[index]? = some course ∧
        post.Advance now course stage lines requests alerts ∧
        Forwards index stage lines requests alerts post (post.advanceEscalation now index) := by
  unfold advanceEscalation
  split
  · rename_i missing
    refine Or.inl ⟨rfl, fun course found => ?_⟩
    cases missing.symm.trans found
  · rename_i escalation ended
    refine Or.inl ⟨rfl, fun course found => ?_⟩
    obtain rfl := Option.some.inj (ended.symm.trans found)
    exact Or.inl rfl
  · rename_i elapsed found
    refine Or.inr ⟨_, _, _, _, _, found, .notifies elapsed, ?_⟩
    simp only [publish_eq, raiseAlert]
    refine ⟨?_, ⟨rfl, rfl⟩, rfl, rfl, ?_, rfl⟩
    · simp only [attached, setStage, write, Option.isSome_map]
    · simp only [setStage, write, Journal.write, Monitor.waitingLines, Monitor.alertLine,
        List.append_assoc]
      rfl
  · rename_i found
    refine Or.inr ⟨_, _, _, _, _, found, .asks, ?_⟩
    simp only [publish_eq, requestCancel]
    refine ⟨?_, ⟨rfl, rfl⟩, rfl, rfl, ?_, rfl⟩
    · simp only [attached, setStage, write, Option.isSome_map]
    · simp only [setStage, write, Journal.write, Monitor.stuckLines, List.append_assoc]
      rfl
  · rename_i escalation due answer found
    split
    · rename_i ready
      refine Or.inr ⟨_, _, _, _, _, found, .alerts ready, ?_⟩
      obtain ⟨bus, attached, noted⟩ := noteCancel_eq post now answer
      simp only [noted, raiseAlert]
      refine ⟨attached, ⟨rfl, rfl⟩, rfl, rfl, ?_, rfl⟩
      simp only [setStage, write, Journal.write, Monitor.alertLine, List.append_assoc]
      rfl
    · rename_i early
      refine Or.inl ⟨rfl, fun course other => ?_⟩
      obtain rfl := Option.some.inj (found.symm.trans other)
      exact Or.inr (Nat.not_le.mp early)
  · rename_i escalation due answer found
    split
    · rename_i ready
      refine Or.inr ⟨_, _, _, _, _, found, .ends ready, ?_⟩
      obtain ⟨bus, attached, noted⟩ := noteAlert_eq post now answer
      simp only [noted]
      exact ⟨attached, ⟨rfl, rfl⟩, rfl, rfl, rfl, rfl⟩
    · rename_i early
      refine Or.inl ⟨rfl, fun course other => ?_⟩
      obtain rfl := Option.some.inj (found.symm.trans other)
      exact Or.inr (Nat.not_le.mp early)

/-- Of the escalations of a post one may have come nearer to its end. -/
structure Nears (index : Nat) (before after : MonitorPost) : Prop where
  count : after.escalations.length = before.escalations.length
  others : ∀ other, other ≠ index → after.escalations[other]? = before.escalations[other]?
  nearer : ∀ course, before.escalations[index]? = some course →
    ∃ later, after.escalations[index]? = some later ∧ later.stage.left ≤ course.stage.left

namespace Nears

variable {index : Nat} {before after last : MonitorPost}

theorem refl (index : Nat) (post : MonitorPost) : Nears index post post :=
  ⟨rfl, fun _ _ => rfl, fun course found => ⟨course, found, Nat.le_refl _⟩⟩

theorem trans (first : Nears index before after) (second : Nears index after last) :
    Nears index before last := by
  refine ⟨second.count.trans first.count,
    fun other different => (second.others other different).trans (first.others other different),
    fun course found => ?_⟩
  obtain ⟨middle, foundMiddle, nearer⟩ := first.nearer course found
  obtain ⟨later, foundLater, nearest⟩ := second.nearer middle foundMiddle
  exact ⟨later, foundLater, Nat.le_trans nearest nearer⟩

/-- A stage whose time has come is left for another. -/
theorem advance (post : MonitorPost) (now : Span) (index : Nat) :
    Nears index post (post.advanceEscalation now index) ∧
      ∀ course, post.escalations[index]? = some course → course.stage ≠ .ended →
        course.stage.due ≤ now →
        ∃ later, (post.advanceEscalation now index).escalations[index]? = some later ∧
          later.stage.left < course.stage.left := by
  rcases post.advanceEscalation_cases now index with
    ⟨same, waits⟩ | ⟨course, stage, lines, requests, alerts, found, advance, forwards⟩
  · simp only [same]
    refine ⟨refl index post, fun course found unended ready => ?_⟩
    rcases waits course found with ended | early
    · exact absurd ended unended
    · exact absurd ready (Nat.not_le.mpr early)
  · have lower : stage.left < course.stage.left := by
      cases advance <;> simp [EscalationStage.left]
    have here : (post.advanceEscalation now index).escalations[index]? =
        some { course with stage } := by
      simp only [forwards.escalations, List.getElem?_modify, found, if_true, Option.map_eq_map,
        Option.map_some]
    refine ⟨⟨?_, ?_, ?_⟩, ?_⟩
    · simp only [forwards.escalations, List.length_modify]
    · intro other different
      simp only [forwards.escalations, List.getElem?_modify, different.symm, if_false,
        Option.map_eq_map, Option.map_id']
    · intro other otherFound
      obtain rfl := Option.some.inj (found.symm.trans otherFound)
      exact ⟨_, here, Nat.le_of_lt lower⟩
    · intro other otherFound _ _
      obtain rfl := Option.some.inj (found.symm.trans otherFound)
      exact ⟨_, here, lower⟩

theorem turn (post : MonitorPost) (now : Span) (index : Nat) :
    Nears index post (post.escalationTurn now index) ∧
      ∀ course, post.escalations[index]? = some course → course.stage ≠ .ended →
        course.stage.due ≤ now →
        ∃ later, (post.escalationTurn now index).escalations[index]? = some later ∧
          later.stage.left < course.stage.left := by
  obtain ⟨first, lower⟩ := advance post now index
  have rest := (advance (post.advanceEscalation now index) now index).1.trans
    (advance ((post.advanceEscalation now index).advanceEscalation now index) now index).1
  refine ⟨first.trans rest, fun course found unended ready => ?_⟩
  obtain ⟨middle, foundMiddle, lowered⟩ := lower course found unended ready
  obtain ⟨later, foundLater, nearer⟩ := rest.nearer middle foundMiddle
  exact ⟨later, foundLater, Nat.lt_of_le_of_lt nearer lowered⟩

end Nears

/-- Moves in the order of their instants, all of them between two instants. -/
structure Chronological (since finish : Span) (history : History) : Prop where
  forward : since ≤ finish
  ordered : history.Pairwise fun former latter => former.1 ≤ latter.1
  inTime : ∀ entry ∈ history, since ≤ entry.1 ∧ entry.1 ≤ finish

namespace Chronological

theorem nil (since : Span) : Chronological since since [] :=
  ⟨Nat.le_refl since, .nil, List.forall_mem_nil _⟩

theorem append {since middle finish : Span} {earlier later : History}
    (first : Chronological since middle earlier) (second : Chronological middle finish later) :
    Chronological since finish (earlier ++ later) := by
  refine ⟨Nat.le_trans first.forward second.forward,
    List.pairwise_append.mpr ⟨first.ordered, second.ordered, ?_⟩,
    List.forall_mem_append.mpr ⟨?_, ?_⟩⟩
  · intro former formerMember latter latterMember
    exact Nat.le_trans (first.inTime former formerMember).2 (second.inTime latter latterMember).1
  · intro entry member
    obtain ⟨notBefore, notAfter⟩ := first.inTime entry member
    exact ⟨notBefore, Nat.le_trans notAfter second.forward⟩
  · intro entry member
    obtain ⟨notBefore, notAfter⟩ := second.inTime entry member
    exact ⟨Nat.le_trans first.forward notBefore, notAfter⟩

theorem singleton {since instant : Span} (notBefore : since ≤ instant) (move : Move) :
    Chronological since instant [(instant, move)] :=
  ⟨notBefore, List.pairwise_singleton _ _,
    List.forall_mem_singleton.mpr ⟨notBefore, Nat.le_refl instant⟩⟩

end Chronological

/-- Turns of an escalation, each when its time has come, bring it to its end. -/
theorem exists_turns_of_escalation (index count : Nat) (post : MonitorPost) (since : Span)
    (few : ∀ course, post.escalations[index]? = some course → course.stage.left ≤ count) :
    ∃ turns finish, Chronological since finish turns ∧
      (∀ entry ∈ turns, entry.2 = .turn (.escalation index)) ∧ Nears index post (post.run turns) ∧
      ∀ course, (post.run turns).escalations[index]? = some course → course.stage = .ended := by
  induction count generalizing post since with
  | zero =>
      refine ⟨[], since, .nil since, List.forall_mem_nil _, .refl index post, ?_⟩
      intro course found
      have nothing := few course found
      cases stage : course.stage <;> simp_all [EscalationStage.left]
  | succ count inductionHypothesis =>
      by_cases unended : ∃ course, post.escalations[index]? = some course ∧
          course.stage ≠ .ended
      · obtain ⟨course, found, unended⟩ := unended
        obtain ⟨nears, lower⟩ := Nears.turn post (max since course.stage.due) index
        obtain ⟨later, foundLater, lowered⟩ :=
          lower course found unended (Nat.le_max_right _ _)
        have fewer : ∀ other,
            (post.escalationTurn (max since course.stage.due) index).escalations[index]? =
              some other → other.stage.left ≤ count := by
          intro other otherFound
          obtain rfl := Option.some.inj (foundLater.symm.trans otherFound)
          exact Nat.le_of_lt_succ (Nat.lt_of_lt_of_le lowered (few course found))
        obtain ⟨turns, finish, chronological, own, onward, ended⟩ :=
          inductionHypothesis _ (max since course.stage.due) fewer
        refine ⟨(max since course.stage.due, .turn (.escalation index)) :: turns, finish, ?_,
          List.forall_mem_cons.mpr ⟨rfl, own⟩, nears.trans onward, ended⟩
        exact (Chronological.singleton (Nat.le_max_left _ _) _).append chronological
      · refine ⟨[], since, .nil since, List.forall_mem_nil _, .refl index post, ?_⟩
        intro course found
        exact Classical.not_not.mp fun goesOn => unended ⟨course, found, goesOn⟩

/-- All escalations can be brought to their ends, one after the other. -/
theorem exists_turns_ending (post : MonitorPost) (since : Span) :
    ∃ turns finish, Chronological since finish turns ∧
      (∀ entry ∈ turns, ∃ index, entry.2 = .turn (.escalation index)) ∧
      ∀ course ∈ (post.run turns).escalations, course.stage = .ended := by
  have upTo : ∀ count : Nat, ∃ turns finish, Chronological since finish turns ∧
      (∀ entry ∈ turns, ∃ index, entry.2 = .turn (.escalation index)) ∧
        (post.run turns).escalations.length = post.escalations.length ∧
        ∀ index : Nat, index < count → ∀ course : EscalationCourse,
          (post.run turns).escalations[index]? = some course → course.stage = .ended := by
    intro count
    induction count with
    | zero =>
        exact ⟨[], since, .nil since, List.forall_mem_nil _, rfl,
          fun _ less => absurd less (Nat.not_lt_zero _)⟩
    | succ count inductionHypothesis =>
        obtain ⟨turns, middle, earlier, own, length, ended⟩ := inductionHypothesis
        obtain ⟨more, finish, later, ownMore, nears, endedLast⟩ :=
          exists_turns_of_escalation count 3 (post.run turns) middle fun course _ => by
            cases course.stage <;> simp [EscalationStage.left]
        refine ⟨turns ++ more, finish, earlier.append later, List.forall_mem_append.mpr
          ⟨own, fun entry member => ⟨count, ownMore entry member⟩⟩, ?_, ?_⟩
        · simp only [run_append, nears.count, length]
        · intro index less course found
          simp only [run_append] at found
          by_cases last : index = count
          · subst last
            exact endedLast course found
          · simp only [nears.others index last] at found
            exact ended index (by omega) course found
  obtain ⟨turns, finish, chronological, own, length, ended⟩ := upTo post.escalations.length
  refine ⟨turns, finish, chronological, own, fun course member => ?_⟩
  obtain ⟨index, inside, found⟩ := List.mem_iff_getElem.mp member
  exact ended index (length ▸ inside) course (found ▸ List.getElem?_eq_getElem inside)

/-- The escalation that is given a turn. -/
def Move.escalation? : Move → Option Nat
  | turn (.escalation index) => some index
  | _ => none

theorem Tracks.step_yields {origin : Monitor} {force : Option Bool} {post : MonitorPost}
    (tracks : Tracks origin force post) (now : Span) {move : Move}
    (other : move.escalation? = none) :
    ∃ events decided, Yields now post (post.step now move) events decided ∧
      ∀ event ∈ events, event.kind.isErrand = false := by
  match move, other with
  | .enter, _ => exact ⟨_, _, .enter post now, List.forall_mem_singleton.mpr rfl⟩
  | .exit, _ =>
      refine ⟨_, _, .exit post now, ?_⟩
      split
      · exact List.forall_mem_singleton.mpr rfl
      · exact List.forall_mem_nil _
  | .progress notification, _ =>
      obtain ⟨events, changes, yields⟩ := Yields.progress post now notification
      refine ⟨events, [], yields, fun event member => ?_⟩
      simp only [changes event member]
      rfl
  | .turn (.timer handle), _ =>
      obtain ⟨decided, yields⟩ := Yields.timerTurn post now handle
      exact ⟨[], decided, yields, List.forall_mem_nil _⟩
  | .turn (.follower job), _ =>
      have same : post.step now (.turn (.follower job)) = post :=
        tracks.followerTurn_eq_self now job
      simp only [same]
      exact ⟨[], [], .refl now post, List.forall_mem_nil _⟩

end MonitorPost

end PlanSupervision
