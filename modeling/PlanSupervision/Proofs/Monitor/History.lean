import PlanSupervision.Monitor.Post

/-!
Histories of a monitoring post: calls from outside and turns of its tasks, each at an instant.
A history is timely when the clock waits for the timers. Escalations are decided by the
monitor alone, so the tasks that carry them out neither decide any nor touch the timers.
-/

namespace PlanSupervision

namespace MonitorPost

/-- What can happen to a monitoring post. -/
inductive Move where
  | enter
  | progress (progress : Progress)
  | exit
  | turn (task : MonitorTask)

/-- Does a move call the monitor? A follower calls it for the events that it takes. -/
def Move.isCall : Move → Bool
  | turn (.timer _) | turn (.escalation _) => false
  | enter | progress _ | exit | turn (.follower _) => true

/-- Moves in order, with the instant of each. -/
abbrev History := List (Span × Move)

def step (post : MonitorPost) (now : Span) : Move → MonitorPost
  | .enter => post.enter now
  | .progress progress => post.progress now progress
  | .exit => post.exit now
  | .turn task => post.turn now task

def run (post : MonitorPost) (history : History) : MonitorPost :=
  history.foldl (fun post entry => post.step entry.1 entry.2) post

@[simp]
theorem run_nil (post : MonitorPost) : post.run [] = post := rfl

@[simp]
theorem run_cons (post : MonitorPost) (instant : Span) (move : Move) (later : History) :
    post.run ((instant, move) :: later) = (post.step instant move).run later := rfl

theorem run_append (post : MonitorPost) (earlier later : History) :
    post.run (earlier ++ later) = (post.run earlier).run later := by
  simp only [run, List.foldl_append]

/-- The escalations that were decided from one state of a post to a later one. -/
def decidedSince (before after : MonitorPost) : List Escalation :=
  (after.escalations.drop before.escalations.length).map EscalationCourse.escalation

/-- The escalations that a history decides, with the instant of each. -/
def decisions (post : MonitorPost) : History → List (Span × Escalation)
  | [] => []
  | (instant, move) :: later =>
      let after := post.step instant move
      (decidedSince post after).map (fun escalation => (instant, escalation)) ++
        decisions after later

/-- May the clock go from one instant to another? A timer that has not begun begins at once,
and the end of a timer is not passed. -/
def RunningTimer.Admits (timer : RunningTimer) (now instant : Span) : Prop :=
  match timer.due with
  | none => instant = now
  | some due => instant ≤ due

/-- The clock never goes back, and waits for every running timer to be given its turns. Of
moves at one instant any may come first. -/
def Timely (post : MonitorPost) (now : Span) : History → Prop
  | [] => True
  | (instant, move) :: later =>
      now ≤ instant ∧ (∀ timer ∈ post.timers, RunningTimer.Admits timer now instant) ∧
        Timely (post.step instant move) instant later

section Frame

variable (post : MonitorPost) (now : Span)

@[simp]
theorem publish_monitor (event : Event) : (post.publish now event).monitor = post.monitor := by
  unfold publish
  split <;> rfl

@[simp]
theorem publish_timers (event : Event) : (post.publish now event).timers = post.timers := by
  unfold publish
  split <;> rfl

@[simp]
theorem publish_escalations (event : Event) :
    (post.publish now event).escalations = post.escalations := by
  unfold publish
  split <;> rfl

@[simp]
theorem carryOut_monitor (effect : MonitorEffect) :
    (carryOut now post effect).monitor = post.monitor := by
  cases effect with
  | startTimer | stopTimer | escalate => rfl
  | publish event => exact post.publish_monitor now event

@[simp]
theorem carryOutAll_monitor (step : Monitor × List MonitorEffect) :
    (post.carryOutAll now step).monitor = step.1 := by
  obtain ⟨monitor, effects⟩ := step
  have folded : ∀ middle : MonitorPost,
      (effects.foldl (carryOut now) middle).monitor = middle.monitor := by
    induction effects with
    | nil => exact fun middle => rfl
    | cons effect rest inductionHypothesis =>
        intro middle
        rw [List.foldl_cons, inductionHypothesis, carryOut_monitor]
  exact folded _

end Frame

/-- A step that leaves the monitor and its timers alone and decides no escalation. -/
structure LeavesMonitor (before after : MonitorPost) : Prop where
  monitor : after.monitor = before.monitor
  timers : after.timers = before.timers
  count : after.escalations.length = before.escalations.length

namespace LeavesMonitor

theorem refl (post : MonitorPost) : LeavesMonitor post post := ⟨rfl, rfl, rfl⟩

theorem trans {first second third : MonitorPost} (earlier : LeavesMonitor first second)
    (later : LeavesMonitor second third) : LeavesMonitor first third :=
  ⟨later.monitor.trans earlier.monitor, later.timers.trans earlier.timers,
    later.count.trans earlier.count⟩

theorem decidedSince_eq_nil {before after : MonitorPost} (leaves : LeavesMonitor before after) :
    decidedSince before after = [] := by
  simp [decidedSince, ← leaves.count]

end LeavesMonitor

end MonitorPost

/-- An entry that an escalation writes. -/
def Entry.isErrand : Entry → Bool
  | logged _ | abortRequested _ | alertRaised _ => true
  | _ => false

/-- An event that an escalation publishes. -/
def EventKind.isErrand : EventKind → Bool
  | escalationWaiting | escalationStuck | cancelRequested | cancelFailed | alertFailed => true
  | _ => false

namespace MonitorPost

/-- The stages of an escalation lead from one state of a post to a later one: they write and
publish, call the services and go on to further stages. -/
inductive Errands : MonitorPost → MonitorPost → Prop where
  | refl (post : MonitorPost) : Errands post post
  | trans {first second third : MonitorPost} (earlier : Errands first second)
      (later : Errands second third) : Errands first third
  | write (post : MonitorPost) (now : Span) {entry : Entry} (own : entry.isErrand = true) :
      Errands post (post.write now entry)
  | publish (post : MonitorPost) (now : Span) {event : Event}
      (own : event.kind.isErrand = true) : Errands post (post.publish now event)
  | count (post : MonitorPost) (cancelCalls alertCalls : Nat) :
      Errands post { post with cancelCalls, alertCalls }
  | setStage (post : MonitorPost) (index : Nat) (stage : EscalationStage) :
      Errands post (post.setStage index stage)

namespace Errands

variable (post : MonitorPost) (now : Span) (index : Nat)

theorem noteFailure (message : String) {kind : EventKind} (error : CollaboratorError)
    (own : kind.isErrand = true) : Errands post (post.noteFailure now message kind error) :=
  (write post now rfl).trans (publish _ now own)

theorem noteCancel (answer : Except CollaboratorError Unit) :
    Errands post (post.noteCancel now answer) := by
  cases answer with
  | ok _ => exact publish post now rfl
  | error error => exact noteFailure post now _ error rfl

theorem noteAlert (answer : Except CollaboratorError Unit) :
    Errands post (post.noteAlert now answer) := by
  cases answer with
  | ok _ => exact refl post
  | error error => exact noteFailure post now _ error rfl

theorem requestCancel : Errands post (post.requestCancel now index) := by
  apply trans _ (setStage _ index _)
  have asked : Errands post (post.write now (.abortRequested post.monitor.cancelReason)) :=
    write post now rfl
  exact asked.trans (count _ (post.cancelCalls + 1) post.alertCalls)

theorem raiseAlert (escalation : Escalation) :
    Errands post (post.raiseAlert now index escalation) := by
  apply trans _ (setStage _ index _)
  have raised : Errands post (post.write now (.alertRaised (post.monitor.alert escalation))) :=
    write post now rfl
  exact raised.trans (count _ post.cancelCalls (post.alertCalls + 1))

theorem advanceEscalation : Errands post (post.advanceEscalation now index) := by
  unfold MonitorPost.advanceEscalation
  split
  · exact refl post
  · exact refl post
  · exact (publish post now rfl).trans (raiseAlert _ now index _)
  · exact ((write post now rfl).trans (publish _ now rfl)).trans (requestCancel _ now index)
  · split
    · exact (noteCancel post now _).trans (raiseAlert _ now index _)
    · exact refl post
  · split
    · exact (noteAlert post now _).trans (setStage _ index _)
    · exact refl post

theorem escalationTurn : Errands post (post.escalationTurn now index) :=
  ((advanceEscalation post now index).trans (advanceEscalation _ now index)).trans
    (advanceEscalation _ now index)

/-- None of it concerns the monitor. -/
theorem leaves {before after : MonitorPost} (errands : Errands before after) :
    LeavesMonitor before after := by
  induction errands with
  | refl post => exact .refl post
  | trans _ _ first second => exact first.trans second
  | write post now own => exact ⟨rfl, rfl, rfl⟩
  | publish post now own => constructor <;> simp
  | count post cancelCalls alertCalls => exact ⟨rfl, rfl, rfl⟩
  | setStage post index stage => exact ⟨rfl, rfl, by simp [MonitorPost.setStage]⟩

end Errands

theorem LeavesMonitor.advanceEscalation (post : MonitorPost) (now : Span) (index : Nat) :
    LeavesMonitor post (post.advanceEscalation now index) :=
  (Errands.advanceEscalation post now index).leaves

theorem LeavesMonitor.escalationTurn (post : MonitorPost) (now : Span) (index : Nat) :
    LeavesMonitor post (post.escalationTurn now index) :=
  (Errands.escalationTurn post now index).leaves

end MonitorPost

end PlanSupervision
