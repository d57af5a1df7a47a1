import PlanSupervision.Agenda
import PlanSupervision.Broadcast
import PlanSupervision.Listener
import PlanSupervision.Monitor.Basic
import PlanSupervision.Remote.Event

/-!
A monitoring post: a monitor with the services that it acts on, its running timers, the
escalations under way and the followers of the remote events. Every step is a turn of one
of these tasks or a call from outside; the tasks that a step wakes are listed for whoever
gives out the turns.
-/

namespace PlanSupervision

/-- A service outside: how long its first, second and later calls take, and their answers. -/
abbrev Service := Nat → Span × Except CollaboratorError Unit

inductive MonitorTask where
  | timer (handle : Nat)
  | escalation (index : Nat)
  | follower (job : Nat)
deriving DecidableEq, Inhabited

/-- A timer; it has no end before its first turn. -/
structure RunningTimer where
  handle : Nat
  generation : UInt64
  due : Option Span
deriving DecidableEq, Inhabited

inductive EscalationStage where
  | begun
  /-- The service was asked to cancel the task and answers at an instant. -/
  | cancelling (due : Span) (answer : Except CollaboratorError Unit)
  /-- The alert was raised and is answered at an instant. -/
  | alerting (due : Span) (answer : Except CollaboratorError Unit)
  | ended

structure EscalationCourse where
  escalation : Escalation
  stage : EscalationStage

abbrev FollowResult := Except MonitorError TaskOutcome

inductive FollowerStage where
  | begun
  | listening (position : Nat)
  | ended

structure Follower where
  /-- The documents of the task are handed to the observers. -/
  routed : Bool
  stage : FollowerStage

structure MonitorPost where
  monitor : Monitor
  cancelService : Service
  cancelCalls : Nat
  alertService : Service
  alertCalls : Nat
  observers : Observers
  bus : Option (Broadcast Event)
  remote : Broadcast RemoteEvent
  timers : List RunningTimer
  escalations : List EscalationCourse
  followers : List Follower
  listening : List Nat
  journal : Journal
  /-- The followers that came to their end, with no result if they were cancelled. -/
  finished : List (Nat × Option FollowResult)
  woken : List MonitorTask
  rested : List MonitorTask

namespace MonitorPost

def write (post : MonitorPost) (now : Span) (entry : Entry) : MonitorPost :=
  { post with journal := post.journal.write now [entry] }

def wake (post : MonitorPost) (task : MonitorTask) : MonitorPost :=
  { post with woken := post.woken ++ [task] }

def publish (post : MonitorPost) (now : Span) (event : Event) : MonitorPost :=
  match post.bus with
  | none => post
  | some bus => { post.write now (.published event) with bus := some (bus.send event) }

/-- Attach a bus. The first one stays. -/
def attach (post : MonitorPost) (now : Span) (slots : Nat) : MonitorPost :=
  match post.bus with
  | none => { post with bus := some (.ofCapacity slots) }
  | some _ =>
      post.write now (.logged ⟨.warn, "monitor already publishes on a bus, keeping it",
        [("task", post.monitor.taskId)]⟩)

def carryOut (now : Span) (post : MonitorPost) : MonitorEffect → MonitorPost
  | .startTimer handle generation =>
      { post.wake (.timer handle) with timers := post.timers ++ [⟨handle, generation, none⟩] }
  | .stopTimer handle => { post with timers := post.timers.filter (·.handle != handle) }
  | .publish event => post.publish now event
  | .escalate escalation =>
      { post.wake (.escalation post.escalations.length) with
        escalations := post.escalations ++ [⟨escalation, .begun⟩] }

def carryOutAll (post : MonitorPost) (now : Span) (step : Monitor × List MonitorEffect) :
    MonitorPost :=
  step.2.foldl (carryOut now) { post with monitor := step.1 }

def enter (post : MonitorPost) (now : Span) : MonitorPost :=
  post.carryOutAll now (post.monitor.enter now)

def progress (post : MonitorPost) (now : Span) (progress : Progress) : MonitorPost :=
  post.carryOutAll now (post.monitor.progress progress)

def exit (post : MonitorPost) (now : Span) : MonitorPost :=
  post.carryOutAll now post.monitor.exit

/-- A turn of a timer: the first one starts it, the one at its end is passed to the monitor. -/
def timerTurn (post : MonitorPost) (now : Span) (handle : Nat) : MonitorPost :=
  match post.timers.find? (·.handle == handle) with
  | none => post
  | some ⟨_, _, none⟩ =>
      let due := now + post.monitor.timeout
      { post with timers := post.timers.map fun timer =>
          if timer.handle = handle then { timer with due := some due } else timer }
  | some ⟨_, generation, some due⟩ =>
      if due ≤ now then
        { post with timers := post.timers.filter (·.handle != handle) }.carryOutAll
          now (post.monitor.expire generation now)
      else post

def setStage (post : MonitorPost) (index : Nat) (stage : EscalationStage) : MonitorPost :=
  { post with escalations := post.escalations.modify index fun course => { course with stage } }

def requestCancel (post : MonitorPost) (now : Span) (index : Nat) : MonitorPost :=
  let (delay, answer) := post.cancelService post.cancelCalls
  let asked := post.write now (.abortRequested post.monitor.cancelReason)
  { asked with cancelCalls := post.cancelCalls + 1 }.setStage index
    (.cancelling (now + delay) answer)

def raiseAlert (post : MonitorPost) (now : Span) (index : Nat) (escalation : Escalation) :
    MonitorPost :=
  let (delay, answer) := post.alertService post.alertCalls
  let raised := post.write now (.alertRaised (post.monitor.alert escalation))
  { raised with alertCalls := post.alertCalls + 1 }.setStage index
    (.alerting (now + delay) answer)

def noteFailure (post : MonitorPost) (now : Span) (message : String) (kind : EventKind)
    (error : CollaboratorError) : MonitorPost :=
  (post.write now (.logged ⟨.warn, message,
    [("task", post.monitor.taskId), ("error", error.message), ("label", error.label)]⟩)).publish
      now ((post.monitor.event kind).withReason error.message)

def noteCancel (post : MonitorPost) (now : Span) : Except CollaboratorError Unit → MonitorPost
  | .ok () =>
      post.publish now
        ((post.monitor.event .cancelRequested).withReason post.monitor.cancelReason)
  | .error error => post.noteFailure now "cancellation request failed" .cancelFailed error

def noteAlert (post : MonitorPost) (now : Span) : Except CollaboratorError Unit → MonitorPost
  | .ok () => post
  | .error error => post.noteFailure now "alert could not be raised" .alertFailed error

def stuckLine (monitor : Monitor) : LogLine :=
  ⟨.error, "task made no progress, cancelling",
    [("task", monitor.taskId), ("timeout", monitor.timeout.text)]⟩

/-- One stage of an escalation, if its time has come. -/
def advanceEscalation (post : MonitorPost) (now : Span) (index : Nat) : MonitorPost :=
  match post.escalations[index]? with
  | none | some ⟨_, .ended⟩ => post
  | some ⟨.waiting elapsed, .begun⟩ =>
      let alert := post.monitor.alert (.waiting elapsed)
      (post.publish now
        ((post.monitor.event .escalationWaiting).withReason alert.content)).raiseAlert
          now index (.waiting elapsed)
  | some ⟨.stuck, .begun⟩ =>
      ((post.write now (.logged (stuckLine post.monitor))).publish
        now ((post.monitor.event .escalationStuck).withTimeout post.monitor.timeout)).requestCancel
          now index
  | some ⟨escalation, .cancelling due answer⟩ =>
      if due ≤ now then (post.noteCancel now answer).raiseAlert now index escalation else post
  | some ⟨_, .alerting due answer⟩ =>
      if due ≤ now then (post.noteAlert now answer).setStage index .ended else post

/-- A turn of an escalation: all stages whose time has come. -/
def escalationTurn (post : MonitorPost) (now : Span) (index : Nat) : MonitorPost :=
  ((post.advanceEscalation now index).advanceEscalation now index).advanceEscalation now index

def setFollower (post : MonitorPost) (job : Nat) (stage : FollowerStage) : MonitorPost :=
  { post with followers := post.followers.modify job fun follower => { follower with stage } }

/-- What a follower does with one reception; a result ends it. -/
def follow (post : MonitorPost) (now : Span) (routed : Bool) :
    Reception RemoteEvent → MonitorPost × Option FollowResult
  | .empty => (post, none)
  | .lagged missed =>
      (post.write now (.logged ⟨.warn, "remote event stream lagged",
        [("task", post.monitor.taskId), ("skipped", toString missed)]⟩), none)
  | .closed => (post, some (.error (.streamClosed post.monitor.taskId)))
  | .message event =>
      if event.taskId ≠ post.monitor.taskId then (post, none)
      else match event with
        | .progress progress => (post.progress now progress, none)
        | .finished _ outcome => (post, some (.ok outcome))
        | .document _ document =>
            if routed then
              let dispatch := post.observers.dispatch document
              let after := { post with
                observers := dispatch.observers
                journal := post.journal.write now (.handed document :: dispatch.entries) }
              match dispatch.outcome with
              | .ok () => (after, none)
              | .error fault => (after, some (.error (.dispatch fault)))
            else (post, none)

def endFollower (post : MonitorPost) (now : Span) (job : Nat) (result : Option FollowResult) :
    MonitorPost :=
  let left := (post.exit now).setFollower job .ended
  { left with
    listening := left.listening.filter (· != job)
    finished := left.finished ++ [(job, result)] }

/-- Take events until none is left, the follower ends or the turn is over. -/
def followWithin (now : Span) (job : Nat) (routed : Bool) : Nat → Nat → MonitorPost → MonitorPost
  | 0, position, post =>
      let stopped := post.setFollower job (.listening position)
      { stopped with rested := post.rested ++ [.follower job] }
  | budget + 1, position, post =>
      match post.remote.receive position with
      | (.empty, position) =>
          let waiting := post.setFollower job (.listening position)
          { waiting with listening := post.listening.filter (· != job) ++ [job] }
      | (reception, position) =>
          match post.follow now routed reception with
          | (after, none) => followWithin now job routed budget position after
          | (after, some result) => after.endFollower now job (some result)

/-- A turn of a follower; the first one enters the scope. -/
def followerTurn (post : MonitorPost) (now : Span) (job : Nat) : MonitorPost :=
  match post.followers[job]? with
  | none | some ⟨_, .ended⟩ => post
  | some ⟨routed, .begun⟩ =>
      followWithin now job routed turnBudget post.remote.position (post.enter now)
  | some ⟨routed, .listening position⟩ => followWithin now job routed turnBudget position post

def turn (post : MonitorPost) (now : Span) : MonitorTask → MonitorPost
  | .timer handle => post.timerTurn now handle
  | .escalation index => post.escalationTurn now index
  | .follower job => post.followerTurn now job

def deadlines (post : MonitorPost) : MonitorTask → List Span
  | .timer handle =>
      match post.timers.find? (·.handle == handle) with
      | some timer => timer.due.toList
      | none => []
  | .escalation index =>
      match post.escalations[index]? with
      | some ⟨_, .cancelling due _⟩ | some ⟨_, .alerting due _⟩ => [due]
      | _ => []
  | .follower _ => []

def beginFollowing (post : MonitorPost) (routed : Bool) : MonitorPost :=
  { post.wake (.follower post.followers.length) with
    followers := post.followers ++ [⟨routed, .begun⟩] }

/-- Drop a follower. One that had no turn yet leaves no scope. -/
def cancelFollower (post : MonitorPost) (now : Span) (job : Nat) : MonitorPost :=
  match post.followers[job]? with
  | none | some ⟨_, .ended⟩ => post
  | some ⟨_, .begun⟩ =>
      let dropped := post.setFollower job .ended
      { dropped with finished := dropped.finished ++ [(job, none)] }
  | some ⟨_, .listening _⟩ => post.endFollower now job none

def isFollowed (post : MonitorPost) : Bool :=
  post.followers.any fun follower => match follower.stage with
    | .listening _ => true
    | .begun | .ended => false

def wakeListening (post : MonitorPost) : MonitorPost :=
  { post with listening := [], woken := post.woken ++ post.listening.map .follower }

/-- The remote service sends an event. Without a receiver it is lost. -/
def send (post : MonitorPost) (event : RemoteEvent) : MonitorPost :=
  if post.isFollowed && !post.remote.closed then
    { post with remote := post.remote.send event }.wakeListening
  else post

def closeRemote (post : MonitorPost) : MonitorPost :=
  { post with remote := post.remote.close }.wakeListening

end MonitorPost

end PlanSupervision
