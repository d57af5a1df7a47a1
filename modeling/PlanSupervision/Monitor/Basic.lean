import PlanSupervision.Config
import PlanSupervision.Event
import PlanSupervision.Remote.Alert
import PlanSupervision.Remote.Progress

/-!
The monitor of a delegated task. Inside a scope a timer runs, and every change between
waiting for beam and not waiting starts it anew. A timer that runs out is escalated:
operators are told that the task still waits, or a task that does not wait is stuck.
Timers are told apart by their generation, so that one that was replaced has no effect; the
generation is a word of 64 bits and wraps around.
-/

namespace PlanSupervision

inductive MonitorPhase where
  | idle
  | armed
  | waitingForBeam
deriving DecidableEq, Inhabited

def MonitorPhase.name : MonitorPhase → String
  | idle => "Idle"
  | armed => "Armed"
  | waitingForBeam => "WaitingForBeam"

inductive Escalation where
  /-- The task waits for beam; this long ago its scope was entered. -/
  | waiting (elapsed : Span)
  | stuck
deriving DecidableEq, Inhabited

/-- What follows from a step of a monitor, for others to carry out in order. -/
inductive MonitorEffect where
  | startTimer (handle : Nat) (generation : UInt64)
  | stopTimer (handle : Nat)
  | publish (event : Event)
  | escalate (escalation : Escalation)
deriving DecidableEq, Inhabited

structure Monitor where
  taskId : String
  statusName : String
  timeout : Span
  metadata : AlertMetadata
  inScope : Bool
  waiting : Bool
  /-- When the scope was entered last. -/
  started : Option Span
  /-- The timer that is held. Timers are numbered in the order in which they were started. -/
  timer : Option Nat
  spawned : Nat
  /-- The generation of the newest timer, moved on also when a scope ends. -/
  generation : UInt64
deriving DecidableEq, Inhabited

namespace Monitor

def ofTask (config : Config) (taskId : String) (parameters : Json) : Monitor :=
  { taskId
    statusName := config.beamStatusName
    timeout := config.escalationDelay
    metadata := .ofParameters parameters
    inScope := false
    waiting := false
    started := none
    timer := none
    spawned := 0
    generation := 0 }

def phase (monitor : Monitor) : MonitorPhase :=
  match monitor.timer with
  | none => .idle
  | some _ => if monitor.waiting then .waitingForBeam else .armed

def event (monitor : Monitor) (kind : EventKind) : Event :=
  (Event.ofKind kind).withTask monitor.taskId

def disarm (monitor : Monitor) : Monitor × List MonitorEffect :=
  ({ monitor with timer := none }, monitor.timer.toList.map .stopTimer)

def startTimer (monitor : Monitor) : Monitor × List MonitorEffect :=
  let handle := monitor.spawned + 1
  let generation := monitor.generation + 1
  ({ monitor with timer := some handle, spawned := handle, generation },
    [.startTimer handle generation])

def arm (monitor : Monitor) : Monitor × List MonitorEffect :=
  let (disarmed, stopped) := monitor.disarm
  let (armed, started) := disarmed.startTimer
  (armed, stopped ++ started)

def enter (monitor : Monitor) (now : Span) : Monitor × List MonitorEffect :=
  let entered := { monitor with inScope := true, waiting := false, started := some now }
  let (armed, effects) := entered.arm
  (armed, effects ++ [.publish ((monitor.event .monitorStarted).withTimeout monitor.timeout)])

/-- Is the task waiting for beam according to a notification? Those of other tasks and those
without the status say nothing. -/
def reading? (monitor : Monitor) (progress : Progress) : Option Bool :=
  if progress.taskId = monitor.taskId then
    (progress.status? monitor.statusName).map StatusView.isPending
  else none

def changeName (waiting : Bool) : String := if waiting then "waiting" else "resumed"

/-- Take in a notification; only a change inside a scope has an effect. -/
def progress (monitor : Monitor) (progress : Progress) : Monitor × List MonitorEffect :=
  match monitor.reading? progress with
  | none => (monitor, [])
  | some waiting =>
      if !monitor.inScope || monitor.waiting = waiting then (monitor, [])
      else
        let (armed, effects) := { monitor with waiting }.arm
        (armed, effects ++
          [.publish ((monitor.event .beamWaitChanged).withReason (changeName waiting))])

def exit (monitor : Monitor) : Monitor × List MonitorEffect :=
  if monitor.inScope then
    let left := { monitor with inScope := false, generation := monitor.generation + 1 }
    let (disarmed, effects) := left.disarm
    (disarmed, effects ++ [.publish (monitor.event .monitorStopped)])
  else (monitor, [])

def elapsed (monitor : Monitor) (now : Span) : Span :=
  match monitor.started with
  | some started => now - started
  | none => 0

/-- The timer of a generation ran out. Only the newest one inside a scope counts; a task that
waits for beam is given another. -/
def expire (monitor : Monitor) (generation : UInt64) (now : Span) : Monitor × List MonitorEffect :=
  if !monitor.inScope || monitor.generation != generation then (monitor, [])
  else
    let expired := { monitor with timer := none }
    if monitor.waiting then
      let (armed, effects) := expired.startTimer
      (armed, effects ++ [.escalate (.waiting (monitor.elapsed now))])
    else (expired, [.escalate .stuck])

def alert (monitor : Monitor) : Escalation → AlertRecord
  | .waiting elapsed => .waitingForBeam monitor.taskId elapsed monitor.metadata
  | .stuck => .stuck monitor.taskId monitor.timeout monitor.metadata

def cancelReason (monitor : Monitor) : String :=
  "no progress for " ++ toString monitor.timeout.wholeSeconds ++ "s"

end Monitor

end PlanSupervision
