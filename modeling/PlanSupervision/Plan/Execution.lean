import PlanSupervision.Plan.Course

/-!
The execution of one plan under the watchdog. It ends when the plan's steps do, when the
watchdog is found expired at a tick, or when its context is cancelled. The runs that a failed
plan left open are closed, innermost first, and its end is published.
-/

namespace PlanSupervision

/-- Where an execution stands after a turn. -/
inductive ExecutionStanding where
  | running (course : Course) (nextTick : Span)
  | ended (result : Except PlanError Unit)

/-- What follows from a turn of an execution. -/
structure Execution where
  context : PlanContext
  station : Station
  effects : List PlanEffect
  standing : ExecutionStanding

namespace Execution

def closingStatus (error : PlanError) : ExitStatus :=
  if error.isInfrastructure then .abort else .failure

def succeed (context : PlanContext) (station : Station) (now : Span) : Execution :=
  { context
    station := station.disarmWatchdog.publish now
      ((Event.ofKind .planFinished).withPlan context.plan)
    effects := [.published]
    standing := .ended (.ok ()) }

/-- An expired watchdog is published, and cancels what the plan has left behind. -/
def noteExpiry (context : PlanContext) (station : Station) (now : Span) :
    PlanError → PlanContext × Station × List PlanEffect
  | .watchdogExpired _ =>
      ({ context with cancelled := true },
        station.publish now (((Event.ofKind .watchdogExpired).withPlan context.plan).withTimeout
          station.watchdog.window),
        [.cancelled, .published])
  | _ => (context, station, [])

def fail (context : PlanContext) (station : Station) (now : Span) (error : PlanError) :
    Execution :=
  let (context, station, effects) := noteExpiry context station.disarmWatchdog now error
  let (context, station) :=
    context.closeOpenRuns station now (closingStatus error) error.message
  { context
    station := station.publish now
      (((Event.ofKind .planFailed).withPlan context.plan).withReason error.message)
    effects := effects ++ [.published]
    standing := .ended (.error error) }

def conclude (context : PlanContext) (station : Station) (now : Span) :
    Except PlanError Unit → Execution
  | .ok () => succeed context station now
  | .error error => fail context station now error

def tickTolerance : Span := .ofMillis 5

/-- The first tick after an instant. A tick that came too late shifts those after it. -/
def tickAfter (interval now tick : Span) : Span :=
  if now < tick then tick
  else if now ≤ tick + tickTolerance then tick + ((now - tick) / interval + 1) * interval
  else now + interval

/-- What ends an execution from outside its plan: an expiry found at a tick, or else a
cancellation. -/
def interruption? (context : PlanContext) (station : Station) (now tick : Span) :
    Option PlanError :=
  if tick ≤ now && station.hasExpired now then
    some (.watchdogExpired station.watchdog.window)
  else if context.cancelled then some (.aborted "shutdown requested")
  else none

/-- A turn of an execution: the steps of the plan, then the watchdog and the cancellation. -/
def proceed (interval : Span) (course : Course) (tick : Span) (context : PlanContext)
    (station : Station) (now : Span) : Execution :=
  let advance := course.advance now false context station
  let execution := match advance.standing with
    | .ended result => conclude advance.context advance.station now result
    | .open course =>
        match interruption? advance.context advance.station now tick with
        | some error => fail advance.context advance.station now error
        | none =>
            { context := advance.context, station := advance.station, effects := []
              standing := .running course (tickAfter interval now tick) }
  { execution with effects := advance.effects ++ execution.effects }

/-- The first turn. A reset from long ago makes the watchdog expire before the plan begins. -/
def begin (interval : Span) (plan : Plan) (context : PlanContext) (station : Station)
    (now : Span) : Execution :=
  let started := (station.armWatchdog now).publish now
    ((Event.ofKind .planStarting).withPlan context.plan)
  let execution :=
    if started.hasExpired now then
      fail context started now (.watchdogExpired started.watchdog.window)
    else proceed interval (.ready plan.steps) now context started now
  { execution with effects := .published :: execution.effects }

end Execution

end PlanSupervision
