import PlanSupervision.Event

/-!
Lines of the log, and the line that an event is written as.
-/

namespace PlanSupervision

inductive LogLevel where
  | info
  | warn
  | error
deriving DecidableEq, Inhabited

def LogLevel.name : LogLevel → String
  | info => "INFO"
  | warn => "WARN"
  | error => "ERROR"

structure LogLine where
  level : LogLevel
  message : String
  fields : List (String × String)
deriving DecidableEq, Inhabited

namespace LogLine

def optionalNumber : Option Nat → String
  | none => "None"
  | some value => "Some(" ++ toString value ++ ")"

/-- The line of an event: infrastructure problems are errors, escalations that only inform are
warnings, the course of things is information. -/
def ofEvent (event : Event) : LogLine :=
  let plan := ("plan", event.plan.getD "-")
  let task := ("task", event.task.getD "-")
  let subscriber := ("subscriber", event.task.getD "-")
  let reason := ("reason", event.reason.getD "")
  let timeout := ("timeout_ms", optionalNumber event.timeoutMillis)
  match event.kind with
  | .planStarting => ⟨.info, "plan starting", [plan]⟩
  | .planFinished => ⟨.info, "plan finished", [plan]⟩
  | .planFailed => ⟨.warn, "plan failed", [plan, reason]⟩
  | .watchdogExpired =>
      ⟨.error, "external callback watchdog expired",
        [plan, ("window_ms", optionalNumber event.timeoutMillis)]⟩
  | .listenerFault => ⟨.error, "observer fault", [plan, reason]⟩
  | .shutdownRequested => ⟨.info, "shutdown requested", []⟩
  | .monitorStarted => ⟨.info, "monitoring remote task", [task, timeout]⟩
  | .monitorStopped => ⟨.info, "stopped monitoring remote task", [task]⟩
  | .beamWaitChanged => ⟨.info, "beam wait changed", [task, ("state", event.reason.getD "")]⟩
  | .escalationWaiting => ⟨.warn, "still waiting for beam", [task, reason]⟩
  | .escalationStuck => ⟨.error, "remote task stuck", [task, timeout]⟩
  | .cancelRequested => ⟨.warn, "cancellation requested", [task, reason]⟩
  | .cancelFailed => ⟨.error, "cancellation request failed", [task, reason]⟩
  | .alertFailed => ⟨.error, "alert could not be raised", [task, reason]⟩
  | .subscriberOverflow => ⟨.warn, "subscriber overflow", [subscriber, reason]⟩
  | .subscriberPanicked => ⟨.error, "subscriber panicked", [subscriber, reason]⟩

end LogLine

end PlanSupervision
