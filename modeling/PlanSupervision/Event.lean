import PlanSupervision.Span

/-!
Supervision events: what happened to plans, delegated tasks and subscribers.
-/

namespace PlanSupervision

inductive EventKind where
  | subscriberPanicked
  | subscriberOverflow
  | planStarting
  | planFinished
  | planFailed
  | watchdogExpired
  | listenerFault
  | shutdownRequested
  | monitorStarted
  | monitorStopped
  | beamWaitChanged
  | escalationWaiting
  | escalationStuck
  | cancelRequested
  | cancelFailed
  | alertFailed
deriving DecidableEq, Inhabited

def EventKind.all : List EventKind :=
  [subscriberPanicked, subscriberOverflow, planStarting, planFinished, planFailed,
   watchdogExpired, listenerFault, shutdownRequested, monitorStarted, monitorStopped,
   beamWaitChanged, escalationWaiting, escalationStuck, cancelRequested, cancelFailed,
   alertFailed]

def EventKind.name : EventKind → String
  | subscriberPanicked => "SubscriberPanicked"
  | subscriberOverflow => "SubscriberOverflow"
  | planStarting => "PlanStarting"
  | planFinished => "PlanFinished"
  | planFailed => "PlanFailed"
  | watchdogExpired => "WatchdogExpired"
  | listenerFault => "ListenerFault"
  | shutdownRequested => "ShutdownRequested"
  | monitorStarted => "MonitorStarted"
  | monitorStopped => "MonitorStopped"
  | beamWaitChanged => "BeamWaitChanged"
  | escalationWaiting => "EscalationWaiting"
  | escalationStuck => "EscalationStuck"
  | cancelRequested => "CancelRequested"
  | cancelFailed => "CancelFailed"
  | alertFailed => "AlertFailed"

/-- An event; the fields that are set depend on its kind. -/
structure Event where
  kind : EventKind
  plan : Option String
  task : Option String
  reason : Option String
  timeoutMillis : Option Nat
deriving DecidableEq, Inhabited

namespace Event

def ofKind (kind : EventKind) : Event := ⟨kind, none, none, none, none⟩

def withPlan (event : Event) (plan : String) : Event := { event with plan := some plan }

def withTask (event : Event) (task : String) : Event := { event with task := some task }

def withReason (event : Event) (reason : String) : Event := { event with reason := some reason }

/-- The greatest number of milliseconds that an event carries. -/
def timeoutLimit : Nat := 4294967295

def withTimeout (event : Event) (timeout : Span) : Event :=
  { event with timeoutMillis := some (min timeout.wholeMillis timeoutLimit) }

def overflow (subscriber reason : String) : Event :=
  ((ofKind .subscriberOverflow).withTask subscriber).withReason
    ("subscriber=" ++ subscriber ++ " reason=" ++ reason)

def panicked (subscriber info : String) : Event :=
  ((ofKind .subscriberPanicked).withTask subscriber).withReason info

end Event

end PlanSupervision
