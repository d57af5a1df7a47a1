import PlanSupervision.Span

/-!
The watchdog of the external process. Each reset moves the deadline one window ahead; a
reset that comes before the watchdog is armed is kept, and disarming forgets it. The window is
taken to be such that the instant one window ahead can be represented.
-/

namespace PlanSupervision

inductive WatchdogStatus where
  | disarmed
  | pending
  | alive
  | expired
deriving DecidableEq, Inhabited

def WatchdogStatus.name : WatchdogStatus → String
  | disarmed => "Disarmed"
  | pending => "Pending"
  | alive => "Alive"
  | expired => "Expired"

structure Watchdog where
  window : Span
  deadline : Option Span
  armedAt : Option Span
deriving DecidableEq, Inhabited

namespace Watchdog

def ofWindow (window : Span) : Watchdog := ⟨window, none, none⟩

def reset (watchdog : Watchdog) (now : Span) : Watchdog :=
  { watchdog with deadline := some (now + watchdog.window) }

def arm (watchdog : Watchdog) (now : Span) : Watchdog := { watchdog with armedAt := some now }

def disarm (watchdog : Watchdog) : Watchdog := { watchdog with deadline := none, armedAt := none }

/-- The status at an instant; the deadline itself is still in time, and so is the instant one window
after arming as long as there was no reset. -/
def status (watchdog : Watchdog) (now : Span) : WatchdogStatus :=
  match watchdog.armedAt, watchdog.deadline with
  | none, _ => .disarmed
  | some _, some deadline => if now ≤ deadline then .alive else .expired
  | some armedAt, none => if now ≤ armedAt + watchdog.window then .pending else .expired

end Watchdog

end PlanSupervision
