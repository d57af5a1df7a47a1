import PlanSupervision.Broadcast
import PlanSupervision.Listener

/-!
What plans act on: the observers, the event bus and the watchdog, with a journal of all
that happens to them.
-/

namespace PlanSupervision

/-- A uid that is drawn at random. Whatever it is, it is not empty. -/
structure Uid where
  text : String
  nonempty : text.isEmpty = false

/-- Uids that are drawn in the order of their numbers. -/
def Uid.counted (number : Nat) : Uid := ⟨"uuid-" ++ toString number, by simp⟩

structure Station where
  observers : Observers
  bus : Broadcast Event
  watchdog : Watchdog
  /-- The uids that are drawn, in order. -/
  draws : Nat → Uid
  madeUids : Nat
  journal : Journal

namespace Station

def write (station : Station) (now : Span) (entries : List Entry) : Station :=
  { station with journal := station.journal.write now entries }

def publish (station : Station) (now : Span) (event : Event) : Station :=
  { station.write now [.published event] with bus := station.bus.send event }

def dispatch (station : Station) (now : Span) (document : Document) :
    Station × Except DispatchFault Unit :=
  let dispatch := station.observers.dispatch document
  ({ station.write now (.handed document :: dispatch.entries) with
      observers := dispatch.observers },
    dispatch.outcome)

def makeUid (station : Station) : String × Station :=
  ((station.draws station.madeUids).text, { station with madeUids := station.madeUids + 1 })

def resetWatchdog (station : Station) (now : Span) : Station :=
  { station with watchdog := station.watchdog.reset now }

def armWatchdog (station : Station) (now : Span) : Station :=
  { station with watchdog := station.watchdog.arm now }

def disarmWatchdog (station : Station) : Station :=
  { station with watchdog := station.watchdog.disarm }

/-- Did the external process stay silent for too long? -/
def hasExpired (station : Station) (now : Span) : Bool :=
  station.watchdog.status now = .expired

end Station

end PlanSupervision
