import PlanSupervision.Config
import PlanSupervision.FanOut
import PlanSupervision.Lock
import PlanSupervision.Plan.Execution

/-!
The supervisor of plans: it runs one plan at a time under the watchdog, passes the events
of its bus to the subscribers and ends orderly. Every step is a turn of one of its tasks or
a call from outside; the tasks that a step wakes are listed for whoever gives out the turns.
-/

namespace PlanSupervision

inductive SupervisorTask where
  | worker (index : Nat)
  | relay
  | call (id : Nat)
  | branch (id : Nat)
  | stop (id : Nat)
deriving DecidableEq, Inhabited

inductive RelayState where
  | ready
  | waiting
  | ended
deriving DecidableEq, Inhabited

structure Relay where
  position : Nat
  state : RelayState
  stopping : Bool
  /-- A shutdown waits for its end; the later ones do not. -/
  awaited : Bool
deriving DecidableEq, Inhabited

inductive CallPhase where
  | entering
  | queued
  | running (course : Course) (nextTick : Span)
  | ended (result : Except PlanError Unit)
  | dropped

structure Call where
  plan : Plan
  context : PlanContext
  sleepers : List SupervisorTask
  phase : CallPhase

/-- Steps beside a plan. They act through the context of its call. -/
structure Branch where
  call : Nat
  /-- The course, unless it came to its end. -/
  course : Option Course

inductive StopPhase where
  | listening (signal : Option String)
  | requested
  | unwinding (due : Span)
  | joining (due : Span)
  | ended
deriving DecidableEq, Inhabited

structure Stop where
  onSignal : Bool
  phase : StopPhase
deriving DecidableEq, Inhabited

structure Supervisor where
  config : Config
  station : Station
  fan : FanOut
  /-- Without subscribers there is none. -/
  relay : Option Relay
  lock : Lock SupervisorTask
  calls : List Call
  branches : List Branch
  stops : List Stop
  stopping : Bool
  /-- The executions that came to their end, with no result if they were given up. -/
  finished : List (Nat × Option (Except PlanError Unit))
  woken : List SupervisorTask
  rested : List SupervisorTask

namespace Supervisor

/-- A supervisor whose plans draw their uids in a given order. -/
def buildWith (draws : Nat → Uid) (config : Config) (listeners : List Listener)
    (subscribers : List Subscriber) : Supervisor :=
  let workers := (List.range subscribers.length).map SupervisorTask.worker
  { config
    station :=
      { observers := .ofUnnumbered listeners
        bus := .ofCapacity config.busSlots
        watchdog := .ofWindow config.watchdogWindow
        draws
        madeUids := 0
        journal := [] }
    fan := .ofSubscribers subscribers
    relay := if subscribers.isEmpty then none else some ⟨0, .ready, false, false⟩
    lock := .free
    calls := []
    branches := []
    stops := []
    stopping := false
    finished := []
    woken := if subscribers.isEmpty then [] else workers ++ [.relay]
    rested := [] }

def build : Config → List Listener → List Subscriber → Supervisor := buildWith .counted

def wake (supervisor : Supervisor) (task : SupervisorTask) : Supervisor :=
  { supervisor with woken := supervisor.woken ++ [task] }

def wakeAll (supervisor : Supervisor) (tasks : List SupervisorTask) : Supervisor :=
  { supervisor with woken := supervisor.woken ++ tasks }

def rest (supervisor : Supervisor) (task : SupervisorTask) : Supervisor :=
  { supervisor with rested := supervisor.rested ++ [task] }

def write (supervisor : Supervisor) (now : Span) (entry : Entry) : Supervisor :=
  { supervisor with station := supervisor.station.write now [entry] }

def wakeRelay (supervisor : Supervisor) : Supervisor :=
  match supervisor.relay with
  | some relay =>
      if relay.state = .waiting then
        { supervisor.wake .relay with relay := some { relay with state := .ready } }
      else supervisor
  | none => supervisor

def publish (supervisor : Supervisor) (now : Span) (event : Event) : Supervisor :=
  { supervisor with station := supervisor.station.publish now event }.wakeRelay

/-- Release the lock; the one that is handed it goes on. -/
def releaseLock (supervisor : Supervisor) : Supervisor :=
  let lock := supervisor.lock.release
  { supervisor.wakeAll lock.holder.toList with lock }

def modifyCall (supervisor : Supervisor) (id : Nat) (change : Call → Call) : Supervisor :=
  { supervisor with calls := supervisor.calls.modify id change }

def setPhase (supervisor : Supervisor) (id : Nat) (phase : CallPhase) : Supervisor :=
  supervisor.modifyCall id fun call => { call with phase }

def endedOnSignal (supervisor : Supervisor) : Nat :=
  supervisor.stops.countP fun stop => stop.onSignal && stop.phase = .ended

end Supervisor

end PlanSupervision
