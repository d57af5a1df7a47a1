import PlanSupervision.Broadcast
import PlanSupervision.FanOut

/-!
A fan-out at work under a clock: commands are carried out one after the other, and after
each of them every worker runs as far as it can.
-/

namespace PlanSupervision.FanOut

/-- A fan-out with its workers, and a receiver of the events that it publishes. -/
structure Rehearsal where
  fan : FanOut
  bus : Broadcast Event
  position : Nat
  agenda : Agenda Nat
  journal : Journal

inductive Command where
  | emit (events : List Event)
  | sleep (duration : Span)
  | shutdown

structure Report where
  now : Span
  size : Option Nat
  published : List (Reception Event)
  journal : Journal

namespace Rehearsal

def ofSubscribers (subscribers : List Subscriber) (busSlots : Nat) : Rehearsal :=
  { fan := .ofSubscribers subscribers
    bus := .ofCapacity busSlots
    position := 0
    agenda := { Agenda.start with ready := List.range subscribers.length }
    journal := [] }

def carryOut (rehearsal : Rehearsal) : FanOutEffect → Rehearsal
  | .wake worker => { rehearsal with agenda := rehearsal.agenda.wake worker }
  | .publish event => { rehearsal with bus := rehearsal.bus.send event }
  | .write entry =>
      { rehearsal with journal := rehearsal.journal.write rehearsal.agenda.now [entry] }

def work (rehearsal : Rehearsal) (worker : Nat) : Rehearsal :=
  let (fan, effects, short) := rehearsal.fan.work worker rehearsal.agenda.now
  let after := effects.foldl carryOut { rehearsal with fan }
  if short then { after with agenda := after.agenda.stepBack worker } else after

instance : Cooperative Rehearsal Nat where
  agenda := Rehearsal.agenda
  withAgenda rehearsal agenda := { rehearsal with agenda }
  perform := work
  deadlines rehearsal worker := rehearsal.fan.deadlines worker

def emit (rehearsal : Rehearsal) (event : Event) : Rehearsal :=
  let (fan, effects) := rehearsal.fan.emit event
  effects.foldl carryOut { rehearsal with fan }

def shutdown (rehearsal : Rehearsal) : Rehearsal :=
  let closed := { rehearsal with
    fan := rehearsal.fan.close
    agenda := rehearsal.agenda.wakeAll (List.range rehearsal.fan.subscribers.length) }
  let ended := Cooperative.await (fun rehearsal => rehearsal.fan.hasEnded) closed
  { ended with bus := ended.bus.close }

def perform (rehearsal : Rehearsal) : Command → Rehearsal
  | .emit events =>
      if rehearsal.fan.closed then rehearsal
      else Cooperative.settle (events.foldl emit rehearsal)
  | .sleep duration => Cooperative.passUntil (rehearsal.agenda.now + duration) rehearsal
  | .shutdown => rehearsal.shutdown

def play (rehearsal : Rehearsal) (command : Command) : Report × Rehearsal :=
  let after := perform { rehearsal with journal := [] } command
  let (published, position) := after.bus.drain after.position
  ({ now := after.agenda.now
     size := if after.fan.closed then none else some after.fan.subscribers.length
     published
     journal := after.journal },
    { after with position })

end Rehearsal

end PlanSupervision.FanOut
