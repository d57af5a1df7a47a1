import PlanSupervision.Supervisor.Shutdown

/-!
A supervisor at work under a clock: commands are carried out one after the other, and after
each of them every task runs as far as it can. A command that waits for its result takes its
turns in the foreground.
-/

namespace PlanSupervision.Supervisor

def turn (supervisor : Supervisor) (now : Span) : SupervisorTask → Supervisor
  | .worker index => supervisor.workerTurn now index
  | .relay => supervisor.relayTurn now
  | .call id => supervisor.callTurn now id
  | .branch index => supervisor.branchTurn now index
  | .stop id => supervisor.stopTurn now id

def deadlines (supervisor : Supervisor) : SupervisorTask → List Span
  | .worker index => supervisor.fan.deadlines index
  | .relay => []
  | .call id =>
      match supervisor.calls[id]? with
      | some ⟨_, _, _, .running course tick⟩ => course.deadline?.toList ++ [tick]
      | _ => []
  | .branch index =>
      match supervisor.branches[index]? with
      | some ⟨_, some course⟩ => course.deadline?.toList
      | _ => []
  | .stop id =>
      match supervisor.stops[id]? with
      | some ⟨_, .unwinding due⟩ | some ⟨_, .joining due⟩ => [due]
      | _ => []

structure Rehearsal where
  supervisor : Supervisor
  agenda : Agenda SupervisorTask
  jobs : List Nat
  frozen : List Nat
  position : Nat

inductive Command where
  | execute (plan : Plan)
  | start (plan : Plan)
  | cancel (job : Nat)
  | freeze (plan : Plan)
  | thaw
  | sleep (duration : Span)
  | reset
  | shutdown
  | shutdownOnSignal
  | signal (name : String)
  | subscribe (listener : Listener)
  | unsubscribe (number : Nat)
  | dispatch (document : Document)
  | publish (events : List Event)

inductive Answer where
  | done
  | number (value : Nat)
  | truth (value : Bool)
  | pending
  | execution (result : Except PlanError Unit)
  | dispatch (result : Except DispatchFault Unit)

structure Report where
  answer : Answer
  now : Span
  watchdog : WatchdogStatus
  deadline : Option Span
  stopping : Bool
  listeners : Nat
  gates : List Gate
  published : List (Reception Event)
  finished : List (Nat × Option (Except PlanError Unit))
  endedOnSignal : Option Nat
  journal : Journal

namespace Rehearsal

def heed (rehearsal : Rehearsal) : Rehearsal :=
  let supervisor := rehearsal.supervisor
  { rehearsal with
    supervisor := { supervisor with woken := [], rested := [] }
    agenda := supervisor.rested.foldl Agenda.stepBack
      (rehearsal.agenda.wakeAll supervisor.woken) }

def change (rehearsal : Rehearsal) (step : Supervisor → Supervisor) : Rehearsal :=
  { rehearsal with supervisor := step rehearsal.supervisor }.heed

def ofSupervisor (supervisor : Supervisor) : Rehearsal :=
  heed { supervisor, agenda := .start, jobs := [], frozen := [], position := 0 }

def isFrozen (rehearsal : Rehearsal) : SupervisorTask → Bool
  | .call id => rehearsal.frozen.contains id
  | _ => false

instance : Cooperative Rehearsal SupervisorTask where
  agenda := Rehearsal.agenda
  withAgenda rehearsal agenda := { rehearsal with agenda }
  perform rehearsal task :=
    if rehearsal.isFrozen task then rehearsal
    else rehearsal.change fun supervisor => supervisor.turn rehearsal.agenda.now task
  deadlines rehearsal task :=
    if rehearsal.isFrozen task then [] else rehearsal.supervisor.deadlines task

def result? (rehearsal : Rehearsal) (id : Nat) : Option (Except PlanError Unit) :=
  match rehearsal.supervisor.calls[id]? with
  | some ⟨_, _, _, .ended result⟩ => some result
  | _ => none

def hasStopped (rehearsal : Rehearsal) (id : Nat) : Bool :=
  rehearsal.supervisor.stops[id]?.any fun stop => stop.phase = .ended

def engage (rehearsal : Rehearsal) (task : SupervisorTask) : Rehearsal :=
  Cooperative.take
    { rehearsal with agenda := { rehearsal.agenda with foreground := some task } } task

def disengage (rehearsal : Rehearsal) : Rehearsal :=
  { rehearsal with
    agenda := { rehearsal.agenda with foreground := none, foregroundReady := false } }

def answer (rehearsal : Rehearsal) (id : Nat) : Answer :=
  match rehearsal.result? id with
  | some result => .execution result
  | none => .pending

def awaitCall (rehearsal : Rehearsal) (id : Nat) : Answer × Rehearsal :=
  let after := Cooperative.await (fun rehearsal => (rehearsal.result? id).isSome)
    (rehearsal.engage (.call id))
  (after.answer id, after.disengage)

def freezeCall (rehearsal : Rehearsal) (id : Nat) : Answer × Rehearsal :=
  let after := (rehearsal.engage (.call id)).disengage
  match after.result? id with
  | some result => (.execution result, after)
  | none => (.pending, { after with frozen := after.frozen ++ [id] })

def perform (rehearsal : Rehearsal) : Command → Answer × Rehearsal
  | .execute plan =>
      (rehearsal.change fun supervisor => supervisor.enterCall plan).awaitCall
        rehearsal.supervisor.calls.length
  | .start plan =>
      let id := rehearsal.supervisor.calls.length
      let begun := rehearsal.change fun supervisor => (supervisor.enterCall plan).wake (.call id)
      (.number rehearsal.jobs.length, { begun with jobs := rehearsal.jobs ++ [id] })
  | .cancel job =>
      match rehearsal.jobs[job]? with
      | none => (.done, rehearsal)
      | some id => (.done, rehearsal.change fun supervisor => supervisor.dropCall id)
  | .freeze plan =>
      (rehearsal.change fun supervisor => supervisor.enterCall plan).freezeCall
        rehearsal.supervisor.calls.length
  | .thaw =>
      match rehearsal.frozen with
      | [] => (.done, rehearsal)
      | id :: rest => { rehearsal with frozen := rest }.awaitCall id
  | .sleep duration =>
      (.done, Cooperative.passUntil (rehearsal.agenda.now + duration) rehearsal)
  | .reset =>
      (.done, rehearsal.change fun supervisor =>
        { supervisor with station := supervisor.station.resetWatchdog rehearsal.agenda.now })
  | .shutdown =>
      let id := rehearsal.supervisor.stops.length
      let begun := (rehearsal.change fun supervisor => supervisor.enterStop false).engage (.stop id)
      (.done, (Cooperative.await (fun rehearsal => rehearsal.hasStopped id) begun).disengage)
  | .shutdownOnSignal =>
      (.done, rehearsal.change fun supervisor =>
        (supervisor.enterStop true).wake (.stop supervisor.stops.length))
  | .signal name => (.done, rehearsal.change fun supervisor => supervisor.signal name)
  | .subscribe listener =>
      (.number rehearsal.supervisor.station.observers.nextNumber,
        rehearsal.change fun supervisor =>
          { supervisor with station := { supervisor.station with
              observers := supervisor.station.observers.subscribe listener } })
  | .unsubscribe number =>
      (.truth (rehearsal.supervisor.station.observers.isSubscribed number),
        rehearsal.change fun supervisor =>
          { supervisor with station := { supervisor.station with
              observers := supervisor.station.observers.unsubscribe number } })
  | .dispatch document =>
      let (station, result) :=
        rehearsal.supervisor.station.dispatch rehearsal.agenda.now document
      (.dispatch result, rehearsal.change fun supervisor => { supervisor with station })
  | .publish events =>
      (.done, rehearsal.change fun supervisor =>
        events.foldl (fun supervisor => supervisor.publish rehearsal.agenda.now) supervisor)

def finishedJobs (rehearsal : Rehearsal) : List (Nat × Option (Except PlanError Unit)) :=
  rehearsal.supervisor.finished.filterMap fun (id, result) =>
    (rehearsal.jobs.idxOf? id).map fun job => (job, result)

def play (rehearsal : Rehearsal) (command : Command) : Report × Rehearsal :=
  let fresh := rehearsal.change fun supervisor =>
    { supervisor with finished := [], station := { supervisor.station with journal := [] } }
  let (answer, begun) := fresh.perform command
  let after := Cooperative.settle begun
  let station := after.supervisor.station
  let now := after.agenda.now
  let (published, position) := station.bus.drain after.position
  let onSignal := after.supervisor.stops.any (·.onSignal)
  ({ answer
     now
     watchdog := station.watchdog.status now
     deadline := station.watchdog.deadline
     stopping := after.supervisor.stopping
     listeners := station.observers.router.entries.length
     gates := station.observers.gates
     published
     finished := after.finishedJobs
     endedOnSignal := if onSignal then some after.supervisor.endedOnSignal else none
     journal := station.journal },
    { after with position })

end Rehearsal

end PlanSupervision.Supervisor
