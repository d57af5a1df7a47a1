import PlanSupervision.Supervisor.Basic

/-!
The way of events from the bus to the subscribers. The relay receives them in order, notes
how many it missed, and stops only when nothing is left to receive.
-/

namespace PlanSupervision.Supervisor

def carryOut (now : Span) (supervisor : Supervisor) : FanOutEffect → Supervisor
  | .wake index => supervisor.wake (.worker index)
  | .publish event => supervisor.publish now event
  | .write entry => supervisor.write now entry

def workerTurn (supervisor : Supervisor) (now : Span) (index : Nat) : Supervisor :=
  let (fan, effects, short) := supervisor.fan.work index now
  let after := effects.foldl (carryOut now) { supervisor with fan }
  if short then after.rest (.worker index) else after

def emit (supervisor : Supervisor) (now : Span) (event : Event) : Supervisor :=
  let (fan, effects) := supervisor.fan.emit event
  effects.foldl (carryOut now) { supervisor with fan }

def setRelay (supervisor : Supervisor) (change : Relay → Relay) : Supervisor :=
  { supervisor with relay := supervisor.relay.map change }

def joining (supervisor : Supervisor) : List SupervisorTask :=
  ((List.range supervisor.stops.length).zip supervisor.stops).filterMap fun (id, stop) =>
    match stop.phase with
    | .joining _ => some (.stop id)
    | _ => none

/-- Nothing is left to receive: the relay ends if it is to stop, else it waits. -/
def relayIdle (supervisor : Supervisor) : Supervisor :=
  if supervisor.relay.any Relay.stopping then
    (supervisor.setRelay fun relay => { relay with state := .ended }).wakeAll supervisor.joining
  else supervisor.setRelay fun relay => { relay with state := .waiting }

def lagLine (missed : Nat) : LogLine :=
  ⟨.warn, "supervision event listener lagged", [("skipped", toString missed)]⟩

def passOn (supervisor : Supervisor) (now : Span) : Reception Event → Supervisor
  | .message event => supervisor.emit now event
  | .lagged missed => supervisor.write now (.logged (lagLine missed))
  | .empty | .closed => supervisor.relayIdle

def relayStep (supervisor : Supervisor) (now : Span) (position : Nat) :
    Reception Event × Supervisor :=
  let (reception, position) := supervisor.station.bus.receive position
  (reception, (supervisor.setRelay fun relay => { relay with position }).passOn now reception)

/-- Steps until nothing is left to receive or the turn is over. -/
def relayWithin (now : Span) : Nat → Supervisor → Supervisor
  | 0, supervisor => supervisor.rest .relay
  | budget + 1, supervisor =>
      match supervisor.relay with
      | none => supervisor
      | some relay =>
          match supervisor.relayStep now relay.position with
          | (.message _, after) | (.lagged _, after) => relayWithin now budget after
          | (.empty, after) | (.closed, after) => after

def relayTurn (supervisor : Supervisor) (now : Span) : Supervisor :=
  match supervisor.relay with
  | none => supervisor
  | some relay =>
      if relay.state = .ended then supervisor
      else relayWithin now turnBudget
        (supervisor.setRelay fun relay => { relay with state := .ready })

end PlanSupervision.Supervisor
