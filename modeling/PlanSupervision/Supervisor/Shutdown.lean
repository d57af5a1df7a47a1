import PlanSupervision.Supervisor.Calls
import PlanSupervision.Supervisor.Relay

/-!
Shutting down. The first request is published, cancels the plans and lets no other begin;
then the running plan and the relay are each given a grace period to come to their end.
-/

namespace PlanSupervision.Supervisor

def setStop (supervisor : Supervisor) (id : Nat) (phase : StopPhase) : Supervisor :=
  { supervisor with stops := supervisor.stops.modify id fun stop => { stop with phase } }

def isListening (stop : Stop) : Bool :=
  match stop.phase with
  | .listening _ => true
  | _ => false

def listening (supervisor : Supervisor) : List SupervisorTask :=
  ((List.range supervisor.stops.length).zip supervisor.stops).filterMap fun (id, stop) =>
    if isListening stop then some (.stop id) else none

def wakeCall (supervisor : Supervisor) (id : Nat) : Supervisor :=
  match supervisor.calls[id]? with
  | some ⟨_, _, _, .running _ _⟩ => supervisor.wake (.call id)
  | _ => supervisor

def cancelCall (supervisor : Supervisor) (id : Nat) : Supervisor :=
  ((supervisor.wakeCall id).wakeSleepers id).modifyCall id fun call =>
    { call with context := { call.context with cancelled := true } }

/-- Cancel all plans, the newest first. -/
def cancelPlans (supervisor : Supervisor) : Supervisor :=
  (List.range supervisor.calls.length).reverse.foldl cancelCall supervisor

/-- Request the shutdown, unless it was requested before. -/
def request (supervisor : Supervisor) (now : Span) (reason : String) : Supervisor :=
  if supervisor.stopping then supervisor
  else
    let told := supervisor.publish now ((Event.ofKind .shutdownRequested).withReason reason)
    let cancelled := { told with stopping := true }.cancelPlans
    cancelled.wakeAll cancelled.listening

def graceLine (supervisor : Supervisor) (message : String) : LogLine :=
  ⟨.warn, message, [("grace", supervisor.config.shutdownGrace.text)]⟩

def giveUpRelay (supervisor : Supervisor) (now : Span) (id : Nat) : Supervisor :=
  (supervisor.write now (.logged (supervisor.graceLine
    "event listener did not stop within shutdown grace"))).setStop id .ended

def stopRelay (supervisor : Supervisor) (now : Span) (id : Nat) : Supervisor :=
  let disarmed := { supervisor with station := supervisor.station.disarmWatchdog }
  let told := (disarmed.setRelay fun relay => { relay with stopping := true }).wakeRelay
  match told.relay with
  | none => told.setStop id .ended
  | some relay =>
      if relay.awaited then told.setStop id .ended
      else
        let taken := told.setRelay fun relay => { relay with awaited := true }
        if relay.state = .ended then taken.setStop id .ended
        else if supervisor.config.shutdownGrace = 0 then taken.giveUpRelay now id
        else taken.setStop id (.joining (now + supervisor.config.shutdownGrace))

def giveUpPlan (supervisor : Supervisor) (now : Span) (id : Nat) : Supervisor :=
  let left := { supervisor with lock := supervisor.lock.leave (.stop id) }
  (left.write now (.logged (supervisor.graceLine
    "running plan did not unwind within shutdown grace"))).stopRelay now id

def unwind (supervisor : Supervisor) (now : Span) (id : Nat) : Supervisor :=
  let asked := { supervisor with lock := supervisor.lock.ask (.stop id) }
  if asked.lock.holder = some (.stop id) then asked.releaseLock.stopRelay now id
  else if supervisor.config.shutdownGrace = 0 then asked.giveUpPlan now id
  else asked.setStop id (.unwinding (now + supervisor.config.shutdownGrace))

def stopTurn (supervisor : Supervisor) (now : Span) (id : Nat) : Supervisor :=
  match supervisor.stops[id]? with
  | none => supervisor
  | some stop =>
      match stop.phase with
      | .listening signal =>
          if supervisor.stopping then supervisor.setStop id .ended
          else match signal with
            | none => supervisor
            | some reason => (supervisor.request now reason).unwind now id
      | .requested => (supervisor.request now "requested").unwind now id
      | .unwinding due =>
          if supervisor.lock.holder = some (.stop id) then
            supervisor.releaseLock.stopRelay now id
          else if due ≤ now then supervisor.giveUpPlan now id
          else supervisor
      | .joining due =>
          if supervisor.relay.any (·.state = .ended) then supervisor.setStop id .ended
          else if due ≤ now then supervisor.giveUpRelay now id
          else supervisor
      | .ended => supervisor

def enterStop (supervisor : Supervisor) (onSignal : Bool) : Supervisor :=
  { supervisor with stops := supervisor.stops ++
      [⟨onSignal, if onSignal then .listening none else .requested⟩] }

def signal (supervisor : Supervisor) (name : String) : Supervisor :=
  { supervisor.wakeAll supervisor.listening with
    stops := supervisor.stops.map fun stop =>
      if isListening stop then { stop with phase := .listening (some name) } else stop }

end PlanSupervision.Supervisor
