import PlanSupervision.Supervisor.Basic

/-!
Calls for the execution of plans. A call waits for the lock, executes its plan unless the
supervisor shuts down, and releases the lock. Steps that a plan started beside itself act
through the context of its call, also after the call has ended.
-/

namespace PlanSupervision.Supervisor

def wakeSleepers (supervisor : Supervisor) (id : Nat) : Supervisor :=
  match supervisor.calls[id]? with
  | none => supervisor
  | some call =>
      (supervisor.wakeAll call.sleepers).modifyCall id fun call => { call with sleepers := [] }

/-- A branch waits for the context of its call to be cancelled; the call itself need not. -/
def awaitCancellation (supervisor : Supervisor) (task : SupervisorTask) (id : Nat) : Supervisor :=
  if task = .call id then supervisor
  else supervisor.modifyCall id fun call =>
    { call with sleepers := call.sleepers.filter (· != task) ++ [task] }

def heed (task : SupervisorTask) (id : Nat) (supervisor : Supervisor) : PlanEffect → Supervisor
  | .published => supervisor.wakeRelay
  | .branched steps =>
      { supervisor.wake (.branch supervisor.branches.length) with
        branches := supervisor.branches ++ [⟨id, some (.ready steps)⟩] }
  | .stepsBack => supervisor.rest task
  | .awaitsCancellation => supervisor.awaitCancellation task id
  | .cancelled => supervisor.wakeSleepers id

def takeOver (supervisor : Supervisor) (task : SupervisorTask) (id : Nat) (context : PlanContext)
    (station : Station) (effects : List PlanEffect) : Supervisor :=
  effects.foldl (heed task id)
    { supervisor.modifyCall id fun call => { call with context } with station }

def finish (supervisor : Supervisor) (id : Nat) (result : Except PlanError Unit) : Supervisor :=
  let ended := supervisor.releaseLock.setPhase id (.ended result)
  { ended with finished := ended.finished ++ [(id, some result)] }

def settleTurn (supervisor : Supervisor) (id : Nat) (execution : Execution) : Supervisor :=
  let after := supervisor.takeOver (.call id) id execution.context execution.station
    execution.effects
  match execution.standing with
  | .running course nextTick => after.setPhase id (.running course nextTick)
  | .ended result => after.finish id result

/-- Begin an execution that holds the lock, unless the supervisor shuts down. -/
def begin (supervisor : Supervisor) (now : Span) (id : Nat) (call : Call) : Supervisor :=
  if supervisor.stopping then
    supervisor.finish id (.error (.aborted "supervisor is shutting down"))
  else
    supervisor.settleTurn id (.begin supervisor.config.pollInterval call.plan call.context
      supervisor.station now)

def callTurn (supervisor : Supervisor) (now : Span) (id : Nat) : Supervisor :=
  match supervisor.calls[id]? with
  | none => supervisor
  | some call =>
      match call.phase with
      | .entering =>
          let asked := { supervisor with lock := supervisor.lock.ask (.call id) }
          if asked.lock.holder = some (.call id) then asked.begin now id call
          else asked.setPhase id .queued
      | .queued =>
          if supervisor.lock.holder = some (.call id) then supervisor.begin now id call
          else supervisor
      | .running course nextTick =>
          supervisor.settleTurn id (.proceed supervisor.config.pollInterval course nextTick
            call.context supervisor.station now)
      | .ended _ | .dropped => supervisor

def setCourse (supervisor : Supervisor) (index : Nat) (course : Option Course) : Supervisor :=
  { supervisor with
    branches := supervisor.branches.modify index fun branch => { branch with course } }

def branchTurn (supervisor : Supervisor) (now : Span) (index : Nat) : Supervisor :=
  match supervisor.branches[index]? with
  | some ⟨id, some course⟩ =>
      match supervisor.calls[id]? with
      | none => supervisor
      | some call =>
          let advance := course.advance now true call.context supervisor.station
          let after := supervisor.takeOver (.branch index) id advance.context advance.station
            advance.effects
          match advance.standing with
          | .open course => after.setCourse index (some course)
          | .ended _ => after.setCourse index none
  | _ => supervisor

def enterCall (supervisor : Supervisor) (plan : Plan) : Supervisor :=
  { supervisor with
    calls := supervisor.calls ++ [⟨plan, ⟨plan.name, [], false⟩, [], .entering⟩] }

/-- Give up a call before its end. The watchdog and the runs stay as they are. -/
def dropCall (supervisor : Supervisor) (id : Nat) : Supervisor :=
  match supervisor.calls[id]? with
  | none => supervisor
  | some call =>
      match call.phase with
      | .ended _ | .dropped => supervisor
      | _ =>
          let left := if supervisor.lock.holder = some (.call id) then supervisor.releaseLock
            else { supervisor with lock := supervisor.lock.leave (.call id) }
          let dropped := left.setPhase id .dropped
          { dropped with finished := dropped.finished ++ [(id, none)] }

end PlanSupervision.Supervisor
