import PlanSupervision.Document.Basic

/-!
Gates. A gate lets documents pass to its handler only from the start of a run that
activates it to the stop of that run; runs that start in between do not move it.
-/

namespace PlanSupervision

structure Gate where
  name : String
  /-- Adopt only runs of this name when a run lists no handlers. -/
  runKey : Option String
  active : Bool
  /-- The run that activated the gate. -/
  activation : Option String
deriving DecidableEq, Inhabited

namespace Gate

def closed (name : String) (runKey : Option String) : Gate := ⟨name, runKey, false, none⟩

def isActive (gate : Gate) : Bool := gate.active

/-- Does the start of this run activate an inactive gate? A list of handlers decides alone
unless it is empty. -/
def wouldActivate (gate : Gate) (run : RunStart) : Bool :=
  if (run.activateCallbacks.getD []).isEmpty then
    match gate.runKey with
    | none => true
    | some key => run.runName == some key
  else run.activates gate.name

def onStart (gate : Gate) (run : RunStart) : Gate × Bool :=
  if !gate.isActive && gate.wouldActivate run then
    ({ gate with active := true, activation := some run.runUid }, true)
  else (gate, gate.isActive)

def onStop (gate : Gate) (closing : RunStop) : Gate × Bool :=
  if gate.activation = some closing.runStart then
    ({ gate with active := false, activation := none }, gate.isActive)
  else (gate, gate.isActive)

def receive (gate : Gate) : Document → Gate × Bool
  | .start run => gate.onStart run
  | .stop closing => gate.onStop closing
  | .descriptor _ | .event _ => (gate, gate.isActive)

end Gate

end PlanSupervision
