import PlanSupervision.Document.Basic
import PlanSupervision.Span

/-!
Plans as lists of steps. A plan acts on the outside only through its steps, and ends at the
first step that fails unless that step may fail.
-/

namespace PlanSupervision

inductive PlanAction where
  | openRun (run : RunStart)
  | generateRun (activateCallbacks : Option (List String))
  | descriptor (runUid name : String)
  | event (descriptorUid : String) (data : Table Json)
  | closeRun (runUid : String) (status : ExitStatus)
  /-- Ends early when the execution is cancelled. -/
  | sleep (duration : Span)
  /-- Lasts its time whatever happens. -/
  | wait (duration : Span)
  /-- Lets others run, then fails if the execution is cancelled. -/
  | checkpoint
  | reset
  | view
  | fail (message : String)
  | abort (reason : String)
  | branch (steps : List (PlanAction × Bool))

/-- A step of a plan: what it does, and whether the plan goes on when it fails. -/
abbrev PlanStep := PlanAction × Bool

structure Plan where
  name : String
  steps : List PlanStep

end PlanSupervision
