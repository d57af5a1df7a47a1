import PlanSupervision.Error
import PlanSupervision.LogLine
import PlanSupervision.Plan.Basic
import PlanSupervision.Remote.Alert
import PlanSupervision.Watchdog

/-!
What happens in the course of supervision, entry by entry: the documents that are handed to
the observers, the events that are published, and what the observers, the subscribers, the
plans and the services outside are seen to do.
-/

namespace PlanSupervision

/-- What a plan sees of its own execution. -/
structure PlanView where
  watchdog : WatchdogStatus
  deadline : Option Span
  cancelled : Bool
  openRuns : List String
  plan : String
deriving DecidableEq, Inhabited

inductive StepResult where
  | done
  | uid (value : String)
  | view (value : PlanView)
deriving DecidableEq, Inhabited

structure StepRecord where
  plan : String
  action : PlanAction
  result : Except PlanError StepResult
  branched : Bool

inductive Entry where
  | handed (document : Document)
  | published (event : Event)
  | delivered (listener : String) (document : Document)
  | logged (line : LogLine)
  | stepped (record : StepRecord)
  | received (subscriber : String) (event : Event)
  | abortRequested (reason : String)
  | alertRaised (alert : AlertRecord)

/-- Entries with the instant of each, in order. -/
abbrev Journal := List (Span × Entry)

def Journal.write (journal : Journal) (now : Span) (entries : List Entry) : Journal :=
  journal ++ entries.map fun entry => (now, entry)

end PlanSupervision
