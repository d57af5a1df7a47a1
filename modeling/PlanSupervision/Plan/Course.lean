import PlanSupervision.Plan.Context

/-!
The course of a plan's steps: how far they have come, what they wait for and how they go
on. A step that failed ends the course unless it may fail.
-/

namespace PlanSupervision

/-- What a step that takes time waits for. -/
inductive Pause where
  | until (due : Span)
  /-- Like `until`, but ended by a cancellation. -/
  | sleeping (due : Span)
  | yielding
deriving DecidableEq, Inhabited

inductive Course where
  | ready (steps : List PlanStep)
  | paused (pause : Pause) (step : PlanStep) (rest : List PlanStep)

/-- What follows from the work of a plan for whoever runs it, in order. -/
inductive PlanEffect where
  | published
  | branched (steps : List PlanStep)
  | awaitsCancellation
  | stepsBack
  | cancelled

/-- Where a course stands after a turn. -/
inductive Standing where
  | open (course : Course)
  | ended (result : Except PlanError Unit)

/-- What follows from a turn of a course. -/
structure Advance where
  context : PlanContext
  station : Station
  effects : List PlanEffect
  standing : Standing

namespace Course

def deadline? : Course → Option Span
  | paused (.until due) _ _ | paused (.sleeping due) _ _ => some due
  | paused .yielding _ _ | ready _ => none

/-- The pause of an action that takes time, if it does not end at once. -/
def pause? (context : PlanContext) (now : Span) :
    PlanAction → Option (Pause × List PlanEffect)
  | .wait duration => if duration = 0 then none else some (.until (now + duration), [])
  | .sleep duration =>
      if duration = 0 || context.cancelled then none
      else some (.sleeping (now + duration), [.awaitsCancellation])
  | .checkpoint => some (.yielding, [.stepsBack])
  | _ => none

/-- How a pause ends, if it does. -/
def resume? (context : PlanContext) (now : Span) : Pause → Option (Except PlanError StepResult)
  | .until due => if due ≤ now then some (.ok .done) else none
  | .sleeping due =>
      if context.cancelled then some (.error (.aborted "cancelled while sleeping"))
      else if due ≤ now then some (.ok .done) else none
  | .yielding =>
      if context.cancelled then some (.error (.aborted "cancelled at checkpoint"))
      else some (.ok .done)

def record (context : PlanContext) (station : Station) (now : Span) (branched : Bool)
    (step : PlanStep) (result : Except PlanError StepResult) : Station :=
  station.write now [.stepped ⟨context.plan, step.1, result, branched⟩]

def effects (before after : Station) : PlanAction → List PlanEffect
  | .branch steps => [.branched steps]
  | _ => if after.bus.position = before.bus.position then [] else [.published]

/-- Take steps up to the first that waits or ends the course. -/
def run (now : Span) (branched : Bool) (context : PlanContext) (station : Station) :
    List PlanStep → Advance
  | [] => ⟨context, station, [], .ended (.ok ())⟩
  | step :: rest =>
      match pause? context now step.1 with
      | some (pause, effects) => ⟨context, station, effects, .open (.paused pause step rest)⟩
      | none =>
          let after := context.act station now step.1
          let effects := effects station after.station step.1
          let station := record after.context after.station now branched step after.result
          match after.result, step.2 with
          | .error error, false => ⟨after.context, station, effects, .ended (.error error)⟩
          | _, _ =>
              let later := run now branched after.context station rest
              { later with effects := effects ++ later.effects }

def advance (course : Course) (now : Span) (branched : Bool) (context : PlanContext)
    (station : Station) : Advance :=
  match course with
  | ready steps => run now branched context station steps
  | paused pause step rest =>
      match resume? context now pause with
      | none => ⟨context, station, [], .open course⟩
      | some result =>
          let station := record context station now branched step result
          match result, step.2 with
          | .error error, false => ⟨context, station, [], .ended (.error error)⟩
          | _, _ => run now branched context station rest

end Course

end PlanSupervision
