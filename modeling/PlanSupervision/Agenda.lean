import PlanSupervision.Span

/-!
Whose turn it is. Tasks take turns on one thread, first in first out, under a clock that
stands still while any of them can run and then moves to the next alarm. One task may be
in the foreground: it comes first whenever the clock has moved or the others have run out.
-/

namespace PlanSupervision

def turnBudget : Nat := 128

/-- An instant at which a task can go on. -/
structure Alarm (Task : Type) where
  due : Span
  task : Task
deriving DecidableEq

structure Agenda (Task : Type) where
  now : Span
  ready : List Task
  /-- Tasks that stepped back until all others have run. -/
  resting : List Task
  alarms : List (Alarm Task)
  foreground : Option Task
  foregroundReady : Bool
  /-- The ready tasks are being run, so the foreground has to wait. -/
  passing : Bool

namespace Agenda

variable {Task : Type} [DecidableEq Task]

def start : Agenda Task := ⟨0, [], [], [], none, false, false⟩

instance : Inhabited (Agenda Task) := ⟨start⟩

def wake (agenda : Agenda Task) (task : Task) : Agenda Task :=
  if agenda.foreground = some task then { agenda with foregroundReady := true }
  else if task ∈ agenda.ready then agenda
  else { agenda with ready := agenda.ready ++ [task] }

def wakeAll (agenda : Agenda Task) (tasks : List Task) : Agenda Task :=
  tasks.foldl wake agenda

def stepBack (agenda : Agenda Task) (task : Task) : Agenda Task :=
  { agenda with resting := agenda.resting ++ [task] }

/-- Keep exactly these alarms for a task; those that stay keep their places. -/
def schedule (agenda : Agenda Task) (task : Task) (dues : List Span) : Agenda Task :=
  let kept := agenda.alarms.filter fun alarm =>
    alarm.task != task || dues.contains alarm.due
  let new := dues.filter fun due =>
    agenda.now < due && !kept.any fun alarm => alarm.task == task && alarm.due == due
  { agenda with alarms := kept ++ new.eraseDups.map fun due => ⟨due, task⟩ }

def begin? (agenda : Agenda Task) : Option (Task × Agenda Task) :=
  match agenda.foregroundReady, agenda.foreground, agenda.ready with
  | true, some task, _ =>
      some (task, { agenda with foregroundReady := false, passing := true })
  | _, _, task :: rest => some (task, { agenda with ready := rest, passing := true })
  | _, _, [] => none

def next? (agenda : Agenda Task) : Option (Task × Agenda Task) :=
  match agenda.passing, agenda.ready with
  | true, task :: rest => some (task, { agenda with ready := rest })
  | _, _ =>
      let rested : Agenda Task := { agenda with resting := [], passing := false }
      (rested.wakeAll agenda.resting).begin?

def nextDue? (agenda : Agenda Task) : Option Span :=
  agenda.alarms.foldl (fun least alarm => match least with
    | none => some alarm.due
    | some due => some (min due alarm.due)) none

/-- Move the clock and wake the tasks whose alarms are due and still hold. -/
def moveTo (agenda : Agenda Task) (instant : Span) (holds : Alarm Task → Bool) : Agenda Task :=
  let due := agenda.alarms.filter fun alarm : Alarm Task => alarm.due ≤ instant && holds alarm
  let later := agenda.alarms.filter fun alarm => instant < alarm.due
  let moved : Agenda Task := { agenda with now := instant, alarms := later, passing := false }
  moved.wakeAll (due.map Alarm.task)

end Agenda

/-- A world whose tasks take turns. -/
class Cooperative (World : Type) (Task : outParam Type) [DecidableEq Task] where
  agenda : World → Agenda Task
  withAgenda : World → Agenda Task → World
  perform : World → Task → World
  deadlines : World → Task → List Span

namespace Cooperative

variable {World Task : Type} [DecidableEq Task] [Cooperative World Task]

def turnLimit : Nat := 1000000

def take (world : World) (task : Task) : World :=
  let after := perform world task
  let agenda := { agenda after with passing := true }
  withAgenda after (agenda.schedule task (deadlines after task))

def settleWithin : Nat → World → World
  | 0, world => world
  | turns + 1, world =>
      match (agenda world).next? with
      | none => world
      | some (task, rest) => settleWithin turns (take (withAgenda world rest) task)

def settle (world : World) : World := settleWithin turnLimit world

def moveTo (world : World) (instant : Span) : World :=
  withAgenda world ((agenda world).moveTo instant fun alarm =>
    (deadlines world alarm.task).contains alarm.due)

/-- Let time pass up to an instant, everything that is due until then included. -/
def passWithin : Nat → Span → World → World
  | 0, _, world => world
  | stops + 1, instant, world =>
      let settled := settle world
      match (agenda settled).nextDue? with
      | some due =>
          if due ≤ instant then passWithin stops instant (moveTo settled due)
          else settle (moveTo settled instant)
      | none => settle (moveTo settled instant)

def passUntil (instant : Span) (world : World) : World := passWithin turnLimit instant world

/-- Let time pass until something holds, or nothing can happen any more. -/
def awaitWithin : Nat → (World → Bool) → World → World
  | 0, _, world => world
  | stops + 1, holds, world =>
      let settled := settle world
      if holds settled then settled
      else match (agenda settled).nextDue? with
        | some due => awaitWithin stops holds (moveTo settled due)
        | none => settled

def await (holds : World → Bool) (world : World) : World := awaitWithin turnLimit holds world

end Cooperative

end PlanSupervision
