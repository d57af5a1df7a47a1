import PlanSupervision.Plan.Execution
import PlanSupervision.Proofs.Plan.Work

/-!
What can happen to a plan that is executed: the turns of its execution, and what others do
in between. The plan may come to its end at any time and with any result, so that a plan is
not bound to the steps that it still has.
-/

namespace PlanSupervision.Execution

open PlanContext

inductive Happening where
  | turn
  /-- The watchdog and the cancellation are looked at, and the plan is not given its turn. -/
  | check
  | finish (result : Except PlanError Unit)
  | cancel
  | reset
  /-- Others change what the plan acts on; the watchdog and the journal are not theirs. -/
  | others (station : Station)

/-- A happening after which the plan still ends as its steps do, if nothing else ends it. -/
def Happening.IsOwn : Happening → Prop
  | finish _ => False
  | _ => True

abbrev History := List (Span × Happening)

/-- What a happening makes of an execution; one that has ended stays as it is. -/
def happen (interval : Span) (execution : Execution) (now : Span) (happening : Happening) :
    Execution :=
  let context := execution.context
  let station := execution.station
  match execution.standing with
  | .ended _ => execution
  | .running course tick =>
      match happening with
      | .turn => proceed interval course tick context station now
      | .check =>
          match interruption? context station now tick with
          | some error => fail context station now error
          | none =>
              { execution with standing := .running course (tickAfter interval now tick) }
      | .finish result => conclude context station now result
      | .cancel => { execution with context := { context with cancelled := true } }
      | .reset => { execution with station := station.resetWatchdog now }
      | .others changed =>
          { execution with station := { changed with
              watchdog := station.watchdog
              journal := station.journal } }

def play (interval : Span) (execution : Execution) (history : History) : Execution :=
  history.foldl (fun execution entry => execution.happen interval entry.1 entry.2) execution

/-- The execution of a plan as it stands after its first turn. -/
def start (interval : Span) (plan : Plan) (cancelled : Bool) (station : Station)
    (armed : Span) : Execution :=
  begin interval plan ⟨plan.name, [], cancelled⟩ station armed

theorem writes_handClosing (plan : String) (now : Span) (station : Station)
    (closing : RunStop) :
    station.Writes (handClosing plan now station closing) [.stop closing] [] := by
  have dispatched := station.writes_dispatch now (.stop closing)
  unfold handClosing
  split
  · rename_i same
    rw [same] at dispatched
    exact dispatched
  · rename_i fault same
    rw [same] at dispatched
    refine dispatched.trans (Station.writes_write _ now ?_)
    intro entry member
    obtain rfl := List.mem_singleton.mp member
    exact ⟨rfl, rfl⟩

/-- Every stop is handed over, whatever the observers answer to those before it. -/
theorem writes_closings (plan : String) (now : Span) (station : Station)
    (closings : List RunStop) :
    station.Writes (closings.foldl (handClosing plan now) station) (closings.map .stop) [] := by
  induction closings generalizing station with
  | nil => exact .of_journal_eq rfl
  | cons closing later inductionHypothesis =>
      exact (writes_handClosing plan now station closing).trans (inductionHypothesis _)

variable (context : PlanContext) (station : Station) (now : Span)

theorem writes_succeed : station.Writes (succeed context station now).station [] [] :=
  (station.disarmWatchdog.writes_publish now
    ((Event.ofKind .planFinished).withPlan context.plan)).of_same rfl rfl

theorem writes_noteExpiry (error : PlanError) :
    station.Writes (noteExpiry context station now error).2.1 [] [] := by
  cases error with
  | watchdogExpired window => exact station.writes_publish now _
  | _ => exact .of_journal_eq rfl

theorem noteExpiry_openRuns (error : PlanError) :
    (noteExpiry context station now error).1.openRuns = context.openRuns := by
  cases error <;> rfl

theorem writes_fail (error : PlanError) :
    station.Writes (fail context station now error).station
      (context.openRuns.reverse.map fun runUid =>
        .stop ⟨runUid, closingStatus error, some error.message⟩) [] := by
  let noted := noteExpiry context station.disarmWatchdog now error
  let stops := noted.1.closingStops (closingStatus error) error.message
  have first : station.Writes noted.2.1 [] [] :=
    (writes_noteExpiry context station.disarmWatchdog now error).of_same rfl rfl
  have closed := writes_closings noted.1.plan now noted.2.1 stops
  have published := Station.writes_publish (stops.foldl (handClosing noted.1.plan now) noted.2.1)
    now (((Event.ofKind .planFailed).withPlan noted.1.plan).withReason error.message)
  have handed : stops.map Document.stop = context.openRuns.reverse.map fun runUid =>
      .stop ⟨runUid, closingStatus error, some error.message⟩ := by
    have sameRuns := noteExpiry_openRuns context station.disarmWatchdog now error
    simp [stops, noted, closingStops, sameRuns, Function.comp_def]
  have all := (first.trans closed).trans published
  rw [List.nil_append, List.append_nil, handed] at all
  exact all

/-- How an execution stands after a turn, apart from what it lists for others. -/
structure StandsAt (execution : Execution) (context : PlanContext) (station : Station)
    (standing : ExecutionStanding) : Prop where
  context : execution.context = context
  station : execution.station = station
  standing : execution.standing = standing

/-- An execution stands as another does, apart from what the two list for others. -/
def StandsAs (execution other : Execution) : Prop :=
  execution.StandsAt other.context other.station other.standing

/-- A turn ends with the plan, with what the watchdog and the context say, or goes on. -/
theorem proceed_cases (interval : Span) (course : Course) (tick : Span) :
    let advance := course.advance now false context station
    let after := proceed interval course tick context station now
    (∃ result, advance.standing = .ended result ∧
      after.StandsAs (conclude advance.context advance.station now result)) ∨
    ∃ later, advance.standing = .open later ∧
      ((∃ error, interruption? advance.context advance.station now tick = some error ∧
          after.StandsAs (fail advance.context advance.station now error)) ∨
        interruption? advance.context advance.station now tick = none ∧
          after.StandsAt advance.context advance.station
            (.running later (tickAfter interval now tick))) := by
  intro advance after
  cases stands : advance.standing with
  | ended result =>
      refine Or.inl ⟨result, rfl, ?_⟩
      refine ⟨?_, ?_, ?_⟩ <;> simp only [after, proceed, advance, stands]
  | «open» later =>
      refine Or.inr ⟨later, rfl, ?_⟩
      cases interrupts : interruption? advance.context advance.station now tick with
      | some error =>
          refine Or.inl ⟨error, rfl, ?_⟩
          refine ⟨?_, ?_, ?_⟩ <;> simp only [after, proceed, advance, stands, interrupts]
      | none =>
          refine Or.inr ⟨rfl, ?_⟩
          refine ⟨?_, ?_, ?_⟩ <;> simp only [after, proceed, advance, stands, interrupts]

def begun (station : Station) (plan : Plan) (now : Span) : Station :=
  (station.armWatchdog now).publish now ((Event.ofKind .planStarting).withPlan plan.name)

theorem start_of_expired (interval : Span) (plan : Plan) (cancelled : Bool)
    (expired : (begun station plan now).hasExpired now = true) :
    let failed := fail ⟨plan.name, [], cancelled⟩ (begun station plan now) now
      (.watchdogExpired (begun station plan now).watchdog.window)
    start interval plan cancelled station now =
      { failed with effects := .published :: failed.effects } := by
  unfold begun at expired
  simp only [start, begin, expired, if_true, begun]

/-- The first turn ends at once if the watchdog is found expired, and is a turn otherwise. -/
theorem start_cases (interval : Span) (plan : Plan) (cancelled : Bool) :
    let ready := begun station plan now
    let after := start interval plan cancelled station now
    (ready.hasExpired now = true ∧
      after.StandsAs (fail ⟨plan.name, [], cancelled⟩ ready now
        (.watchdogExpired ready.watchdog.window))) ∨
    ready.hasExpired now = false ∧
      after.StandsAs (proceed interval (.ready plan.steps) now ⟨plan.name, [], cancelled⟩ ready
        now) := by
  intro ready after
  cases stale : ready.hasExpired now with
  | true =>
      have failed := start_of_expired station now interval plan cancelled stale
      refine Or.inl ⟨rfl, ?_⟩
      refine ⟨?_, ?_, ?_⟩ <;> simp only [after, failed, ready]
  | false =>
      simp only [ready, begun] at stale
      refine Or.inr ⟨rfl, ?_⟩
      refine ⟨?_, ?_, ?_⟩ <;>
        simp only [after, start, begin, stale, Bool.false_eq_true, if_false, ready, begun]

end PlanSupervision.Execution
