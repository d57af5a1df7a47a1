import PlanSupervision.Proofs.Plan.Operation

/-!
The work of a plan as a list of operations. What a turn of a course did is told by the
operations that it carried out; they follow the steps of the course in order.
-/

namespace PlanSupervision

open PlanContext Operation

def PlanAction.resets (now : Span) : PlanAction → List Span
  | reset => [now]
  | _ => []

theorem PlanAction.eq_of_mem_resets {now : Span} {action : PlanAction} :
    ∀ reset ∈ action.resets now, reset = now := by
  intro instant member
  cases action with
  | reset => exact List.mem_singleton.mp member
  | _ => cases member

def PlanAction.isPause : PlanAction → Bool
  | sleep _ | wait _ | checkpoint => true
  | _ => false

def PlanStep.calls (steps : List PlanStep) : List PlanAction :=
  (steps.map Prod.fst).filter PlanAction.isCall

/-- Operations that lead from one point of a plan to a later one, with the resets among them. -/
structure Leads (now : Span) (context : PlanContext) (station : Station)
    (operations : List Operation) (resets : List Span) (laterContext : PlanContext)
    (laterStation : Station) : Prop where
  chained : Chained context.openRuns operations
  openRuns : laterContext.openRuns = openAfter context.openRuns operations
  cancelled : laterContext.cancelled = context.cancelled
  writes : station.Writes laterStation (handed operations) resets
  watchdog : laterStation.watchdog = resets.foldl Watchdog.reset station.watchdog
  instants : ∀ reset ∈ resets, reset = now

namespace Leads

variable {context laterContext lastContext : PlanContext}
  {station laterStation lastStation : Station} {operations laterOperations : List Operation}
  {resets laterResets : List Span} {now : Span}

theorem refl (now : Span) (context : PlanContext) (station : Station) :
    Leads now context station [] [] context station :=
  ⟨trivial, rfl, rfl, .of_journal_eq rfl, rfl, fun _ member => nomatch member⟩

theorem trans (first : Leads now context station operations resets laterContext laterStation)
    (second : Leads now laterContext laterStation laterOperations laterResets lastContext
      lastStation) :
    Leads now context station (operations ++ laterOperations) (resets ++ laterResets) lastContext
      lastStation := by
  have chained := second.chained
  have openRuns := second.openRuns
  rw [first.openRuns] at chained openRuns
  refine ⟨chained_append.mpr ⟨first.chained, chained⟩, ?_, ?_, ?_, ?_, ?_⟩
  · rw [openAfter_append]
    exact openRuns
  · exact second.cancelled.trans first.cancelled
  · rw [handed, List.flatMap_append]
    exact first.writes.trans second.writes
  · rw [List.foldl_append, ← first.watchdog]
    exact second.watchdog
  · intro reset member
    rcases List.mem_append.mp member with earlier | later
    · exact first.instants reset earlier
    · exact second.instants reset later

theorem named (leads : Leads now context station operations resets laterContext laterStation)
    (named : Named context.openRuns) : Named laterContext.openRuns := by
  obtain ⟨nested, openRuns⟩ := leads.chained.account named
  rw [leads.openRuns, openRuns]
  exact nested.foldl_nonempty named

end Leads

theorem PlanContext.act_watchdog (context : PlanContext) (station : Station) (now : Span)
    (action : PlanAction) :
    (context.act station now action).station.watchdog =
      (action.resets now).foldl Watchdog.reset station.watchdog := by
  have submitted : ∀ {Value : Type} (station : Station)
      (handover : Except PlanError Handover) (value : Value),
      (context.submit station now handover value).station.watchdog = station.watchdog := by
    intro Value station handover value
    cases handover with
    | error error => rfl
    | ok accepted =>
        simp only [submit]
        split
        · rename_i same
          exact congrArg (fun after => after.1.watchdog) same.symm
        · rename_i same
          exact congrArg (fun after => after.1.watchdog) same.symm
  cases action with
  | openRun | event | closeRun => exact submitted station _ _
  | generateRun activateCallbacks => exact submitted station.makeUid.2 _ _
  | descriptor runUid name =>
      simp only [act]
      split
      · exact submitted station.makeUid.2 _ _
      · exact submitted station _ _
  | sleep duration =>
      simp only [act]
      split <;> rfl
  | reset | wait | checkpoint | view | fail | abort | branch => rfl

namespace Course

theorem writes_record (context : PlanContext) (station : Station) (now : Span) (branched : Bool)
    (step : PlanStep) (result : Except PlanError StepResult) :
    station.Writes (record context station now branched step result) []
      (step.1.resets now) := by
  refine ⟨_, rfl, rfl, ?_⟩
  obtain ⟨action, optional⟩ := step
  cases action <;> rfl

theorem leads_step {context : PlanContext} (named : Named context.openRuns) (station : Station)
    (now : Span) (branched : Bool) (step : PlanStep) :
    let after := context.act station now step.1
    Leads now context station [⟨context, station, now, step.1⟩] (step.1.resets now) after.context
      (record after.context after.station now branched step after.result) := by
  intro after
  have account := Operation.accounted ⟨context, station, now, step.1⟩ named
  have recorded := writes_record after.context after.station now branched step after.result
  refine ⟨⟨rfl, trivial⟩, rfl, account.cancelled, ?_, context.act_watchdog station now step.1,
    PlanAction.eq_of_mem_resets⟩
  have writes := account.handed.trans recorded
  rw [List.append_nil, List.nil_append] at writes
  rw [handed, List.flatMap_singleton]
  exact writes

def remaining : Course → List PlanStep
  | ready steps => steps
  | paused _ _ rest => rest

def WellFormed : Course → Prop
  | ready _ => True
  | paused _ step _ => step.1.isPause = true

/-- Operations that follow these steps, up to where the work stands. If it came to its end without
an error they are all that the steps ask for. -/
def Follows (steps : List PlanStep) (operations : List Operation) : Standing → Prop
  | .open course =>
      course.WellFormed ∧
        PlanStep.calls steps = Operation.calls operations ++ PlanStep.calls course.remaining
  | .ended (.ok ()) => Operation.calls operations = PlanStep.calls steps
  | .ended (.error _) => Operation.calls operations <+: PlanStep.calls steps

theorem Follows.followed {steps : List PlanStep} {operations : List Operation}
    {result : Except PlanError Unit} (follows : Follows steps operations (.ended result)) :
    Operation.calls operations <+: PlanStep.calls steps := by
  cases result with
  | ok value =>
      have same : Operation.calls operations = PlanStep.calls steps := follows
      exact same ▸ List.prefix_refl (Operation.calls operations)
  | error error => exact follows

theorem isPause_of_pause? {context : PlanContext} {now : Span} {action : PlanAction}
    {pause : Pause × List PlanEffect} (pauses : pause? context now action = some pause) :
    action.isPause = true := by
  cases action with
  | sleep | wait | checkpoint => rfl
  | _ => cases pauses

theorem calls_cons_of_isPause {step : PlanStep} (rest : List PlanStep)
    (pauses : step.1.isPause = true) : PlanStep.calls (step :: rest) = PlanStep.calls rest := by
  obtain ⟨action, optional⟩ := step
  cases action with
  | sleep | wait | checkpoint => rfl
  | _ => cases pauses

theorem Follows.cons {context : PlanContext} {station : Station} {now : Span}
    {step : PlanStep} {rest : List PlanStep} {operations : List Operation} {standing : Standing}
    (follows : Follows rest operations standing) :
    Follows (step :: rest) (⟨context, station, now, step.1⟩ :: operations) standing := by
  have steps : PlanStep.calls (step :: rest) = [step.1].filter PlanAction.isCall ++
      PlanStep.calls rest := List.filter_append [step.1] _
  have taken : Operation.calls (⟨context, station, now, step.1⟩ :: operations) =
      [step.1].filter PlanAction.isCall ++ Operation.calls operations :=
    List.filter_append [step.1] _
  cases standing with
  | «open» course =>
      refine ⟨follows.1, ?_⟩
      rw [steps, taken, follows.2, List.append_assoc]
  | ended result =>
      cases result with
      | ok value =>
          have same : Operation.calls operations = PlanStep.calls rest := follows
          exact taken.trans ((congrArg _ same).trans steps.symm)
      | error error =>
          change Operation.calls _ <+: PlanStep.calls _
          rw [steps, taken]
          exact (List.prefix_append_right_inj _).mpr follows

/-- A step that is carried out at once ends the course, or the rest of the steps follow. -/
theorem run_cons {context : PlanContext} {now : Span} {step : PlanStep} (station : Station)
    (branched : Bool) (rest : List PlanStep) (atOnce : pause? context now step.1 = none) :
    let after := context.act station now step.1
    let recorded := record after.context after.station now branched step after.result
    (∃ effects error, after.result = .error error ∧
      run now branched context station (step :: rest) =
        ⟨after.context, recorded, effects, .ended (.error error)⟩) ∨
    ∃ effects, run now branched context station (step :: rest) =
      { run now branched after.context recorded rest with effects } := by
  intro after recorded
  simp only [run, atOnce]
  split
  · rename_i error failed required
    exact Or.inl ⟨_, error, failed, rfl⟩
  · exact Or.inr ⟨_, rfl⟩

theorem run_leads {context : PlanContext} (named : Named context.openRuns) (station : Station)
    (now : Span) (branched : Bool) (steps : List PlanStep) :
    let advance := run now branched context station steps
    ∃ operations resets,
      Leads now context station operations resets advance.context advance.station ∧
        Follows steps operations advance.standing := by
  induction steps generalizing context station with
  | nil => exact ⟨[], [], .refl now context station, rfl⟩
  | cons step rest inductionHypothesis =>
      intro advance
      cases pauses : pause? context now step.1 with
      | some pause =>
          have stops : advance =
              ⟨context, station, pause.2, .open (.paused pause.1 step rest)⟩ := by
            simp only [advance, run, pauses]
          have long := isPause_of_pause? pauses
          rw [stops]
          refine ⟨[], [], .refl now context station, long, ?_⟩
          exact calls_cons_of_isPause rest long
      | none =>
          have stepped := leads_step named station now branched step
          rcases run_cons station branched rest pauses with
            ⟨effects, error, _, ends⟩ | ⟨effects, goes⟩
          · simp only [advance, ends]
            have nothingElse : Follows rest [] (.ended (.error error)) := List.nil_prefix
            exact ⟨_, _, stepped, nothingElse.cons⟩
          · simp only [advance, goes]
            obtain ⟨operations, resets, leads, follows⟩ :=
              inductionHypothesis (stepped.named named) _
            exact ⟨_, _, stepped.trans leads, follows.cons⟩

theorem advance_leads {course : Course} (wellFormed : course.WellFormed) {context : PlanContext}
    (named : Named context.openRuns) (station : Station) (now : Span) (branched : Bool) :
    let advance := course.advance now branched context station
    ∃ operations resets,
      Leads now context station operations resets advance.context advance.station ∧
        Follows course.remaining operations advance.standing := by
  cases course with
  | ready steps => exact run_leads named station now branched steps
  | paused pause step rest =>
      intro advance
      cases resumes : resume? context now pause with
      | none =>
          have stays : advance = ⟨context, station, [], .open (.paused pause step rest)⟩ := by
            simp only [advance, Course.advance, resumes]
          rw [stays]
          exact ⟨[], [], .refl now context station, wellFormed, rfl⟩
      | some result =>
          have recorded : Leads now context station [] [] context
              (record context station now branched step result) := by
            have noReset : step.1.resets now = [] := by
              obtain ⟨action, optional⟩ := step
              cases action with
              | reset => cases wellFormed
              | _ => rfl
            have writes := writes_record context station now branched step result
            rw [noReset] at writes
            exact ⟨trivial, rfl, rfl, writes, rfl, fun _ member => nomatch member⟩
          simp only [advance, Course.advance, resumes]
          split
          · exact ⟨[], [], recorded, List.nil_prefix⟩
          · obtain ⟨operations, resets, leads, follows⟩ :=
              run_leads named _ now branched rest
            exact ⟨_, _, recorded.trans leads, follows⟩

end Course

end PlanSupervision
