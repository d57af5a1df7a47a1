import PlanSupervision.Proofs.Plan.Happening

/-!
The documents of a plan, from its first turn to its end. They are those of the operations of
its context, and after a failure the stops of the runs that were left open.
-/

namespace PlanSupervision.Execution

open PlanContext Operation

/-- Operations of a plan that lead from its beginning to this context and station. -/
structure Reaches (origin : Station) (operations : List Operation) (context : PlanContext)
    (station : Station) : Prop where
  chained : Chained [] operations
  openRuns : context.openRuns = openAfter [] operations
  writes : ∃ resets, origin.Writes station (handed operations) resets

namespace Reaches

variable {origin station : Station} {operations : List Operation} {context : PlanContext}

theorem account (reaches : Reaches origin operations context station) :
    Document.Nested [] (handed operations) ∧
      openAfter [] operations = (handed operations).foldl Document.track [] :=
  reaches.chained.account fun _ member => nomatch member

theorem named (reaches : Reaches origin operations context station) :
    Named context.openRuns := by
  obtain ⟨nested, openRuns⟩ := reaches.account
  rw [reaches.openRuns, openRuns]
  exact nested.foldl_nonempty fun _ member => nomatch member

theorem handedUntil_eq (reaches : Reaches origin operations context station) :
    origin.handedUntil station = handed operations := by
  obtain ⟨resets, writes⟩ := reaches.writes
  exact writes.handedUntil_eq

theorem openAfter_take (reaches : Reaches origin operations context station) (count : Nat) :
    openAfter [] (operations.take count) =
      (handed (operations.take count)).foldl Document.track [] :=
  ((reaches.chained.take count).account fun _ member => nomatch member).2

theorem closed {last : Station} {exitStatus : ExitStatus} {reason : String}
    (reaches : Reaches origin operations context station)
    (closings : station.Writes last (context.openRuns.reverse.map fun runUid =>
      .stop ⟨runUid, exitStatus, some reason⟩) []) :
    let documents := origin.handedUntil last
    documents = handed operations ++ ((openAfter [] operations).reverse.map fun runUid =>
        .stop ⟨runUid, exitStatus, some reason⟩) ∧
      Document.Nested [] documents ∧
      (Document.started documents).Perm (Document.stopped documents) := by
  intro documents
  obtain ⟨resets, writes⟩ := reaches.writes
  obtain ⟨nested, openRuns⟩ := reaches.account
  obtain ⟨nestedStops, noneLeft⟩ :=
    Document.nested_closing context.openRuns exitStatus (some reason) reaches.named
  have same := (writes.trans closings).handedUntil_eq
  rw [reaches.openRuns] at same nestedStops noneLeft
  have nestedAll : Document.Nested [] documents := by
    rw [openRuns] at nestedStops
    simp only [documents, same]
    rw [openRuns]
    exact Document.nested_append.mpr ⟨nested, nestedStops⟩
  have balanced := nestedAll.perm
  have noRuns : documents.foldl Document.track [] = [] := by
    simp only [documents, same]
    rw [List.foldl_append, ← openRuns]
    exact noneLeft
  rw [noRuns, List.nil_append, List.append_nil] at balanced
  exact ⟨same, nestedAll, balanced⟩

theorem extend {more : List Operation} {resets : List Span} {laterContext : PlanContext}
    {laterStation : Station} {now : Span} (reaches : Reaches origin operations context station)
    (leads : Leads now context station more resets laterContext laterStation) :
    Reaches origin (operations ++ more) laterContext laterStation := by
  have chained := leads.chained
  have openRuns := leads.openRuns
  rw [reaches.openRuns] at chained openRuns
  obtain ⟨earlier, writes⟩ := reaches.writes
  refine ⟨chained_append.mpr ⟨reaches.chained, chained⟩, ?_, earlier ++ resets, ?_⟩
  · rw [openAfter_append]
    exact openRuns
  · rw [handed, List.flatMap_append]
    exact writes.trans leads.writes

end Reaches

/-- How the operations of a plan account for where its execution stands, if so far its end was its
own or not. -/
def Accounts (own : Prop) (origin : Station) (steps : List PlanStep) (operations : List Operation)
    (context : PlanContext) (station : Station) : ExecutionStanding → Prop
  | .running course _ =>
      Reaches origin operations context station ∧ Course.Follows steps operations (.open course)
  | .ended (.ok ()) =>
      Reaches origin operations context station ∧
        Operation.calls operations <+: PlanStep.calls steps ∧
        (own → Operation.calls operations = PlanStep.calls steps)
  | .ended (.error error) =>
      ∃ lastContext lastStation, Reaches origin operations lastContext lastStation ∧
        Operation.calls operations <+: PlanStep.calls steps ∧ context.openRuns = [] ∧
        lastStation.Writes station (lastContext.openRuns.reverse.map fun runUid =>
          .stop ⟨runUid, closingStatus error, some error.message⟩) []

def Accounted (own : Prop) (origin : Station) (steps : List PlanStep)
    (operations : List Operation) (execution : Execution) : Prop :=
  Accounts own origin steps operations execution.context execution.station execution.standing

variable {own : Prop} {origin station : Station} {steps : List PlanStep} {operations : List Operation}
  {context : PlanContext} {execution : Execution}

theorem Accounted.of_standsAt {standing : ExecutionStanding}
    (stands : execution.StandsAt context station standing)
    (accounts : Accounts own origin steps operations context station standing) :
    Accounted own origin steps operations execution := by
  rw [Accounted, stands.context, stands.station, stands.standing]
  exact accounts

theorem Accounted.weaken {less : Prop} (accounted : Accounted own origin steps operations execution)
    (implies : less → own) : Accounted less origin steps operations execution := by
  unfold Accounted Accounts at accounted ⊢
  split
  · rename_i stands
    rw [stands] at accounted
    exact accounted
  · rename_i stands
    rw [stands] at accounted
    obtain ⟨reaches, followed, all⟩ := accounted
    exact ⟨reaches, followed, all ∘ implies⟩
  · rename_i stands
    rw [stands] at accounted
    exact accounted

theorem fail_accounted (reaches : Reaches origin operations context station)
    (followed : Operation.calls operations <+: PlanStep.calls steps) (now : Span)
    (error : PlanError) : Accounted own origin steps operations (fail context station now error) :=
  ⟨context, station, reaches, followed, rfl, writes_fail context station now error⟩

theorem conclude_accounted (reaches : Reaches origin operations context station)
    (followed : Operation.calls operations <+: PlanStep.calls steps) (now : Span)
    {result : Except PlanError Unit}
    (all : own → result = .ok () → Operation.calls operations = PlanStep.calls steps) :
    Accounted own origin steps operations (conclude context station now result) := by
  cases result with
  | ok value =>
      obtain ⟨resets, writes⟩ := reaches.writes
      have after := writes.trans (writes_succeed context station now)
      rw [List.append_nil] at after
      exact ⟨⟨reaches.chained, reaches.openRuns, _, after⟩, followed, fun isOwn => all isOwn rfl⟩
  | error error => exact fail_accounted reaches followed now error

theorem proceed_accounted {course : Course} (reaches : Reaches origin operations context station)
    (follows : Course.Follows steps operations (.open course)) (interval tick now : Span) :
    ∃ more, Accounted own origin steps (operations ++ more)
      (proceed interval course tick context station now) := by
  obtain ⟨wellFormed, before⟩ := follows
  obtain ⟨more, resets, leads, further⟩ :=
    Course.advance_leads wellFormed reaches.named station now false
  have extended := reaches.extend leads
  have joined : Operation.calls (operations ++ more) =
      Operation.calls operations ++ Operation.calls more := by
    rw [Operation.calls, List.map_append, List.filter_append]
    rfl
  refine ⟨more, ?_⟩
  rcases proceed_cases context station now interval course tick with
    ⟨result, ended, stands⟩ | ⟨later, opened, interrupted⟩
  · rw [ended] at further
    have followed : Operation.calls (operations ++ more) <+: PlanStep.calls steps := by
      rw [joined, before]
      exact (List.prefix_append_right_inj _).mpr further.followed
    refine .of_standsAt stands (conclude_accounted extended followed now fun _ isOk => ?_)
    have same : Operation.calls more = PlanStep.calls course.remaining := by
      rw [isOk] at further
      exact further
    rw [joined, before, same]
  · rw [opened] at further
    have after : PlanStep.calls steps =
        Operation.calls (operations ++ more) ++ PlanStep.calls later.remaining := by
      rw [joined, before, further.2, List.append_assoc]
    rcases interrupted with ⟨error, _, stands⟩ | ⟨_, stands⟩
    · have followed : Operation.calls (operations ++ more) <+: PlanStep.calls steps :=
        ⟨_, after.symm⟩
      exact .of_standsAt stands (fail_accounted extended followed now error)
    · exact .of_standsAt stands ⟨extended, further.1, after⟩

theorem start_accounted (interval : Span) (plan : Plan) (cancelled : Bool) (station : Station)
    (armed : Span) :
    ∃ operations, Accounted own station plan.steps operations
      (start interval plan cancelled station armed) := by
  have writes : station.Writes (begun station plan armed) [] [] :=
    (Station.writes_publish (station.armWatchdog armed) armed _).of_same rfl rfl
  have reaches : Reaches station [] ⟨plan.name, [], cancelled⟩ (begun station plan armed) :=
    ⟨trivial, rfl, [], writes⟩
  have follows : Course.Follows plan.steps [] (.open (.ready plan.steps)) := ⟨trivial, rfl⟩
  rcases start_cases station armed interval plan cancelled with ⟨_, stands⟩ | ⟨_, stands⟩
  · exact ⟨[], .of_standsAt stands (fail_accounted reaches List.nil_prefix armed _)⟩
  · obtain ⟨operations, accounted⟩ := proceed_accounted reaches follows interval armed armed
    exact ⟨operations, .of_standsAt stands accounted⟩

/-- Whatever happens to a plan only adds to its operations. -/
theorem happen_accounted (accounted : Accounted own origin steps operations execution)
    (interval now : Span) (happening : Happening) :
    ∃ more, Accounted (own ∧ happening.IsOwn) origin steps (operations ++ more)
      (execution.happen interval now happening) := by
  obtain ⟨context, station, effects, standing⟩ := execution
  cases standing with
  | ended result =>
      refine ⟨[], ?_⟩
      rw [List.append_nil]
      exact accounted.weaken And.left
  | running course tick =>
      obtain ⟨reaches, follows⟩ := accounted
      obtain ⟨resets, writes⟩ := reaches.writes
      have followed : Operation.calls operations <+: PlanStep.calls steps :=
        ⟨_, follows.2.symm⟩
      have silent : ∀ {now : Prop} {execution : Execution},
          Accounted now origin steps operations execution →
            ∃ more, Accounted now origin steps (operations ++ more) execution := by
        intro now execution same
        refine ⟨[], ?_⟩
        rw [List.append_nil]
        exact same
      cases happening with
      | turn => exact proceed_accounted reaches follows interval tick now
      | check =>
          apply silent
          simp only [happen]
          split
          · exact fail_accounted reaches followed now _
          · exact ⟨reaches, follows⟩
      | finish result =>
          exact silent (conclude_accounted reaches followed now fun isOwn => absurd isOwn.2 id)
      | cancel =>
          apply silent
          exact ⟨⟨reaches.chained, reaches.openRuns, reaches.writes⟩, follows⟩
      | reset =>
          apply silent
          exact ⟨⟨reaches.chained, reaches.openRuns, resets, writes.of_same rfl rfl⟩, follows⟩
      | others changed =>
          apply silent
          exact ⟨⟨reaches.chained, reaches.openRuns, resets, writes.of_same rfl rfl⟩, follows⟩

theorem play_accounted (accounted : Accounted own origin steps operations execution)
    (interval : Span) (history : History) :
    ∃ more, Accounted (own ∧ ∀ entry ∈ history, entry.2.IsOwn) origin steps (operations ++ more)
      (execution.play interval history) := by
  induction history generalizing own operations execution with
  | nil =>
      refine ⟨[], ?_⟩
      rw [List.append_nil]
      exact accounted.weaken And.left
  | cons entry later inductionHypothesis =>
      obtain ⟨first, after⟩ := happen_accounted accounted interval entry.1 entry.2
      obtain ⟨rest, final⟩ := inductionHypothesis after
      refine ⟨first ++ rest, ?_⟩
      rw [← List.append_assoc]
      exact final.weaken fun ⟨isOwn, each⟩ => ⟨⟨isOwn, each entry List.mem_cons_self⟩,
        fun other member => each other (List.mem_cons_of_mem entry member)⟩

theorem closingStatus_eq (error : PlanError) :
    closingStatus error = match error with
      | .watchdogExpired _ | .aborted _ => .abort
      | .failed _ | .dispatch _ | .document _ => .failure := by
  cases error <;> rfl

/-- The documents of a plan are those of its operations, which are the calls of its steps in order:
all but those of the steps that remain while it runs, and all once its steps came to their own end.
The documents are nested and carry all their identifiers, and after each operation those runs are
open that the documents so far leave open. A plan that fails, for whatever reason, is followed by the
stops of the runs that are still open, innermost first, so that every run that was opened is closed as
often. -/
theorem documents_of_plan (interval : Span) (plan : Plan) (cancelled : Bool) (station : Station)
    (armed : Span) (history : History) :
    let finish := (start interval plan cancelled station armed).play interval history
    let documents := station.handedUntil finish.station
    ∃ operations, Chained [] operations ∧
      Operation.calls operations <+: PlanStep.calls plan.steps ∧
      (match finish.standing with
        | .running course _ => PlanStep.calls plan.steps =
            Operation.calls operations ++ PlanStep.calls course.remaining
        | .ended result => (∀ entry ∈ history, entry.2.IsOwn) → result = .ok () →
            Operation.calls operations = PlanStep.calls plan.steps) ∧
      (∀ count, openAfter [] (operations.take count) =
        (handed (operations.take count)).foldl Document.track []) ∧
      Document.Nested [] documents ∧
      match finish.standing with
      | .running _ _ | .ended (.ok ()) =>
          documents = handed operations ∧ finish.context.openRuns = openAfter [] operations
      | .ended (.error error) =>
          let exitStatus : ExitStatus := match error with
            | .watchdogExpired _ | .aborted _ => .abort
            | .failed _ | .dispatch _ | .document _ => .failure
          documents = handed operations ++ ((openAfter [] operations).reverse.map fun runUid =>
              .stop ⟨runUid, exitStatus, some error.message⟩) ∧
            finish.context.openRuns = [] ∧
            (Document.started documents).Perm (Document.stopped documents) := by
  intro finish documents
  have begins : ∃ operations, Accounted True station plan.steps operations
      (start interval plan cancelled station armed) :=
    start_accounted interval plan cancelled station armed
  obtain ⟨first, begun⟩ := begins
  obtain ⟨more, accounted⟩ := play_accounted begun interval history
  refine ⟨first ++ more, ?_⟩
  change Accounts (True ∧ ∀ entry ∈ history, entry.2.IsOwn) station plan.steps (first ++ more)
    finish.context finish.station finish.standing at accounted
  cases stands : finish.standing with
  | running course tick =>
      rw [stands] at accounted
      obtain ⟨reaches, follows⟩ := accounted
      have same : documents = handed (first ++ more) := reaches.handedUntil_eq
      refine ⟨reaches.chained, ⟨_, follows.2.symm⟩, follows.2, reaches.openAfter_take, ?_, same,
        reaches.openRuns⟩
      rw [same]
      exact reaches.account.1
  | ended result =>
      rw [stands] at accounted
      cases result with
      | ok value =>
          obtain ⟨reaches, followed, all⟩ := accounted
          have same : documents = handed (first ++ more) := reaches.handedUntil_eq
          refine ⟨reaches.chained, followed, fun isOwn _ => all ⟨trivial, isOwn⟩,
            reaches.openAfter_take, ?_, same, reaches.openRuns⟩
          rw [same]
          exact reaches.account.1
      | error error =>
          obtain ⟨context, last, reaches, followed, noRuns, closings⟩ := accounted
          rw [closingStatus_eq] at closings
          obtain ⟨same, nested, balanced⟩ := reaches.closed closings
          exact ⟨reaches.chained, followed, fun _ => nofun, reaches.openAfter_take, nested, same, noRuns,
            balanced⟩

end PlanSupervision.Execution
