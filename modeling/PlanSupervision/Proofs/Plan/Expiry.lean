import PlanSupervision.Proofs.Plan.Happening

/-!
The expiry of the watchdog while a plan is executed. The watchdog remembers the last reset
alone; it is looked at by every turn that comes at a tick, and it is expired when the last
reset, or the arming if there was none, is more than a window ago.
-/

namespace PlanSupervision

namespace PlanContext

theorem Handover.check_ne_expired (handover : Handover) (window : Span) :
    handover.check ≠ .error (.watchdogExpired window) := by
  unfold check
  split <;> simp

theorem submit_ne_expired {Value : Type} (context : PlanContext) (station : Station) (now : Span)
    (handover : Except PlanError Handover) (value : Value) (window : Span)
    (refused : handover ≠ .error (.watchdogExpired window)) :
    (context.submit station now handover value).result ≠ .error (.watchdogExpired window) := by
  cases handover with
  | error error =>
      intro same
      obtain rfl : error = .watchdogExpired window := Except.error.inj same
      exact refused rfl
  | ok accepted =>
      simp only [submit]
      split <;> simp

theorem act_ne_expired (context : PlanContext) (station : Station) (now : Span)
    (action : PlanAction) (window : Span) :
    (context.act station now action).result ≠ .error (.watchdogExpired window) := by
  cases action with
  | openRun run =>
      exact submit_ne_expired _ _ _ _ _ _ (Handover.check_ne_expired _ window)
  | generateRun activateCallbacks =>
      exact submit_ne_expired _ _ _ _ _ _ (Handover.check_ne_expired _ window)
  | event descriptorUid data =>
      exact submit_ne_expired _ _ _ _ _ _ (Handover.check_ne_expired _ window)
  | descriptor runUid name =>
      apply submit_ne_expired
      unfold describe
      split <;> simp
  | closeRun runUid status =>
      apply submit_ne_expired
      unfold closeRun
      split <;> simp
  | sleep duration =>
      simp only [act]
      split <;> simp
  | reset | wait | checkpoint | view | fail | abort | branch => simp [act]

end PlanContext

namespace Course

theorem run_ne_expired (context : PlanContext) (station : Station) (now : Span)
    (branched : Bool) (steps : List PlanStep) (window : Span) :
    (run now branched context station steps).standing ≠
      .ended (.error (.watchdogExpired window)) := by
  induction steps generalizing context station with
  | nil => simp [run]
  | cons step rest inductionHypothesis =>
      cases pauses : pause? context now step.1 with
      | some pause => simp [run, pauses]
      | none =>
          rcases run_cons station branched rest pauses with
            ⟨effects, error, failed, ends⟩ | ⟨effects, goes⟩
          · rw [ends]
            intro same
            obtain rfl : error = .watchdogExpired window :=
              Except.error.inj (Standing.ended.inj same)
            exact context.act_ne_expired station now step.1 window failed
          · rw [goes]
            exact inductionHypothesis _ _

theorem advance_ne_expired (course : Course) (now : Span) (branched : Bool)
    (context : PlanContext) (station : Station) (window : Span) :
    (course.advance now branched context station).standing ≠
      .ended (.error (.watchdogExpired window)) := by
  cases course with
  | ready steps => exact run_ne_expired context station now branched steps window
  | paused pause step rest =>
      cases resumes : resume? context now pause with
      | none => simp [advance, resumes]
      | some result =>
          have harmless : result ≠ .error (.watchdogExpired window) := by
            intro same
            subst same
            unfold resume? at resumes
            split at resumes <;> split at resumes <;> simp_all
          simp only [advance, resumes]
          split
          · intro same
            have failed := Except.error.inj (Standing.ended.inj same)
            exact harmless (congrArg Except.error failed)
          · exact run_ne_expired _ _ _ _ _ _

end Course

namespace Watchdog

def lastReset (armed : Span) (resets : List Span) : Span := resets.getLast?.getD armed

theorem lastReset_append (armed : Span) (resets : List Span) {now : Span} {more : List Span}
    (instants : ∀ reset ∈ more, reset = now) :
    lastReset armed (resets ++ more) = lastReset armed resets ∨
      lastReset armed (resets ++ more) = now := by
  cases last : more.getLast? with
  | none =>
      have nothing : more = [] := List.getLast?_eq_none_iff.mp last
      rw [nothing, List.append_nil]
      exact Or.inl rfl
  | some reset =>
      have same := instants reset (List.mem_of_getLast? last)
      refine Or.inr ?_
      simp [lastReset, last, same]

/-- A watchdog that was armed at an instant, with these resets since it was disarmed. -/
structure Remembers (window armed : Span) (resets : List Span) (watchdog : Watchdog) : Prop where
  sameWindow : watchdog.window = window
  armedAt : watchdog.armedAt = some armed
  deadline : watchdog.deadline = resets.getLast?.map (· + window)

variable {window armed now : Span} {resets : List Span} {watchdog : Watchdog}

theorem Remembers.foldl_reset (remembers : watchdog.Remembers window armed resets)
    (more : List Span) :
    (more.foldl Watchdog.reset watchdog).Remembers window armed (resets ++ more) := by
  induction more generalizing resets watchdog with
  | nil =>
      rw [List.append_nil]
      exact remembers
  | cons instant later inductionHypothesis =>
      have after : (watchdog.reset instant).Remembers window armed (resets ++ [instant]) := by
        refine ⟨remembers.sameWindow, remembers.armedAt, ?_⟩
        simp [reset, remembers.sameWindow]
      have all := inductionHypothesis after
      rw [List.append_assoc] at all
      exact all

theorem remembers_arm (window armed : Span) (kept : List Span) :
    ((kept.foldl Watchdog.reset (.ofWindow window)).arm armed).Remembers window armed kept := by
  have same : (kept.foldl Watchdog.reset (.ofWindow window)).arm armed =
      kept.foldl Watchdog.reset ((ofWindow window).arm armed) := by
    generalize ofWindow window = watchdog
    induction kept generalizing watchdog with
    | nil => rfl
    | cons instant later inductionHypothesis => exact inductionHypothesis (watchdog.reset instant)
  have fresh : ((ofWindow window).arm armed).Remembers window armed [] := ⟨rfl, rfl, rfl⟩
  rw [same]
  exact fresh.foldl_reset kept

theorem Remembers.expired_iff (remembers : watchdog.Remembers window armed resets) :
    watchdog.status now = .expired ↔ lastReset armed resets + window < now := by
  unfold status
  rw [remembers.armedAt, remembers.deadline, remembers.sameWindow, lastReset]
  cases resets.getLast? with
  | none =>
      simp only [Option.map_none, Option.getD_none]
      split
      · simp only [reduceCtorEq, false_iff]
        lia
      · simp only [true_iff]
        lia
  | some last =>
      simp only [Option.map_some, Option.getD_some]
      split
      · simp only [reduceCtorEq, false_iff]
        lia
      · simp only [true_iff]
        lia

end Watchdog

namespace Execution

open PlanContext Watchdog

def Happening.looks : Happening → Bool
  | turn | check => true
  | finish _ | cancel | reset | others _ => false

/-- The resets of a happening: a sign of life, or the steps of the plan that reset. -/
def resetsOf (interval : Span) (execution : Execution) (now : Span) : Happening → List Span
  | .reset => [now]
  | happening =>
      execution.station.resetsUntil (execution.happen interval now happening).station

/-- A plan that runs under a watchdog with these resets so far. -/
structure Watched (window armed : Span) (resets : List Span) (course : Course)
    (context : PlanContext) (station : Station) : Prop where
  wellFormed : course.WellFormed
  named : Named context.openRuns
  remembers : station.watchdog.Remembers window armed resets

/-- With this happening the plan neither comes to its end nor is cancelled. -/
structure Continues (execution : Execution) (now : Span) (happening : Happening) : Prop where
  stays : happening = .turn → ∀ course tick, execution.standing = .running course tick →
    ∃ later,
      (course.advance now false execution.context execution.station).standing = .open later
  unfinished : ∀ result, happening ≠ .finish result
  uncancelled : happening ≠ .cancel

/-- What a happening can do to a plan that runs, given the resets before it and its own. -/
inductive Happened (interval window armed : Span) (resets more : List Span) (tick now : Span)
    (happening : Happening) (before after : Execution) : Prop where
  | goesOn (course : Course)
      (standing : after.standing =
        .running course (if happening.looks then tickAfter interval now tick else tick))
      (watched : Watched window armed (resets ++ more) course after.context after.station)
      (inTime : happening.looks = true →
        now < tick ∨ now ≤ lastReset armed (resets ++ more) + window)
      (instants : ∀ reset ∈ more, reset = now)
      (uncancelled : happening ≠ .cancel → after.context.cancelled = before.context.cancelled)
  /-- The watchdog is found expired at a tick. -/
  | expires (looks : happening.looks = true) (due : tick ≤ now)
      (overdue : lastReset armed (resets ++ more) + window < now)
      (instants : ∀ reset ∈ more, reset = now)
      (standing : after.standing = .ended (.error (.watchdogExpired window)))
  | ends (result : Except PlanError Unit) (standing : after.standing = .ended result)
      (own : happening = .finish result ∨ ∀ window, result ≠ .error (.watchdogExpired window))
      (cause : ¬ Continues before now happening ∨ before.context.cancelled = true)

variable {interval window armed tick now : Span} {resets more : List Span} {course : Course}
  {context : PlanContext} {station : Station} {before : Execution}

theorem tickAfter_self (interval tick : Span) : tickAfter interval tick tick = tick + interval := by
  simp [tickAfter, tickTolerance]

theorem Happened.watched {happening : Happening} {after : Execution} {later : Course}
    {laterTick : Span}
    (happened : Happened interval window armed resets more tick now happening before after)
    (running : after.standing = .running later laterTick) :
    Watched window armed (resets ++ more) later after.context after.station := by
  cases happened with
  | goesOn other standing watched inTime instants uncancelled =>
      rw [standing] at running
      cases running
      exact watched
  | expires looks due overdue instants standing =>
      rw [standing] at running
      cases running
  | ends result standing own cause =>
      rw [standing] at running
      cases running

theorem hasExpired_iff (remembers : station.watchdog.Remembers window armed resets) :
    station.hasExpired now = true ↔ lastReset armed resets + window < now := by
  rw [← remembers.expired_iff, Station.hasExpired, decide_eq_true_iff]

/-- What ends a plan from outside is an expiry at a tick, or else a cancellation. -/
theorem interruption?_cases (now : Span) (context : PlanContext) (tick : Span)
    (remembers : station.watchdog.Remembers window armed resets) :
    (tick ≤ now ∧ lastReset armed resets + window < now ∧
      interruption? context station now tick = some (.watchdogExpired window)) ∨
    (now < tick ∨ now ≤ lastReset armed resets + window) ∧
      ((context.cancelled = true ∧
          interruption? context station now tick = some (.aborted "shutdown requested")) ∨
        interruption? context station now tick = none) := by
  have expired : station.hasExpired now = true ↔ lastReset armed resets + window < now :=
    hasExpired_iff remembers
  by_cases overdue : lastReset armed resets + window < now
  · by_cases due : tick ≤ now
    · refine Or.inl ⟨due, overdue, ?_⟩
      simp [interruption?, due, expired.mpr overdue, remembers.sameWindow]
    · refine Or.inr ⟨Or.inl (Nat.lt_of_not_le due), ?_⟩
      cases cancelled : context.cancelled with
      | true => exact Or.inl ⟨rfl, by simp [interruption?, due, cancelled]⟩
      | false => exact Or.inr (by simp [interruption?, due, cancelled])
  · have alive : station.hasExpired now = false := by
      cases found : station.hasExpired now with
      | false => rfl
      | true => exact absurd (expired.mp found) overdue
    refine Or.inr ⟨Or.inr (Nat.le_of_not_lt overdue), ?_⟩
    cases cancelled : context.cancelled with
    | true => exact Or.inl ⟨rfl, by simp [interruption?, alive, cancelled]⟩
    | false => exact Or.inr (by simp [interruption?, alive, cancelled])

theorem Happened.of_look {happening : Happening} {after : Execution}
    (looks : happening.looks = true)
    (watched : Watched window armed (resets ++ more) course context station)
    (instants : ∀ reset ∈ more, reset = now)
    (uncancelled : context.cancelled = before.context.cancelled)
    (stands : (∃ error, interruption? context station now tick = some error ∧
        after.StandsAs (fail context station now error)) ∨
      interruption? context station now tick = none ∧
        after.StandsAt context station (.running course (tickAfter interval now tick))) :
    Happened interval window armed resets more tick now happening before after := by
  rcases interruption?_cases now context tick watched.remembers with
    ⟨due, overdue, expired⟩ | ⟨inTime, aborts⟩
  · rcases stands with ⟨error, found, ended⟩ | ⟨found, _⟩
    · rw [expired] at found
      obtain rfl := Option.some.inj found
      exact .expires looks due overdue instants ended.standing
    · rw [expired] at found
      cases found
  · rcases stands with ⟨error, found, ended⟩ | ⟨found, goes⟩
    · rcases aborts with ⟨cancelled, aborted⟩ | none
      · rw [aborted] at found
        obtain rfl := Option.some.inj found
        have aborts : ∀ window, (.error (.aborted "shutdown requested") : Except PlanError Unit) ≠
            .error (.watchdogExpired window) := by
          simp
        rw [uncancelled] at cancelled
        exact .ends _ ended.standing (Or.inr aborts) (Or.inr cancelled)
      · rw [none] at found
        cases found
    · have standing := goes.standing
      rw [← goes.context, ← goes.station] at watched
      rw [← goes.context] at uncancelled
      refine .goesOn course ?_ watched (fun _ => inTime) instants (fun _ => uncancelled)
      rw [looks]
      exact standing

theorem turn_happened (running : before.standing = .running course tick)
    (watched : Watched window armed resets course before.context before.station) :
    Happened interval window armed resets (resetsOf interval before now .turn) tick now .turn
      before (before.happen interval now .turn) := by
  have turn : before.happen interval now .turn =
      proceed interval course tick before.context before.station now := by
    simp only [happen, running]
  change Happened interval window armed resets (before.station.resetsUntil
    (before.happen interval now .turn).station) tick now .turn before _
  obtain ⟨operations, more, leads, follows⟩ :=
    Course.advance_leads watched.wellFormed watched.named before.station now false
  have remembers := watched.remembers.foldl_reset more
  rw [← leads.watchdog] at remembers
  rw [turn]
  rcases proceed_cases before.context before.station now interval course tick with
    ⟨result, ended, stands⟩ | ⟨later, opened, interrupted⟩
  · refine .ends result ?_ (Or.inr ?_) (Or.inl ?_)
    · rw [stands.standing]
      cases result <;> rfl
    · rintro other rfl
      exact course.advance_ne_expired now false before.context before.station other ended
    · intro continues
      obtain ⟨later, opened⟩ := continues.stays rfl course tick running
      rw [ended] at opened
      cases opened
  · rw [opened] at follows
    have resetting : before.station.resetsUntil
        (proceed interval course tick before.context before.station now).station = more := by
      rcases interrupted with ⟨error, _, stands⟩ | ⟨_, stands⟩
      · have writes := leads.writes.trans (writes_fail
          (course.advance now false before.context before.station).context _ now error)
        rw [List.append_nil, ← stands.station] at writes
        exact writes.resetsUntil_eq
      · have writes := leads.writes
        rw [← stands.station] at writes
        exact writes.resetsUntil_eq
    rw [resetting]
    have laterWatched : Watched window armed (resets ++ more) later
        (course.advance now false before.context before.station).context
        (course.advance now false before.context before.station).station :=
      ⟨follows.1, leads.named watched.named, remembers⟩
    exact .of_look rfl laterWatched leads.instants leads.cancelled interrupted

theorem check_happened (running : before.standing = .running course tick)
    (watched : Watched window armed resets course before.context before.station) :
    Happened interval window armed resets (resetsOf interval before now .check) tick now .check
      before (before.happen interval now .check) := by
  have kept : Watched window armed (resets ++ []) course before.context before.station := by
    rw [List.append_nil]
    exact watched
  change Happened interval window armed resets (before.station.resetsUntil
    (before.happen interval now .check).station) tick now .check before _
  cases found : interruption? before.context before.station now tick with
  | some error =>
      have check : before.happen interval now .check =
          fail before.context before.station now error := by
        simp only [happen, running, found]
      have writes := writes_fail before.context before.station now error
      rw [check, writes.resetsUntil_eq]
      exact .of_look rfl kept (fun _ member => nomatch member) rfl
        (Or.inl ⟨error, found, ⟨rfl, rfl, rfl⟩⟩)
  | none =>
      have check : before.happen interval now .check =
          { before with standing := .running course (tickAfter interval now tick) } := by
        simp only [happen, running, found]
      have writes : before.station.Writes before.station [] [] := .of_journal_eq rfl
      rw [check, writes.resetsUntil_eq]
      exact .of_look rfl kept (fun _ member => nomatch member) rfl
        (Or.inr ⟨found, ⟨rfl, rfl, rfl⟩⟩)

/-- What a happening can do to a plan that runs. -/
theorem happened (interval now : Span) (running : before.standing = .running course tick)
    (watched : Watched window armed resets course before.context before.station)
    (happening : Happening) :
    Happened interval window armed resets (resetsOf interval before now happening) tick now
      happening before (before.happen interval now happening) := by
  have silent : ∀ after : Station, after.journal = before.station.journal →
      before.station.resetsUntil after = [] := by
    intro after same
    have writes : before.station.Writes after [] [] := .of_journal_eq same
    exact writes.resetsUntil_eq
  have remembers : before.station.watchdog.Remembers window armed (resets ++ []) := by
    rw [List.append_nil]
    exact watched.remembers
  cases happening with
  | turn => exact turn_happened running watched
  | check => exact check_happened running watched
  | finish result =>
      have finish : before.happen interval now (.finish result) =
          conclude before.context before.station now result := by
        simp only [happen, running]
      rw [finish]
      refine .ends result ?_ (Or.inl rfl) (Or.inl fun continues => continues.unfinished result rfl)
      cases result <;> rfl
  | cancel =>
      have cancel : before.happen interval now .cancel =
          { before with context := { before.context with cancelled := true } } := by
        simp only [happen, running]
      change Happened interval window armed resets (before.station.resetsUntil
        (before.happen interval now .cancel).station) tick now .cancel before _
      rw [cancel, silent _ rfl]
      exact .goesOn course running ⟨watched.wellFormed, watched.named, remembers⟩
        (fun looks => nomatch looks) (fun _ member => nomatch member) (by simp)
  | reset =>
      have reset : before.happen interval now .reset =
          { before with station := before.station.resetWatchdog now } := by
        simp only [happen, running]
      rw [reset]
      have later := watched.remembers.foldl_reset [now]
      exact .goesOn course running ⟨watched.wellFormed, watched.named, later⟩
        (fun looks => nomatch looks) (fun _ member => List.mem_singleton.mp member)
        (fun _ => rfl)
  | others changed =>
      have others : before.happen interval now (.others changed) =
          { before with station := { changed with
              watchdog := before.station.watchdog
              journal := before.station.journal } } := by
        simp only [happen, running]
      change Happened interval window armed resets (before.station.resetsUntil
        (before.happen interval now (.others changed)).station) tick now _ before _
      rw [others, silent { changed with
        watchdog := before.station.watchdog
        journal := before.station.journal } rfl]
      exact .goesOn course running ⟨watched.wellFormed, watched.named, remembers⟩
        (fun looks => nomatch looks) (fun _ member => nomatch member) (fun _ => rfl)

end Execution

end PlanSupervision
