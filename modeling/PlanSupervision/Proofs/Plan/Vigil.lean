import Mathlib.Data.List.Chain
import Mathlib.Data.List.Induction
import PlanSupervision.Proofs.Plan.Expiry

/-!
A plan under the watchdog from its beginning to its end. The ticks come at whole multiples
of the interval after the arming; as long as none is missed, the first of them at which the
last reset lies more than a window back ends the plan, and nothing else expires it.
-/

namespace PlanSupervision

/-- A plan that is put under a watchdog, with the resets since it was disarmed. -/
structure Vigil where
  interval : Span
  window : Span
  plan : Plan
  station : Station
  kept : List Span
  armed : Span
  guarded : station.watchdog = kept.foldl Watchdog.reset (.ofWindow window)

namespace Vigil

open Execution Watchdog

variable (vigil : Vigil)

def start : Execution :=
  Execution.start vigil.interval vigil.plan false vigil.station vigil.armed

def after (history : History) : Execution := vigil.start.play vigil.interval history

/-- The last kept reset lies more than a window before the arming. -/
def Stale : Prop := ∃ reset ∈ vigil.kept.getLast?, reset + vigil.window < vigil.armed

def ready : Station := begun vigil.station vigil.plan vigil.armed

def resetsIn (execution : Execution) : History → List Span
  | [] => []
  | (now, happening) :: later =>
      resetsOf vigil.interval execution now happening ++
        resetsIn (execution.happen vigil.interval now happening) later

/-- The resets since the arming: those of the first turn, and those of a history after it. -/
def resets (history : History) : List Span :=
  vigil.ready.resetsUntil vigil.start.station ++ vigil.resetsIn vigil.start history

def last (history : History) : Span :=
  lastReset vigil.armed (vigil.kept ++ vigil.resets history)

theorem after_concat (history : History) (now : Span) (happening : Happening) :
    vigil.after (history ++ [(now, happening)]) =
      (vigil.after history).happen vigil.interval now happening :=
  List.foldl_append

theorem resetsIn_concat (execution : Execution) (history : History) (now : Span)
    (happening : Happening) :
    vigil.resetsIn execution (history ++ [(now, happening)]) =
      vigil.resetsIn execution history ++
        resetsOf vigil.interval (execution.play vigil.interval history) now happening := by
  induction history generalizing execution with
  | nil => simp [resetsIn, play]
  | cons entry rest inductionHypothesis =>
      obtain ⟨instant, first⟩ := entry
      rw [List.cons_append, resetsIn, inductionHypothesis, resetsIn, List.append_assoc]
      rfl

theorem resets_concat (history : History) (now : Span) (happening : Happening) :
    vigil.resets (history ++ [(now, happening)]) = vigil.resets history ++
      resetsOf vigil.interval (vigil.after history) now happening := by
  rw [resets, resetsIn_concat, resets, List.append_assoc]
  rfl

/-- The plan at its arming, as if it had been running before its first turn. -/
def opening : Execution :=
  ⟨⟨vigil.plan.name, [], false⟩, vigil.ready, [], .running (.ready vigil.plan.steps) vigil.armed⟩

theorem watched_opening :
    Watched vigil.window vigil.armed vigil.kept (.ready vigil.plan.steps)
      vigil.opening.context vigil.opening.station := by
  have remembers := remembers_arm vigil.window vigil.armed vigil.kept
  rw [← vigil.guarded] at remembers
  exact ⟨trivial, (fun _ member => nomatch member), remembers⟩

theorem stale_iff :
    vigil.Stale ↔ lastReset vigil.armed vigil.kept + vigil.window < vigil.armed := by
  rw [Stale, lastReset]
  cases vigil.kept.getLast? with
  | none => simp
  | some last => simp

theorem stale_iff_hasExpired : vigil.Stale ↔ vigil.ready.hasExpired vigil.armed = true := by
  rw [stale_iff]
  exact (hasExpired_iff vigil.watched_opening.remembers).symm

theorem happened_of_standsAs {resets more : List Span} {tick now : Span}
    {happening : Happening} {before first second : Execution}
    (happened : Happened vigil.interval vigil.window vigil.armed resets more tick now happening
      before first) (stands : second.StandsAs first) :
    Happened vigil.interval vigil.window vigil.armed resets more tick now happening before
      second := by
  obtain ⟨context, station, standing⟩ := stands
  cases happened with
  | goesOn course running watched inTime instants uncancelled =>
      rw [← standing] at running
      rw [← context, ← station] at watched
      rw [← context] at uncancelled
      exact .goesOn course running watched inTime instants uncancelled
  | expires looks due overdue instants expired =>
      rw [← standing] at expired
      exact .expires looks due overdue instants expired
  | ends result ended own cause =>
      rw [← standing] at ended
      exact .ends result ended own cause

theorem start_happened (fresh : ¬ vigil.Stale) :
    Happened vigil.interval vigil.window vigil.armed vigil.kept
      (vigil.ready.resetsUntil vigil.start.station) vigil.armed vigil.armed .turn vigil.opening
      vigil.start := by
  have alive : ¬ vigil.ready.hasExpired vigil.armed = true := fun expired =>
    fresh (vigil.stale_iff_hasExpired.mpr expired)
  have running : vigil.opening.standing = .running (.ready vigil.plan.steps) vigil.armed := rfl
  have turned := happened vigil.interval vigil.armed running vigil.watched_opening .turn
  rcases start_cases vigil.station vigil.armed vigil.interval vigil.plan false with
    ⟨expired, _⟩ | ⟨_, stands⟩
  · exact absurd expired alive
  · have sameTurn : vigil.start.StandsAs
        (vigil.opening.happen vigil.interval vigil.armed .turn) := stands
    have resetting : resetsOf vigil.interval vigil.opening vigil.armed .turn =
        vigil.ready.resetsUntil vigil.start.station := by
      change vigil.ready.resetsUntil
        (vigil.opening.happen vigil.interval vigil.armed .turn).station = _
      rw [sameTurn.station]
    rw [resetting] at turned
    exact vigil.happened_of_standsAs turned sameTurn

theorem start_of_stale (stale : vigil.Stale) :
    vigil.start.StandsAs (fail ⟨vigil.plan.name, [], false⟩ vigil.ready vigil.armed
      (.watchdogExpired vigil.window)) := by
  have expired := vigil.stale_iff_hasExpired.mp stale
  have sameWindow : vigil.ready.watchdog.window = vigil.window :=
    vigil.watched_opening.remembers.sameWindow
  rcases start_cases vigil.station vigil.armed vigil.interval vigil.plan false with
    ⟨_, stands⟩ | ⟨alive, _⟩
  · rw [← sameWindow]
    exact stands
  · have alive : vigil.ready.hasExpired vigil.armed = false := alive
    rw [alive] at expired
    cases expired

structure RunsAt (history : History) (course : Course) (tick : Span) : Prop where
  standing : (vigil.after history).standing = .running course tick
  watched : Watched vigil.window vigil.armed (vigil.kept ++ vigil.resets history) course
    (vigil.after history).context (vigil.after history).station

def tick (count : Nat) : Span := vigil.armed + count * vigil.interval

def clock (history : History) : Span := (history.map Prod.fst).getLast?.getD vigil.armed

/-- The watchdog was looked at, at an instant no more than a window after the last reset. -/
def LookedInTime (history : History) (instant : Span) : Prop :=
  ∃ earlier look later, history = earlier ++ (instant, look) :: later ∧
    look.looks = true ∧ instant ≤ vigil.last (earlier ++ [(instant, look)]) + vigil.window

/-- The plan neither ends by itself nor is cancelled, the clock does not go back, and no tick
of a running plan is missed. -/
structure Prompt (history : History) : Prop where
  begins : vigil.opening.Continues vigil.armed .turn
  ordered : (vigil.armed :: history.map Prod.fst).Pairwise (· ≤ ·)
  punctual : ∀ earlier now happening later, history = earlier ++ (now, happening) :: later →
    ∀ course tick, (vigil.after earlier).standing = .running course tick → now ≤ tick
  continues : ∀ earlier now happening later, history = earlier ++ (now, happening) :: later →
    (vigil.after earlier).Continues now happening

/-- A plan that runs on after so many ticks, each of which was looked at in time. -/
structure Ticking (history : History) (course : Course) (count : Nat) : Prop where
  runs : vigil.RunsAt history course (vigil.tick (count + 1))
  uncancelled : (vigil.after history).context.cancelled = false
  passed : vigil.tick count ≤ vigil.clock history
  inTime : vigil.tick count ≤ vigil.last history + vigil.window
  former : ∀ former < count, vigil.LookedInTime history (vigil.tick (former + 1))

variable {vigil} {history : History} {course : Course} {tick : Span}

theorem resets_nil : vigil.resets [] = vigil.ready.resetsUntil vigil.start.station :=
  List.append_nil _

theorem RunsAt.happened (runs : vigil.RunsAt history course tick) (now : Span)
    (happening : Happening) :
    Happened vigil.interval vigil.window vigil.armed (vigil.kept ++ vigil.resets history)
      (resetsOf vigil.interval (vigil.after history) now happening) tick now happening
      (vigil.after history) (vigil.after (history ++ [(now, happening)])) := by
  rw [after_concat]
  exact Execution.happened vigil.interval now runs.standing runs.watched happening

theorem running_of_concat {now : Span} {happening : Happening}
    (running : (vigil.after (history ++ [(now, happening)])).standing = .running course tick) :
    ∃ earlier last, (vigil.after history).standing = .running earlier last := by
  cases before : (vigil.after history).standing with
  | running earlier last => exact ⟨earlier, last, rfl⟩
  | ended result =>
      rw [after_concat, happen] at running
      simp only [before] at running
      cases running

theorem runsAt_of_running (standing : (vigil.after history).standing = .running course tick) :
    vigil.RunsAt history course tick := by
  induction history using List.reverseRecOn generalizing course tick with
  | nil =>
      have fresh : ¬ vigil.Stale := by
        intro stale
        have ended := (vigil.start_of_stale stale).standing
        have running : vigil.start.standing = .running course tick := standing
        rw [running] at ended
        cases ended
      refine ⟨standing, ?_⟩
      rw [resets_nil]
      exact (vigil.start_happened fresh).watched standing
  | append_singleton history entry inductionHypothesis =>
      obtain ⟨now, happening⟩ := entry
      obtain ⟨earlier, last, before⟩ := running_of_concat standing
      have runs := inductionHypothesis before
      refine ⟨standing, ?_⟩
      rw [resets_concat, ← List.append_assoc]
      exact (runs.happened now happening).watched standing

variable {now instant : Span} {happening : Happening} {count : Nat}

theorem LookedInTime.concat (looked : vigil.LookedInTime history instant)
    (entry : Span × Happening) : vigil.LookedInTime (history ++ [entry]) instant := by
  obtain ⟨earlier, look, later, rfl, looks, inTime⟩ := looked
  refine ⟨earlier, look, later ++ [entry], ?_, looks, inTime⟩
  rw [List.append_assoc, List.cons_append]

theorem tick_succ (count : Nat) : vigil.tick (count + 1) = vigil.tick count + vigil.interval := by
  rw [tick, tick, Nat.succ_mul, Nat.add_assoc]

theorem tick_le {first second : Nat} (le : first ≤ second) :
    vigil.tick first ≤ vigil.tick second :=
  Nat.add_le_add_left (Nat.mul_le_mul_right _ le) _

theorem lt_of_tick_lt {first second : Nat} (lt : vigil.tick first < vigil.tick second) :
    first < second := by
  by_cases le : second ≤ first
  · exact absurd lt (Nat.not_lt.mpr (tick_le le))
  · exact Nat.lt_of_not_le le

theorem clock_concat : vigil.clock (history ++ [(now, happening)]) = now := by
  simp [clock]

theorem last_concat : vigil.last (history ++ [(now, happening)]) =
    lastReset vigil.armed (vigil.kept ++ vigil.resets history ++
      resetsOf vigil.interval (vigil.after history) now happening) := by
  rw [last, resets_concat, List.append_assoc]

namespace Prompt

theorem of_concat (prompt : vigil.Prompt (history ++ [(now, happening)])) :
    vigil.Prompt history := by
  have split : ∀ {earlier instant other later},
      history = earlier ++ (instant, other) :: later →
      history ++ [(now, happening)] =
        earlier ++ (instant, other) :: (later ++ [(now, happening)]) := by
    rintro earlier instant other later rfl
    rw [List.append_assoc, List.cons_append]
  refine ⟨prompt.begins, ?_, ?_, ?_⟩
  · have ordered := prompt.ordered
    rw [List.map_append, ← List.cons_append] at ordered
    exact (List.pairwise_append.mp ordered).1
  · intro earlier instant other later same
    exact prompt.punctual earlier instant other _ (split same)
  · intro earlier instant other later same
    exact prompt.continues earlier instant other _ (split same)

theorem clock_le (prompt : vigil.Prompt (history ++ [(now, happening)])) :
    vigil.clock history ≤ now := by
  have ordered := prompt.ordered
  rw [List.map_append, ← List.cons_append] at ordered
  have before := (List.pairwise_append.mp ordered).2.2
  have member : vigil.clock history ∈ vigil.armed :: history.map Prod.fst := by
    unfold clock
    cases found : (history.map Prod.fst).getLast? with
    | none => exact List.mem_cons_self
    | some instant => exact List.mem_cons_of_mem _ (List.mem_of_getLast? found)
  exact before _ member now (by simp)

end Prompt

/-- One more happening: the plan goes on, or the watchdog is found expired at the next tick. -/
theorem Ticking.step (ticking : vigil.Ticking history course count)
    (prompt : vigil.Prompt (history ++ [(now, happening)])) :
    (∃ later laterCount, vigil.Ticking (history ++ [(now, happening)]) later laterCount ∧
      vigil.tick count ≤ vigil.last (history ++ [(now, happening)]) + vigil.window ∧
      (happening.looks = true → now < vigil.tick (count + 1) ∨
        now ≤ vigil.last (history ++ [(now, happening)]) + vigil.window)) ∨
    happening.looks = true ∧ now = vigil.tick (count + 1) ∧
      vigil.last (history ++ [(now, happening)]) + vigil.window < now ∧
      (vigil.after (history ++ [(now, happening)])).standing =
        .ended (.error (.watchdogExpired vigil.window)) := by
  have forward := prompt.clock_le
  have notBeyond : now ≤ vigil.tick (count + 1) :=
    prompt.punctual history now happening [] rfl course _ ticking.runs.standing
  have continues := prompt.continues history now happening [] rfl
  cases ticking.runs.happened now happening with
  | expires looks due overdue instants standing =>
      rw [← last_concat] at overdue
      exact Or.inr ⟨looks, Nat.le_antisymm notBeyond due, overdue, standing⟩
  | ends result standing own cause =>
      rcases cause with stops | cancelled
      · exact absurd continues stops
      · rw [ticking.uncancelled] at cancelled
        cases cancelled
  | goesOn later standing watched inTime instants uncancelled =>
      rw [← last_concat] at inTime
      have stillUncancelled : (vigil.after (history ++ [(now, happening)])).context.cancelled =
          false := by
        rw [uncancelled continues.uncancelled]
        exact ticking.uncancelled
      -- The last reset is the one from before, or it is a new one at this very instant.
      have lastTick : vigil.tick count ≤
          vigil.last (history ++ [(now, happening)]) + vigil.window := by
        have old := ticking.inTime
        rw [last_concat]
        rcases lastReset_append _ _ instants with same | fresh
        · rw [same]
          exact old
        · rw [fresh]
          exact Nat.le_trans ticking.passed (Nat.le_trans forward (Nat.le_add_right _ _))
      have clockNow : vigil.clock (history ++ [(now, happening)]) = now := clock_concat
      have passed : vigil.tick count ≤ vigil.clock (history ++ [(now, happening)]) := by
        rw [clockNow]
        exact Nat.le_trans ticking.passed forward
      have former : ∀ former < count,
          vigil.LookedInTime (history ++ [(now, happening)]) (vigil.tick (former + 1)) :=
        fun earlier before => (ticking.former earlier before).concat _
      by_cases atTick : happening.looks = true ∧ now = vigil.tick (count + 1)
      · obtain ⟨looks, rfl⟩ := atTick
        have justInTime := (inTime looks).resolve_left (Nat.lt_irrefl _)
        rw [looks, if_pos rfl, tickAfter_self, ← tick_succ] at standing
        refine Or.inl ⟨later, count + 1, ?_, lastTick, fun _ => Or.inr justInTime⟩
        refine ⟨runsAt_of_running standing, stillUncancelled, ?_, justInTime, ?_⟩
        · exact Nat.le_of_eq clockNow.symm
        · intro earlier before
          rcases Nat.lt_or_eq_of_le (Nat.le_of_lt_succ before) with old | rfl
          · exact former earlier old
          · exact ⟨history, happening, [], rfl, looks, justInTime⟩
      · have sameTick : (if happening.looks then
            tickAfter vigil.interval now (vigil.tick (count + 1)) else vigil.tick (count + 1)) =
              vigil.tick (count + 1) := by
          cases looks : happening.looks with
          | false => rfl
          | true =>
              have early : now < vigil.tick (count + 1) :=
                Nat.lt_of_le_of_ne notBeyond fun same => atTick ⟨looks, same⟩
              rw [if_pos rfl, tickAfter, if_pos early]
        rw [sameTick] at standing
        exact Or.inl ⟨later, count, ⟨runsAt_of_running standing, stillUncancelled, passed,
          lastTick, former⟩, lastTick, inTime⟩

theorem not_overdue_at_arming (fresh : ¬ vigil.Stale) {more : List Span}
    (instants : ∀ reset ∈ more, reset = vigil.armed) :
    ¬ lastReset vigil.armed (vigil.kept ++ more) + vigil.window < vigil.armed := by
  rcases lastReset_append vigil.armed vigil.kept instants with same | same
  · rw [same, ← stale_iff]
    exact fresh
  · rw [same]
    exact Nat.not_lt.mpr (Nat.le_add_right _ _)

theorem ticking_start (fresh : ¬ vigil.Stale)
    (begins : vigil.opening.Continues vigil.armed .turn) :
    ∃ course, vigil.Ticking [] course 0 := by
  have sameLast : vigil.last [] = lastReset vigil.armed
      (vigil.kept ++ vigil.ready.resetsUntil vigil.start.station) := by
    rw [last, resets_nil]
  cases vigil.start_happened fresh with
  | expires looks due overdue instants standing =>
      exact absurd overdue (not_overdue_at_arming fresh instants)
  | ends result standing own cause =>
      rcases cause with stops | cancelled
      · exact absurd begins stops
      · cases cancelled
  | goesOn later standing watched inTime instants uncancelled =>
      have justInTime := (inTime rfl).resolve_left (Nat.lt_irrefl _)
      have firstTick : (if Happening.turn.looks then
          tickAfter vigil.interval vigil.armed vigil.armed else vigil.armed) = vigil.tick 1 := by
        rw [tick, Nat.one_mul]
        exact tickAfter_self vigil.interval vigil.armed
      rw [firstTick] at standing
      rw [← sameLast] at justInTime
      have tickZero : vigil.tick 0 = vigil.armed := by
        rw [tick, Nat.zero_mul]
        exact Nat.add_zero _
      refine ⟨later, runsAt_of_running standing, uncancelled (by simp), ?_, ?_, ?_⟩
      · rw [tickZero]
        exact Nat.le_refl _
      · rw [tickZero]
        exact justInTime
      · exact fun _ before => absurd before (Nat.not_lt_zero _)

/-- As long as the plan goes on and no tick is missed, the ticks so far were in time. -/
theorem ticking_of_running (fresh : ¬ vigil.Stale) (prompt : vigil.Prompt history)
    (running : (vigil.after history).standing = .running course tick) :
    ∃ later count, vigil.Ticking history later count := by
  induction history using List.reverseRecOn generalizing course tick with
  | nil =>
      obtain ⟨later, ticking⟩ := ticking_start fresh prompt.begins
      exact ⟨later, 0, ticking⟩
  | append_singleton history entry inductionHypothesis =>
      obtain ⟨now, happening⟩ := entry
      obtain ⟨earlier, last, before⟩ := running_of_concat running
      obtain ⟨between, count, ticking⟩ := inductionHypothesis prompt.of_concat before
      rcases ticking.step prompt with ⟨later, laterCount, goesOn, _⟩ | ⟨_, _, _, ended⟩
      · exact ⟨later, laterCount, goesOn⟩
      · rw [ended] at running
        cases running

variable (vigil) in
/-- The signs of life that count: the last from before the plan, or its arming, and all
resets since. -/
def signs (history : History) : List Span :=
  lastReset vigil.armed vigil.kept :: vigil.resets history

theorem le_of_isChain_signs
    (steady : (vigil.signs history ++ [now]).IsChain fun former later =>
      later ≤ former + vigil.window) : now ≤ vigil.last history + vigil.window := by
  have lastSign : (vigil.signs history).getLast? = some (vigil.last history) := by
    rw [signs, List.getLast?_cons, last, lastReset, lastReset, List.getLast?_append]
    cases (vigil.resets history).getLast? <;> simp
  exact (List.isChain_append.mp steady).2.2 _ lastSign now rfl

/-- A running plan that does not end itself with an expiry is expired only if its last sign of
life is more than a window ago. -/
theorem last_lt_of_expired {window : Span}
    (running : (vigil.after history).standing = .running course tick)
    (own : ∀ window, happening ≠ .finish (.error (.watchdogExpired window)))
    (expired : (vigil.after (history ++ [(now, happening)])).standing =
      .ended (.error (.watchdogExpired window))) :
    vigil.last (history ++ [(now, happening)]) + vigil.window < now := by
  cases (runsAt_of_running running).happened now happening with
  | goesOn later standing watched inTime instants uncancelled =>
      rw [standing] at expired
      cases expired
  | expires looks due overdue instants standing =>
      rw [last_concat]
      exact overdue
  | ends result standing foreign cause =>
      rw [standing] at expired
      cases expired
      rcases foreign with finished | different
      · exact absurd finished (own window)
      · exact absurd rfl (different window)

theorem stale_of_expired {window : Span}
    (expired : vigil.start.standing = .ended (.error (.watchdogExpired window))) :
    vigil.Stale := by
  by_cases fresh : vigil.Stale
  · exact fresh
  · cases vigil.start_happened fresh with
    | goesOn later standing watched inTime instants uncancelled =>
        rw [standing] at expired
        cases expired
    | expires looks due overdue instants standing =>
        exact absurd overdue (not_overdue_at_arming fresh instants)
    | ends result standing foreign cause =>
        rw [standing] at expired
        cases expired
        rcases foreign with finished | different
        · cases finished
        · exact absurd rfl (different window)

theorem last_nil_of_stale (stale : vigil.Stale) :
    vigil.last [] = lastReset vigil.armed vigil.kept := by
  have writes := writes_fail ⟨vigil.plan.name, [], false⟩ vigil.ready vigil.armed
    (.watchdogExpired vigil.window)
  rw [← (vigil.start_of_stale stale).station] at writes
  rw [last, resets_nil, writes.resetsUntil_eq, List.append_nil]

/-- Of a plan that goes on, exactly a look at a tick ends it that finds the last reset or the
arming more than a window ago; all ticks before it were looked at in time. -/
theorem ends_iff_overdue {earlier : History} (fresh : ¬ vigil.Stale)
    (prompt : vigil.Prompt (earlier ++ [(now, happening)]))
    (running : (vigil.after earlier).standing = .running course tick) :
    let later := vigil.after (earlier ++ [(now, happening)])
    ((∃ result, later.standing = .ended result) ↔
      happening.looks = true ∧ (∃ count, now = vigil.tick count) ∧
        vigil.last (earlier ++ [(now, happening)]) + vigil.window < now) ∧
    (∀ result, later.standing = .ended result →
      result = .error (.watchdogExpired vigil.window)) ∧
    ∀ count, vigil.tick (count + 1) < now →
      vigil.LookedInTime earlier (vigil.tick (count + 1)) := by
  intro later
  obtain ⟨between, count, ticking⟩ := ticking_of_running fresh prompt.of_concat running
  have notBeyond : now ≤ vigil.tick (count + 1) :=
    prompt.punctual earlier now happening [] rfl _ _ ticking.runs.standing
  have former : ∀ former, vigil.tick (former + 1) < now →
      vigil.LookedInTime earlier (vigil.tick (former + 1)) := by
    intro former before
    apply ticking.former
    have ordered := Nat.lt_of_lt_of_le before notBeyond
    exact Nat.lt_of_succ_lt_succ (lt_of_tick_lt ordered)
  rcases ticking.step prompt with
    ⟨course, laterCount, goesOn, lastTick, inTime⟩ | ⟨looks, atTick, overdue, ended⟩
  · have standing : later.standing = _ := goesOn.runs.standing
    refine ⟨⟨?_, ?_⟩, ?_, former⟩
    · rintro ⟨result, ended⟩
      rw [standing] at ended
      cases ended
    · rintro ⟨looks, ⟨other, atTick⟩, overdue⟩
      have early := (inTime looks).resolve_right (Nat.not_le.mpr overdue)
      have notAfter : vigil.tick other ≤ vigil.tick count := by
        rw [atTick] at early
        exact tick_le (Nat.le_of_lt_succ (lt_of_tick_lt early))
      have alive := Nat.le_trans notAfter lastTick
      rw [← atTick] at alive
      exact absurd overdue (Nat.not_lt.mpr alive)
    · intro result ended
      rw [standing] at ended
      cases ended
  · refine ⟨⟨fun _ => ⟨looks, ⟨_, atTick⟩, overdue⟩, fun _ => ⟨_, ended⟩⟩, ?_, former⟩
    intro result other
    rw [ended] at other
    exact (ExecutionStanding.ended.inj other).symm

/-- With a stale reset the plan is never begun, and nothing but its failure is published. -/
theorem start_of_stale_reset (stale : vigil.Stale) :
    vigil.start.standing = .ended (.error (.watchdogExpired vigil.window)) ∧
      vigil.start.station.journal = vigil.station.journal ++
        ([(Event.ofKind .planStarting).withPlan vigil.plan.name,
          ((Event.ofKind .watchdogExpired).withPlan vigil.plan.name).withTimeout vigil.window,
          ((Event.ofKind .planFailed).withPlan vigil.plan.name).withReason
            (PlanError.watchdogExpired vigil.window).message].map
              fun event => (vigil.armed, .published event)) ∧
      vigil.start.station.observers = vigil.station.observers ∧
      ∀ steps, Execution.start vigil.interval { vigil.plan with steps } false vigil.station
        vigil.armed = vigil.start := by
  have stands := vigil.start_of_stale stale
  have sameWindow : vigil.ready.disarmWatchdog.watchdog.window = vigil.window :=
    vigil.watched_opening.remembers.sameWindow
  refine ⟨stands.standing, ?_, ?_, ?_⟩
  · have written : (fail ⟨vigil.plan.name, [], false⟩ vigil.ready vigil.armed
        (.watchdogExpired vigil.window)).station.journal =
        vigil.station.journal ++
          [(vigil.armed, .published ((Event.ofKind .planStarting).withPlan vigil.plan.name))] ++
          [(vigil.armed, .published (((Event.ofKind .watchdogExpired).withPlan
            vigil.plan.name).withTimeout vigil.ready.disarmWatchdog.watchdog.window))] ++
          [(vigil.armed, .published (((Event.ofKind .planFailed).withPlan
            vigil.plan.name).withReason (PlanError.watchdogExpired vigil.window).message))] := rfl
    rw [stands.station, written, sameWindow, List.append_assoc, List.append_assoc]
    rfl
  · rw [stands.station]
    rfl
  · intro steps
    have expired := vigil.stale_iff_hasExpired.mp stale
    rw [Vigil.start, start_of_expired _ _ _ _ _ expired]
    exact start_of_expired vigil.station vigil.armed vigil.interval { vigil.plan with steps }
      false expired

/-- A plan under the watchdog. With a stale reset it is not begun. Otherwise it runs, and as
long as it neither ends by itself nor is cancelled and no tick is missed, the first tick at
which the last reset or the arming is more than a window ago ends it, and no other happening
does. A plan with no gap longer than the window between its signs of life never expires. -/
theorem expiry_of_vigil (vigil : Vigil) :
    (vigil.Stale →
      vigil.start.standing = .ended (.error (.watchdogExpired vigil.window)) ∧
        vigil.start.station.journal = vigil.station.journal ++
          ([(Event.ofKind .planStarting).withPlan vigil.plan.name,
            ((Event.ofKind .watchdogExpired).withPlan vigil.plan.name).withTimeout vigil.window,
            ((Event.ofKind .planFailed).withPlan vigil.plan.name).withReason
              (PlanError.watchdogExpired vigil.window).message].map
                fun event => (vigil.armed, .published event)) ∧
        vigil.start.station.observers = vigil.station.observers ∧
        ∀ steps, Execution.start vigil.interval { vigil.plan with steps } false vigil.station
          vigil.armed = vigil.start) ∧
    (¬ vigil.Stale →
      (vigil.opening.Continues vigil.armed .turn →
        ∃ course, vigil.start.standing = .running course (vigil.tick 1)) ∧
      ∀ earlier now happening course tick, vigil.Prompt (earlier ++ [(now, happening)]) →
        (vigil.after earlier).standing = .running course tick →
        let later := vigil.after (earlier ++ [(now, happening)])
        ((∃ result, later.standing = .ended result) ↔
          happening.looks = true ∧ (∃ count, now = vigil.tick count) ∧
            vigil.last (earlier ++ [(now, happening)]) + vigil.window < now) ∧
        (∀ result, later.standing = .ended result →
          result = .error (.watchdogExpired vigil.window)) ∧
        ∀ count, vigil.tick (count + 1) < now →
          vigil.LookedInTime earlier (vigil.tick (count + 1))) ∧
    ((vigil.signs [] ++ [vigil.armed]).IsChain
        (fun former later => later ≤ former + vigil.window) →
      ∀ window, vigil.start.standing ≠ .ended (.error (.watchdogExpired window))) ∧
    ∀ earlier now happening course tick,
      (vigil.after earlier).standing = .running course tick →
      (∀ window, happening ≠ .finish (.error (.watchdogExpired window))) →
      (vigil.signs (earlier ++ [(now, happening)]) ++ [now]).IsChain
        (fun former later => later ≤ former + vigil.window) →
      ∀ window, (vigil.after (earlier ++ [(now, happening)])).standing ≠
        .ended (.error (.watchdogExpired window)) := by
  refine ⟨start_of_stale_reset, ?_, ?_, ?_⟩
  · intro fresh
    refine ⟨?_, ?_⟩
    · intro begins
      obtain ⟨course, ticking⟩ := ticking_start fresh begins
      exact ⟨course, ticking.runs.standing⟩
    · intro earlier now happening course tick prompt running
      exact ends_iff_overdue fresh prompt running
  · intro steady window expired
    have stale := stale_of_expired expired
    have inTime := le_of_isChain_signs steady
    rw [last_nil_of_stale stale] at inTime
    exact absurd (vigil.stale_iff.mp stale) (Nat.not_lt.mpr inTime)
  · intro earlier now happening course tick running own steady window expired
    have overdue := last_lt_of_expired running own expired
    exact absurd overdue (Nat.not_lt.mpr (le_of_isChain_signs steady))

def waiting : Vigil where
  interval := .ofMillis 200
  window := .ofMillis 100
  plan := ⟨"scan", [(.wait (.ofSeconds 1), false)]⟩
  station := ⟨.empty, .ofCapacity 1, .ofWindow (.ofMillis 100), .counted, 0, []⟩
  kept := []
  armed := 0
  guarded := rfl

/-- A reset after 50 milliseconds does not carry the waiting plan to its first tick. -/
theorem waiting_expires :
    (waiting.after [(.ofMillis 50, .reset), (.ofMillis 200, .turn)]).standing =
      .ended (.error (.watchdogExpired (.ofMillis 100))) := by
  have fresh : ¬ waiting.Stale := by
    rintro ⟨reset, member, _⟩
    cases member
  have each : ∀ {earlier : History} {now : Span} {happening : Happening} {later : History},
      [(.ofMillis 50, .reset)] ++ [(.ofMillis 200, .turn)] =
        earlier ++ (now, happening) :: later →
      (earlier = [] ∧ now = .ofMillis 50 ∧ happening = .reset) ∨
        earlier = [(.ofMillis 50, .reset)] ∧ now = .ofMillis 200 ∧ happening = .turn := by
    intro earlier now happening later same
    rcases earlier with _ | ⟨first, _ | ⟨second, rest⟩⟩
    · obtain ⟨rfl, rfl⟩ := Prod.mk.inj (List.cons.inj same).1
      exact Or.inl ⟨rfl, rfl, rfl⟩
    · obtain ⟨rfl, tail⟩ := List.cons.inj same
      obtain ⟨rfl, rfl⟩ := Prod.mk.inj (List.cons.inj tail).1
      exact Or.inr ⟨rfl, rfl, rfl⟩
    · simp at same
  have prompt : waiting.Prompt ([(.ofMillis 50, .reset)] ++ [(.ofMillis 200, .turn)]) := by
    refine ⟨⟨?_, by simp, by simp⟩, by decide, ?_, ?_⟩
    · rintro _ course tick ⟨rfl, rfl⟩
      exact ⟨_, rfl⟩
    · intro earlier now happening later same course tick standing
      rcases each same with ⟨rfl, rfl, _⟩ | ⟨rfl, rfl, _⟩
      · cases standing
        decide
      · cases standing
        decide
    · intro earlier now happening later same
      rcases each same with ⟨rfl, rfl, rfl⟩ | ⟨rfl, rfl, rfl⟩
      · exact ⟨by simp, by simp, by simp⟩
      · refine ⟨?_, by simp, by simp⟩
        rintro _ course tick standing
        cases standing
        exact ⟨_, rfl⟩
  have running : ∃ course tick,
      (waiting.after [(.ofMillis 50, .reset)]).standing = .running course tick := ⟨_, _, rfl⟩
  obtain ⟨course, tick, running⟩ := running
  obtain ⟨ends, only, _⟩ := ((expiry_of_vigil waiting).2.1 fresh).2 _ _ _ _ _ prompt running
  have overdue : ∃ result, (waiting.after ([(.ofMillis 50, .reset)] ++
      [(.ofMillis 200, .turn)])).standing = .ended result := by
    refine ends.mpr ⟨rfl, ⟨1, rfl⟩, ?_⟩
    decide
  obtain ⟨result, ended⟩ := overdue
  rw [only result ended] at ended
  exact ended

end Vigil

end PlanSupervision
