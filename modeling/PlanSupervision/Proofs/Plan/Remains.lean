import PlanSupervision.Proofs.Plan.Happening

/-!
What the work of a plan leaves behind. Observers that never fault go on so. The watchdog is left as
it was or reset as long as the plan goes on, and has forgotten all of it when the plan ends, in
whatever way it does.
-/

namespace PlanSupervision

/-- A listener that never faults, and makes none subscribe that does. -/
inductive Listener.Faultless : Listener → Prop where
  | gated (gate : Gate) (silent : Bool) (calls : Nat) {verdict : Verdict}
      (spares : ∀ call document, verdict call document = none) :
      Faultless (.gated gate silent calls verdict)
  | plain (name : String) (calls : Nat)
      {changes : Nat → Document → List (SubscriptionChange Listener)} {verdict : Verdict}
      (spares : ∀ call document, verdict call document = none)
      (others : ∀ call document listener, .subscribe listener ∈ changes call document →
        Faultless listener) :
      Faultless (.plain name calls changes verdict)

theorem Listener.Faultless.receive {listener : Listener} (faultless : listener.Faultless)
    (document : Document) :
    (listener.receive document).outcome = .ok () ∧
      (listener.receive document).listener.Faultless ∧
      ∀ other, .subscribe other ∈ (listener.receive document).changes → other.Faultless := by
  cases faultless with
  | gated gate silent calls spares =>
      unfold Listener.receive
      dsimp only
      split
      · rw [spares]
        exact ⟨rfl, .gated _ silent _ spares, nofun⟩
      · exact ⟨rfl, .gated _ silent _ spares, nofun⟩
  | plain name calls spares others =>
      unfold Listener.receive
      dsimp only
      rw [spares]
      exact ⟨rfl, .plain name _ spares others, others calls document⟩

namespace Observers

/-- No listener faults. -/
def Faultless (observers : Observers) : Prop :=
  ∀ listener ∈ observers.listeners, listener.Faultless

theorem Faultless.subscribe {observers : Observers} (faultless : observers.Faultless)
    {listener : Listener} (also : listener.Faultless) : (observers.subscribe listener).Faultless := by
  intro other member
  rcases List.mem_append.mp member with before | new
  · exact faultless other before
  · exact List.mem_singleton.mp new ▸ also

theorem faultless_ofUnnumbered {listeners : List Listener}
    (faultless : ∀ listener ∈ listeners, listener.Faultless) :
    (ofUnnumbered listeners).Faultless := by
  have all : ∀ observers : Observers, observers.Faultless →
      (listeners.foldl subscribe observers).Faultless := by
    induction listeners with
    | nil => exact fun _ already => already
    | cons listener rest inductionHypothesis =>
        intro observers already
        exact inductionHypothesis (fun other member => faultless other (List.mem_cons_of_mem _ member))
          _ (already.subscribe (faultless listener List.mem_cons_self))
  exact all empty nofun

theorem Faultless.changes {observers : Observers} (faultless : observers.Faultless)
    {changes : List (SubscriptionChange Listener)}
    (others : ∀ listener, .subscribe listener ∈ changes → listener.Faultless) :
    (changes.foldl change observers).Faultless := by
  induction changes generalizing observers with
  | nil => exact faultless
  | cons first rest inductionHypothesis =>
      have later := fun listener member => others listener (List.mem_cons_of_mem first member)
      cases first with
      | subscribe listener =>
          exact inductionHypothesis (faultless.subscribe (others listener List.mem_cons_self)) later
      | unsubscribe number =>
          have same : (observers.unsubscribe number).Faultless := faultless
          exact inductionHypothesis same later

theorem Faultless.deliver {observers : Observers} (faultless : observers.Faultless)
    (document : Document) (order : List Nat) :
    (observers.deliver document order).outcome = .ok () ∧
      (observers.deliver document order).observers.Faultless := by
  induction order generalizing observers with
  | nil => exact ⟨rfl, faultless⟩
  | cons index rest inductionHypothesis =>
      unfold Observers.deliver
      split
      · exact inductionHypothesis faultless
      · rename_i listener found
        obtain ⟨accepts, stays, others⟩ :=
          (faultless listener (List.mem_of_getElem? found)).receive document
        have kept : Observers.Faultless { observers with
            listeners := observers.listeners.set index (listener.receive document).listener } := by
          intro other member
          rcases List.mem_or_eq_of_mem_set member with before | rfl
          · exact faultless other before
          · exact stays
        dsimp only
        rw [accepts]
        exact inductionHypothesis (kept.changes others)

end Observers

theorem Watchdog.reset_reset (watchdog : Watchdog) (now : Span) :
    (watchdog.reset now).reset now = watchdog.reset now :=
  rfl

namespace Station

variable {station after last : Station} {now : Span}

theorem outcome_dispatch (faultless : station.observers.Faultless) (now : Span)
    (document : Document) : (station.dispatch now document).2 = .ok () :=
  (faultless.deliver document _).1

/-- The watchdog is left as it was or reset, and no observer begins to fault. -/
structure Spares (now : Span) (station after : Station) : Prop where
  watchdog : after.watchdog = station.watchdog ∨ after.watchdog = station.watchdog.reset now
  faultless : station.observers.Faultless → after.observers.Faultless

namespace Spares

theorem of_same (watchdog : after.watchdog = station.watchdog)
    (observers : after.observers = station.observers) : Spares now station after :=
  ⟨Or.inl watchdog, fun faultless => observers ▸ faultless⟩

theorem trans (first : Spares now station after) (second : Spares now after last) :
    Spares now station last := by
  refine ⟨?_, second.faultless ∘ first.faultless⟩
  rcases second.watchdog with same | reset
  · rw [same]
    exact first.watchdog
  · rw [reset]
    rcases first.watchdog with before | already
    · exact Or.inr (congrArg (Watchdog.reset · now) before)
    · rw [already]
      exact Or.inr (Watchdog.reset_reset _ now)

theorem dispatch (station : Station) (document : Document) :
    Spares now station (station.dispatch now document).1 :=
  ⟨Or.inl rfl, fun faultless => (faultless.deliver document _).2⟩

theorem window (spares : Spares now station after) :
    after.watchdog.window = station.watchdog.window := by
  rcases spares.watchdog with same | reset
  · rw [same]
  · rw [reset]
    rfl

end Spares

end Station

namespace PlanContext

theorem submit_of_faultless {station : Station} (faultless : station.observers.Faultless)
    (context : PlanContext) (now : Span) (handover : Handover) (value : StepResult) :
    context.submit station now (.ok handover) value =
      ⟨handover.context, (station.dispatch now handover.document).1, .ok value⟩ := by
  have accepted := Station.outcome_dispatch faultless now handover.document
  cases dispatched : station.dispatch now handover.document with
  | mk after outcome =>
      rw [dispatched] at accepted
      dsimp only at accepted
      simp only [submit, dispatched, accepted]

variable (context : PlanContext) (station : Station) (now : Span)

theorem spares_submit {Value : Type} (handover : Except PlanError Handover) (value : Value) :
    station.Spares now (context.submit station now handover value).station := by
  cases handover with
  | error error => exact .of_same rfl rfl
  | ok accepted =>
      have handed : station.Spares now (station.dispatch now accepted.document).1 :=
        .dispatch station accepted.document
      unfold submit
      dsimp only
      split
      · rename_i after same
        rw [same] at handed
        exact handed
      · rename_i after fault same
        rw [same] at handed
        exact handed.trans (.of_same rfl rfl)

theorem spares_act (action : PlanAction) :
    station.Spares now (context.act station now action).station := by
  have made : station.Spares now station.makeUid.2 := .of_same rfl rfl
  have stays : station.Spares now station := .of_same rfl rfl
  cases action with
  | openRun | event | closeRun => exact context.spares_submit station now _ _
  | generateRun activateCallbacks =>
      exact made.trans (context.spares_submit station.makeUid.2 now _ _)
  | descriptor runUid name =>
      refine Station.Spares.trans ?_ (context.spares_submit _ now _ _)
      split
      · exact made
      · exact stays
  | reset => exact ⟨Or.inr rfl, id⟩
  | sleep duration =>
      simp only [act]
      split
      · exact stays
      · exact stays
  | view | fail | abort | wait | checkpoint | branch => exact stays

end PlanContext

namespace Course

theorem spares_run (context : PlanContext) (station : Station) (now : Span) (branched : Bool)
    (steps : List PlanStep) :
    station.Spares now (run now branched context station steps).station := by
  induction steps generalizing context station with
  | nil => exact .of_same rfl rfl
  | cons step rest inductionHypothesis =>
      cases pauses : pause? context now step.1 with
      | some pause =>
          simp only [run, pauses]
          exact .of_same rfl rfl
      | none =>
          have recorded : station.Spares now (record (context.act station now step.1).context
              (context.act station now step.1).station now branched step
                (context.act station now step.1).result) :=
            (context.spares_act station now step.1).trans (.of_same rfl rfl)
          rcases run_cons station branched rest pauses with
            ⟨effects, error, failed, ends⟩ | ⟨effects, goes⟩
          · rw [ends]
            exact recorded
          · rw [goes]
            exact recorded.trans (inductionHypothesis _ _)

theorem spares_advance (course : Course) (context : PlanContext) (station : Station) (now : Span)
    (branched : Bool) :
    station.Spares now (course.advance now branched context station).station := by
  cases course with
  | ready steps => exact spares_run context station now branched steps
  | paused pause step rest =>
      have recorded : ∀ result, station.Spares now
          (record context station now branched step result) := fun _ => .of_same rfl rfl
      unfold advance
      dsimp only
      split
      · exact .of_same rfl rfl
      · split
        · exact recorded _
        · exact (recorded _).trans (spares_run context _ now branched rest)

end Course

namespace Execution

open PlanContext

variable {station : Station}

theorem handClosing_of_faultless (faultless : station.observers.Faultless) (plan : String)
    (now : Span) (closing : RunStop) :
    handClosing plan now station closing = (station.dispatch now (.stop closing)).1 := by
  have accepted := Station.outcome_dispatch faultless now (.stop closing)
  cases dispatched : station.dispatch now (.stop closing) with
  | mk after outcome =>
      rw [dispatched] at accepted
      dsimp only at accepted
      simp only [handClosing, dispatched, accepted]

/-- What an execution leaves at the station: no observer begins to fault, and when the execution
ends, the watchdog has forgotten all of it. -/
structure Leaves (station : Station) (execution : Execution) : Prop where
  faultless : station.observers.Faultless → execution.station.observers.Faultless
  window : execution.station.watchdog.window = station.watchdog.window
  forgotten : ∀ result, execution.standing = .ended result →
    execution.station.watchdog = .ofWindow station.watchdog.window

theorem Leaves.of_spares {now : Span} {execution : Execution}
    (spares : station.Spares now execution.station)
    (goesOn : ∀ result, execution.standing ≠ .ended result) : Leaves station execution :=
  ⟨spares.faultless, spares.window, fun result ended => absurd ended (goesOn result)⟩

theorem Leaves.trans {now : Span} {middle : Station} {execution : Execution}
    (spares : station.Spares now middle) (leaves : Leaves middle execution) :
    Leaves station execution := by
  refine ⟨leaves.faultless ∘ spares.faultless, leaves.window.trans spares.window, ?_⟩
  intro result ended
  rw [leaves.forgotten result ended, spares.window]

variable (context : PlanContext) (now : Span)

theorem closings_keep (plan : String) (closings : List RunStop) (station : Station) :
    (station.observers.Faultless →
        (closings.foldl (handClosing plan now) station).observers.Faultless) ∧
      (closings.foldl (handClosing plan now) station).watchdog = station.watchdog := by
  induction closings generalizing station with
  | nil => exact ⟨id, rfl⟩
  | cons closing rest inductionHypothesis =>
      have watchdog : (handClosing plan now station closing).watchdog = station.watchdog := by
        unfold handClosing
        split
        all_goals
          rename_i same
          exact congrArg (fun after => after.1.watchdog) same.symm
      obtain ⟨faultless, same⟩ := inductionHypothesis (handClosing plan now station closing)
      refine ⟨fun before => faultless ?_, same.trans watchdog⟩
      rw [handClosing_of_faultless before]
      exact (before.deliver (.stop closing) _).2

theorem leaves_fail (station : Station) (error : PlanError) :
    Leaves station (fail context station now error) := by
  obtain ⟨faultless, watchdog⟩ := closings_keep now
    (noteExpiry context station.disarmWatchdog now error).1.plan
    ((noteExpiry context station.disarmWatchdog now error).1.closingStops (closingStatus error)
      error.message) (noteExpiry context station.disarmWatchdog now error).2.1
  have noted : (noteExpiry context station.disarmWatchdog now error).2.1.watchdog =
      .ofWindow station.watchdog.window := by
    cases error <;> rfl
  have sameObservers : (noteExpiry context station.disarmWatchdog now error).2.1.observers =
      station.observers := by
    cases error <;> rfl
  have forgotten : (fail context station now error).station.watchdog =
      .ofWindow station.watchdog.window := watchdog.trans noted
  refine ⟨fun before => faultless (sameObservers ▸ before), ?_, fun _ _ => forgotten⟩
  rw [forgotten]
  rfl

theorem leaves_conclude (station : Station) (result : Except PlanError Unit) :
    Leaves station (conclude context station now result) := by
  cases result with
  | error error => exact leaves_fail context now station error
  | ok value => exact ⟨id, rfl, fun _ _ => rfl⟩

theorem Leaves.listing {execution : Execution} (leaves : Leaves station execution)
    (effects : List PlanEffect) : Leaves station { execution with effects } :=
  ⟨leaves.faultless, leaves.window, leaves.forgotten⟩

theorem leaves_proceed (interval : Span) (course : Course) (tick : Span) (station : Station) :
    Leaves station (proceed interval course tick context station now) := by
  have advanced := course.spares_advance context station now false
  unfold proceed
  apply Leaves.listing
  split
  · exact (leaves_conclude _ now _ _).trans advanced
  · split
    · exact (leaves_fail _ now _ _).trans advanced
    · exact .of_spares advanced nofun

theorem leaves_begin (interval : Span) (plan : Plan) (station : Station) :
    Leaves station (begin interval plan context station now) := by
  have begun : ∀ execution, Leaves ((station.armWatchdog now).publish now
      ((Event.ofKind .planStarting).withPlan context.plan)) execution → Leaves station execution :=
    fun execution leaves => ⟨leaves.faultless, leaves.window, leaves.forgotten⟩
  apply begun
  unfold begin
  apply Leaves.listing
  split
  · exact leaves_fail context now _ _
  · exact leaves_proceed context now interval _ now _

end Execution

end PlanSupervision
