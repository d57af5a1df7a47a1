import PlanSupervision.Monitor.Rehearsal
import PlanSupervision.Proofs.Monitor.Duty

/-!
What the calls of a monitor leave in the journal of its post, line by line, and what they leave
alone: the services, the calls that were made of them, and the followers.
-/

namespace PlanSupervision

namespace MonitorEffect

def published? : MonitorEffect → Option Event
  | publish event => some event
  | startTimer _ _ | stopTimer _ | escalate _ => none

def escalated? : MonitorEffect → Option Escalation
  | escalate escalation => some escalation
  | startTimer _ _ | stopTimer _ | publish _ => none

end MonitorEffect

namespace Monitor

variable (monitor : Monitor)

theorem silent_disarm :
    monitor.disarm.2.filterMap MonitorEffect.published? = [] ∧
      monitor.disarm.2.filterMap MonitorEffect.escalated? = [] := by
  cases held : monitor.timer <;>
    simp [disarm, held, MonitorEffect.published?, MonitorEffect.escalated?]

theorem silent_arm :
    monitor.arm.2.filterMap MonitorEffect.published? = [] ∧
      monitor.arm.2.filterMap MonitorEffect.escalated? = [] := by
  obtain ⟨unpublished, undecided⟩ := monitor.silent_disarm
  simp only [arm, List.filterMap_append, unpublished, undecided]
  exact ⟨rfl, rfl⟩

theorem effects_enter (now : Span) :
    (monitor.enter now).2.filterMap MonitorEffect.published? =
        [(monitor.event .monitorStarted).withTimeout monitor.timeout] ∧
      (monitor.enter now).2.filterMap MonitorEffect.escalated? = [] := by
  have armed := silent_arm
    { monitor with inScope := true, waiting := false, started := some now }
  simp only [enter, List.filterMap_append, armed.1, armed.2]
  exact ⟨rfl, rfl⟩

theorem effects_exit (inScope : monitor.inScope = true) :
    monitor.exit.2.filterMap MonitorEffect.published? = [monitor.event .monitorStopped] ∧
      monitor.exit.2.filterMap MonitorEffect.escalated? = [] := by
  have disarmed := silent_disarm
    { monitor with inScope := false, generation := monitor.generation + 1 }
  simp only [exit, inScope, if_true, List.filterMap_append, disarmed.1, disarmed.2]
  exact ⟨rfl, rfl⟩

/-- The classification changed inside a scope. -/
theorem progress_of_change {progress : Progress} {reading : Bool}
    (read : monitor.reading? progress = some reading) (inScope : monitor.inScope = true)
    (change : monitor.waiting ≠ reading) :
    monitor.progress progress =
      ({ monitor with waiting := reading }.arm.1,
        { monitor with waiting := reading }.arm.2 ++
          [.publish ((monitor.event .beamWaitChanged).withReason (changeName reading))]) := by
  simp [Monitor.progress, read, inScope, change]

theorem effects_progress {progress : Progress} {reading : Bool}
    (read : monitor.reading? progress = some reading) (inScope : monitor.inScope = true)
    (change : monitor.waiting ≠ reading) :
    (monitor.progress progress).2.filterMap MonitorEffect.published? =
        [(monitor.event .beamWaitChanged).withReason (changeName reading)] ∧
      (monitor.progress progress).2.filterMap MonitorEffect.escalated? = [] := by
  have armed := silent_arm { monitor with waiting := reading }
  simp only [monitor.progress_of_change read inScope change, List.filterMap_append, armed.1,
    armed.2]
  exact ⟨rfl, rfl⟩

theorem published_expire (generation : UInt64) (now : Span) :
    (monitor.expire generation now).2.filterMap MonitorEffect.published? = [] := by
  unfold expire
  split
  · rfl
  · split <;> rfl

end Monitor

namespace MonitorPost

/-- A post of a task at which nothing has happened yet. -/
def fresh (monitor : Monitor) (cancelService alertService : Service)
    (bus : Option (Broadcast Event)) : MonitorPost :=
  { (Rehearsal.ofMonitor monitor cancelService alertService [] 1).post with bus }

/-- What is written of events that are published, if a bus is attached. -/
def announced (attached : Bool) (now : Span) (events : List Event) : Journal :=
  if attached then events.map fun event => (now, .published event) else []

theorem announced_nil (attached : Bool) (now : Span) : announced attached now [] = [] := by
  cases attached <;> rfl

theorem announced_append (attached : Bool) (now : Span) (earlier later : List Event) :
    announced attached now (earlier ++ later) =
      announced attached now earlier ++ announced attached now later := by
  cases attached
  · rfl
  · exact List.map_append

theorem publish_eq (post : MonitorPost) (now : Span) (event : Event) :
    post.publish now event =
      { post with
        journal := post.journal ++ announced post.attached now [event]
        bus := post.bus.map (·.send event) } := by
  cases bus : post.bus with
  | none =>
      have unchanged : post = { post with journal := post.journal ++ [], bus := none } := by
        simp only [List.append_nil, ← bus]
      simp only [publish, bus, announced, attached, Option.isSome_none, Bool.false_eq_true,
        if_false, Option.map_none]
      exact unchanged
  | some channel => simp [publish, bus, announced, attached, write, Journal.write]

/-- What the services are asked, and what the followers do. -/
structure Outside where
  cancelService : Service
  cancelCalls : Nat
  alertService : Service
  alertCalls : Nat
  followers : List Follower

def outside (post : MonitorPost) : Outside :=
  ⟨post.cancelService, post.cancelCalls, post.alertService, post.alertCalls, post.followers⟩

/-- A step that publishes these events and decides these escalations. -/
structure Yields (now : Span) (before after : MonitorPost) (events : List Event)
    (decided : List Escalation) : Prop where
  attached : after.attached = before.attached
  outside : after.outside = before.outside
  journal : after.journal = before.journal ++ announced before.attached now events
  escalations : after.escalations = before.escalations ++ decided.map fun escalation =>
    ⟨escalation, .begun⟩

namespace Yields

variable {now : Span} {before after last : MonitorPost} {events more : List Event}
  {decided others : List Escalation}

theorem of_journal_eq (attached : after.attached = before.attached)
    (outside : after.outside = before.outside) (journal : after.journal = before.journal)
    (escalations : after.escalations = before.escalations) :
    Yields now before after [] [] := by
  refine ⟨attached, outside, ?_, ?_⟩
  · simp only [journal, announced_nil, List.append_nil]
  · simp only [escalations, List.map_nil, List.append_nil]

theorem refl (now : Span) (post : MonitorPost) : Yields now post post [] [] :=
  of_journal_eq rfl rfl rfl rfl

theorem trans (first : Yields now before after events decided)
    (second : Yields now after last more others) :
    Yields now before last (events ++ more) (decided ++ others) := by
  refine ⟨second.attached.trans first.attached, second.outside.trans first.outside, ?_, ?_⟩
  · simp only [second.journal, first.journal, first.attached, announced_append,
      List.append_assoc]
  · simp only [second.escalations, first.escalations, List.map_append, List.append_assoc]

theorem carryOut (post : MonitorPost) (now : Span) (effect : MonitorEffect) :
    Yields now post (post.carryOut now effect) effect.published?.toList
      effect.escalated?.toList := by
  cases effect with
  | startTimer | stopTimer => exact of_journal_eq rfl rfl rfl rfl
  | publish event =>
      simp only [MonitorPost.carryOut, publish_eq]
      refine ⟨?_, rfl, rfl, ?_⟩
      · simp only [MonitorPost.attached, Option.isSome_map]
      · exact (List.append_nil _).symm
  | escalate escalation =>
      refine ⟨rfl, rfl, ?_, rfl⟩
      simp only [MonitorEffect.published?, Option.toList_none, announced_nil, List.append_nil]
      rfl

theorem carryOutAll (post : MonitorPost) (now : Span) (step : Monitor × List MonitorEffect) :
    Yields now post (post.carryOutAll now step) (step.2.filterMap MonitorEffect.published?)
      (step.2.filterMap MonitorEffect.escalated?) := by
  obtain ⟨monitor, effects⟩ := step
  have folded : ∀ middle : MonitorPost,
      Yields now middle (effects.foldl (MonitorPost.carryOut now) middle)
        (effects.filterMap MonitorEffect.published?)
        (effects.filterMap MonitorEffect.escalated?) := by
    induction effects with
    | nil => exact refl now
    | cons effect rest inductionHypothesis =>
        intro middle
        have both := (carryOut middle now effect).trans (inductionHypothesis _)
        simp only [List.filterMap_cons]
        cases effect <;> exact both
  have moved : Yields now post { post with monitor } [] [] := of_journal_eq rfl rfl rfl rfl
  exact moved.trans (folded _)

theorem enter (post : MonitorPost) (now : Span) :
    Yields now post (post.enter now)
      [(post.monitor.event .monitorStarted).withTimeout post.monitor.timeout] [] := by
  obtain ⟨published, decided⟩ := post.monitor.effects_enter now
  have yields := carryOutAll post now (post.monitor.enter now)
  simp only [published, decided] at yields
  exact yields

theorem exit (post : MonitorPost) (now : Span) :
    Yields now post (post.exit now)
      (if post.monitor.inScope then [post.monitor.event .monitorStopped] else []) [] := by
  have yields := carryOutAll post now post.monitor.exit
  cases inScope : post.monitor.inScope with
  | true =>
      obtain ⟨published, decided⟩ := post.monitor.effects_exit inScope
      simp only [published, decided] at yields
      exact yields
  | false =>
      have quiet : post.monitor.exit = (post.monitor, []) := by simp [Monitor.exit, inScope]
      simp only [quiet, List.filterMap_nil] at yields
      simp only [MonitorPost.exit, quiet]
      exact yields

theorem progress (post : MonitorPost) (now : Span) (notification : Progress) :
    ∃ events, (∀ event ∈ events, event.kind = .beamWaitChanged) ∧
      Yields now post (post.progress now notification) events [] := by
  have yields := carryOutAll post now (post.monitor.progress notification)
  by_cases change : ∃ reading, post.monitor.reading? notification = some reading ∧
      post.monitor.inScope = true ∧ post.monitor.waiting ≠ reading
  · obtain ⟨reading, read, inScope, different⟩ := change
    obtain ⟨published, decided⟩ := post.monitor.effects_progress read inScope different
    simp only [published, decided] at yields
    exact ⟨_, List.forall_mem_singleton.mpr rfl, yields⟩
  · have quiet : post.monitor.progress notification = (post.monitor, []) := by
      unfold Monitor.progress
      cases read : post.monitor.reading? notification with
      | none => rfl
      | some reading =>
          have same : post.monitor.inScope = true → post.monitor.waiting = reading :=
            fun inScope => Classical.not_not.mp fun different => change ⟨reading, read, inScope, different⟩
          cases inScope : post.monitor.inScope <;> simp [inScope, same]
    simp only [MonitorPost.progress, quiet]
    exact ⟨[], List.forall_mem_nil _, of_journal_eq rfl rfl rfl rfl⟩

theorem timerTurn (post : MonitorPost) (now : Span) (handle : Nat) :
    ∃ decided, Yields now post (post.timerTurn now handle) [] decided := by
  unfold MonitorPost.timerTurn
  split
  · exact ⟨[], refl now post⟩
  · exact ⟨[], of_journal_eq rfl rfl rfl rfl⟩
  · rename_i generation _ _
    split
    · have stopped : Yields now post
          { post with timers := post.timers.filter (·.handle != handle) } [] [] :=
        of_journal_eq rfl rfl rfl rfl
      have yields := stopped.trans
        (carryOutAll _ now (post.monitor.expire generation now))
      simp only [Monitor.published_expire] at yields
      exact ⟨_, yields⟩
    · exact ⟨[], refl now post⟩

end Yields

end MonitorPost

end PlanSupervision
