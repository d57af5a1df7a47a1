import PlanSupervision.Proofs.Monitor.Ledger

/-!
The effects of escalations that have come to their end. Each of them has done all that belongs to
it, once, whatever the services answered, and nothing of it shows in the monitor or its timers.
-/

namespace PlanSupervision

/-- The alert that an entry raises, if any. -/
def Entry.alert? : Entry → Option AlertRecord
  | alertRaised alert => some alert
  | _ => none

namespace MonitorPost

/-- The alerts that are raised in a journal, in order. -/
def alertsIn (journal : Journal) : List AlertRecord := journal.filterMap fun line => line.2.alert?

theorem alertsIn_append (earlier later : Journal) :
    alertsIn (earlier ++ later) = alertsIn earlier ++ alertsIn later :=
  List.filterMap_append

theorem alertsIn_announced (attached : Bool) (now : Span) (event : Event) :
    alertsIn (announced attached now [event]) = [] := by
  cases attached <;> rfl

theorem alertsIn_failureLines (monitor : Monitor) (attached : Bool) (now : Span)
    (message : String) (kind : EventKind) (error : CollaboratorError) :
    alertsIn (monitor.failureLines attached now message kind error) = [] :=
  alertsIn_announced attached now _

theorem alertsIn_stuckLines (monitor : Monitor) (attached : Bool) (now : Span) :
    alertsIn (monitor.stuckLines attached now) = [] := by
  cases attached <;> rfl

theorem alertsIn_cancelLines (monitor : Monitor) (attached : Bool) (now : Span)
    (answer : Except CollaboratorError Unit) :
    alertsIn (monitor.cancelLines attached now answer) = [] := by
  cases answer with
  | ok _ => exact alertsIn_announced attached now _
  | error error => exact alertsIn_failureLines monitor attached now _ _ error

theorem alertsIn_alertLines (monitor : Monitor) (attached : Bool) (now : Span)
    (answer : Except CollaboratorError Unit) :
    alertsIn (monitor.alertLines attached now answer) = [] := by
  cases answer with
  | ok _ => rfl
  | error error => exact alertsIn_failureLines monitor attached now _ _ error

section Ended

variable {origin : Monitor} {attached : Bool} {cancelService alertService : Service}
  {ledger : Ledger} {index : Nat} {escalation : Escalation} {stage : EscalationStage}
  {lines : Journal}

/-- An escalation raises its own alert and no other. -/
theorem Pursues.alert_of_mem
    (pursues : Pursues origin attached cancelService alertService ledger index escalation stage
      lines) : ∀ alert ∈ alertsIn lines, alert = origin.alert escalation := by
  induction pursues with
  | begun => exact List.forall_mem_nil _
  | cancelling opened =>
      simp only [alertsIn_stuckLines]
      exact List.forall_mem_nil _
  | waiting opened elapsed =>
      simp only [Monitor.waitingLines, alertsIn_append, alertsIn_announced, List.nil_append]
      exact List.forall_mem_singleton.mpr rfl
  | stuck opened =>
      simp only [alertsIn_append, alertsIn_stuckLines, alertsIn_cancelLines, List.nil_append]
      exact List.forall_mem_singleton.mpr rfl
  | ended _ _ inductionHypothesis =>
      simp only [alertsIn_append, alertsIn_alertLines, List.append_nil]
      exact inductionHypothesis

/-- A stuck escalation that has ended has announced itself, asked for the cancellation, told of the
answer, raised its alert, and told of a failure of that. -/
theorem Pursues.exists_stuck
    (pursues : Pursues origin attached cancelService alertService ledger index .stuck .ended
      lines) :
    ∃ opened request answered alert closed,
      ledger.requesters[request]? = some index ∧ ledger.raisers[alert]? = some index ∧
        opened + (cancelService request).1 ≤ answered ∧
        answered + (alertService alert).1 ≤ closed ∧
        lines = origin.stuckLines attached opened ++
          (origin.cancelLines attached answered (cancelService request).2 ++
            [origin.alertLine answered .stuck]) ++
          origin.alertLines attached closed (alertService alert).2 := by
  cases pursues with
  | ended alerting closes =>
      cases alerting with
      | stuck opened asked inOrder raised =>
          exact ⟨opened, _, _, _, _, asked, raised, inOrder, closes, rfl⟩

theorem Pursues.exists_waiting {elapsed : Span}
    (pursues : Pursues origin attached cancelService alertService ledger index (.waiting elapsed)
      .ended lines) :
    index ∉ ledger.requesters ∧ ∃ opened alert closed,
      ledger.raisers[alert]? = some index ∧ opened + (alertService alert).1 ≤ closed ∧
        lines = origin.waitingLines attached opened elapsed ++
          origin.alertLines attached closed (alertService alert).2 := by
  cases pursues with
  | ended alerting closes =>
      cases alerting with
      | waiting opened _ unasked raised =>
          exact ⟨unasked, opened, _, _, raised, closes, rfl⟩

theorem Pursues.mem_iff
    (pursues : Pursues origin attached cancelService alertService ledger index escalation .ended
      lines) :
    (index ∈ ledger.requesters ↔ escalation = .stuck) ∧ index ∈ ledger.raisers := by
  cases escalation with
  | waiting elapsed =>
      obtain ⟨unasked, _, _, _, raised, _⟩ := pursues.exists_waiting
      exact ⟨iff_of_false unasked nofun, List.mem_of_getElem? raised⟩
  | stuck =>
      obtain ⟨_, _, _, _, _, asked, raised, _⟩ := pursues.exists_stuck
      exact ⟨iff_of_true (List.mem_of_getElem? asked) rfl, List.mem_of_getElem? raised⟩

end Ended

namespace Books

variable {origin : Monitor} {attached : Bool} {cancelService alertService : Service}
  {post : MonitorPost} {ledger : Ledger}

/-- When every escalation has ended, the stuck ones have each asked once for the cancellation, and
all have each raised one alert. -/
theorem calls_of_ended (books : Books origin attached cancelService alertService post ledger)
    (ended : ∀ course ∈ post.escalations, course.stage = .ended) :
    ledger.requesters.Perm ((List.range post.escalations.length).filter fun index =>
        post.escalations[index]?.map EscalationCourse.escalation = some .stuck) ∧
      ledger.raisers.Perm (List.range post.escalations.length) := by
  have settled : ∀ index course, post.escalations[index]? = some course →
      (index ∈ ledger.requesters ↔ course.escalation = .stuck) ∧ index ∈ ledger.raisers := by
    intro index course found
    have pursues := books.pursued index course found
    simp only [ended course (List.mem_of_getElem? found)] at pursues
    exact pursues.mem_iff
  have known : ∀ index, index < post.escalations.length ∨
      index ∉ ledger.requesters ∧ index ∉ ledger.raisers := by
    intro index
    rcases Nat.lt_or_ge index post.escalations.length with inside | beyond
    · exact Or.inl inside
    · exact Or.inr (books.unknown index beyond).2
  constructor
  · apply (List.perm_ext_iff_of_nodup books.once.1 (List.nodup_range.filter _)).mpr
    intro index
    simp only [List.mem_filter, List.mem_range, decide_eq_true_eq]
    cases found : post.escalations[index]? with
    | none =>
        have beyond := List.getElem?_eq_none_iff.mp found
        simp [(books.unknown index beyond).2.1]
    | some course =>
        have inside := (List.getElem?_eq_some_iff.mp found).1
        simp only [(settled index course found).1, inside, Option.map_some, Option.some.injEq,
          true_and]
  · apply (List.perm_ext_iff_of_nodup books.once.2 List.nodup_range).mpr
    intro index
    simp only [List.mem_range]
    constructor
    · exact fun raised => (known index).resolve_right fun absent => absent.2 raised
    · intro inside
      exact (settled index _ (List.getElem?_eq_getElem inside)).2

/-- Every alert is that of an escalation that was decided. -/
theorem alert_of_mem (books : Books origin attached cancelService alertService post ledger) :
    ∀ alert ∈ alertsIn post.journal, ∃ course ∈ post.escalations,
      alert = origin.alert course.escalation := by
  intro alert member
  obtain ⟨line, among, isAlert⟩ := List.mem_filterMap.mp member
  have own : isErrand line = true := by
    obtain ⟨now, entry⟩ := line
    cases entry with
    | alertRaised => rfl
    | _ => cases isAlert
  have written := books.errands.mem_iff.mp (List.mem_filter.mpr ⟨among, own⟩)
  obtain ⟨index, inRange, inDeeds⟩ := List.mem_flatMap.mp written
  have found := List.getElem?_eq_getElem (List.mem_range.mp inRange)
  refine ⟨_, List.mem_of_getElem? found, ?_⟩
  exact (books.pursued index _ found).alert_of_mem alert
    (List.mem_filterMap.mpr ⟨line, inDeeds, isAlert⟩)

end Books

/-- Two posts with the same monitor, timers and decisions, whatever their services do. -/
structure Level (one other : MonitorPost) : Prop where
  monitor : one.monitor = other.monitor
  timers : one.timers = other.timers
  decided : one.escalations.map EscalationCourse.escalation =
    other.escalations.map EscalationCourse.escalation

namespace Level

variable {one other : MonitorPost}

theorem carryOut (level : Level one other) (now : Span) (effect : MonitorEffect) :
    Level (one.carryOut now effect) (other.carryOut now effect) := by
  obtain ⟨monitor, timers, decided⟩ := level
  cases effect with
  | startTimer handle generation =>
      exact ⟨monitor, by simp [MonitorPost.carryOut, wake, timers], decided⟩
  | stopTimer handle => exact ⟨monitor, by simp [MonitorPost.carryOut, timers], decided⟩
  | publish event =>
      constructor
      · simpa [MonitorPost.carryOut] using monitor
      · simpa [MonitorPost.carryOut] using timers
      · simpa [MonitorPost.carryOut] using decided
  | escalate escalation =>
      exact ⟨monitor, timers, by simp [MonitorPost.carryOut, wake, decided]⟩

theorem carryOutAll (level : Level one other) (now : Span) (step : Monitor × List MonitorEffect) :
    Level (one.carryOutAll now step) (other.carryOutAll now step) := by
  obtain ⟨monitor, effects⟩ := step
  have folded : ∀ {one other : MonitorPost}, Level one other →
      Level (effects.foldl (MonitorPost.carryOut now) one)
        (effects.foldl (MonitorPost.carryOut now) other) := by
    induction effects with
    | nil => exact fun level => level
    | cons effect rest inductionHypothesis =>
        exact fun level => inductionHypothesis (level.carryOut now effect)
  exact folded ⟨rfl, level.timers, level.decided⟩

theorem timerTurn (level : Level one other) (now : Span) (handle : Nat) :
    Level (one.timerTurn now handle) (other.timerTurn now handle) := by
  unfold MonitorPost.timerTurn
  simp only [level.timers, level.monitor]
  split
  · exact level
  · exact ⟨rfl, rfl, level.decided⟩
  · split
    · apply carryOutAll
      exact ⟨rfl, rfl, level.decided⟩
    · exact level

theorem escalationTurn (level : Level one other) (now : Span) (index : Nat) :
    Level (one.escalationTurn now index) (other.escalationTurn now index) := by
  have left := LeavesMonitor.escalationTurn one now index
  have right := LeavesMonitor.escalationTurn other now index
  obtain ⟨_, oneSettles, _⟩ := one.escalationTurn_settles now index
  obtain ⟨_, otherSettles, _⟩ := other.escalationTurn_settles now index
  constructor
  · exact (left.monitor.trans level.monitor).trans right.monitor.symm
  · exact (left.timers.trans level.timers).trans right.timers.symm
  · simp only [oneSettles.escalations, otherSettles.escalations, List.append_nil, level.decided]

variable {origin : Monitor} {force : Option Bool}

theorem step (level : Level one other) (oneTracks : Tracks origin force one)
    (otherTracks : Tracks origin force other) (now : Span) (move : Move) :
    Level (one.step now move) (other.step now move) := by
  match move with
  | .enter =>
      simp only [MonitorPost.step, MonitorPost.enter, level.monitor]
      exact level.carryOutAll now _
  | .progress notification =>
      simp only [MonitorPost.step, MonitorPost.progress, level.monitor]
      exact level.carryOutAll now _
  | .exit =>
      simp only [MonitorPost.step, MonitorPost.exit, level.monitor]
      exact level.carryOutAll now _
  | .turn (.timer handle) => exact level.timerTurn now handle
  | .turn (.escalation index) => exact level.escalationTurn now index
  | .turn (.follower job) =>
      simp only [MonitorPost.step, turn, oneTracks.followerTurn_eq_self,
        otherTracks.followerTurn_eq_self]
      exact level

theorem decidedSince_eq {oneAfter otherAfter : MonitorPost} (before : Level one other)
    (after : Level oneAfter otherAfter) :
    decidedSince one oneAfter = decidedSince other otherAfter := by
  have count : one.escalations.length = other.escalations.length := by
    have lengths := congrArg List.length before.decided
    simpa only [List.length_map] using lengths
  simp only [decidedSince, List.map_drop, after.decided, count]

/-- Neither the monitor nor its timers depend on what the services answer. -/
theorem run (level : Level one other) (oneTracks : Tracks origin force one)
    (otherTracks : Tracks origin force other) (history : History) :
    Level (one.run history) (other.run history) ∧
      one.decisions history = other.decisions history := by
  induction history generalizing one other force with
  | nil => exact ⟨level, rfl⟩
  | cons entry later inductionHypothesis =>
      obtain ⟨instant, move⟩ := entry
      have stepped := level.step oneTracks otherTracks instant move
      obtain ⟨onward, decisions⟩ := inductionHypothesis stepped
        (oneTracks.step instant move) (otherTracks.step instant move)
      simp only [MonitorPost.decisions, level.decidedSince_eq stepped, decisions]
      exact ⟨onward, trivial⟩

end Level

/-- The escalations of a post are those that were decided, in order. -/
theorem escalations_run (post : MonitorPost) (history : History) :
    (post.run history).escalations.map EscalationCourse.escalation =
      post.escalations.map EscalationCourse.escalation ++
        (post.decisions history).map Prod.snd := by
  induction history generalizing post with
  | nil => exact (List.append_nil _).symm
  | cons entry later inductionHypothesis =>
      obtain ⟨instant, move⟩ := entry
      obtain ⟨_, decided, settles⟩ := run_settles post [(instant, move)]
      have since : decidedSince post (post.step instant move) = decided := settles.decidedSince_eq
      have first : (post.step instant move).escalations.map EscalationCourse.escalation =
          post.escalations.map EscalationCourse.escalation ++ decided := settles.escalations
      have onward := inductionHypothesis (post.step instant move)
      simp only [first] at onward
      simp only [run_cons, onward, decisions, since, List.map_append, List.map_map,
        List.append_assoc]
      congr 2
      exact (List.map_id' decided).symm

/-- The effects of the escalations of any history, with any services. The ledger tells of each call
of a service which escalation made it, and its lines are all that escalations wrote. An escalation
that has ended has written what belongs to it and nothing else: a stuck one asked once for the
cancellation, and raised its alert once that was answered, with whatever answer; a waiting one
raised its alert, with the content that it published; and a failure of a service is told of once.
All alerts carry the metadata of the parameters. All escalations can be brought to their ends at any
time. Monitor, timers and decisions are those of any other services. -/
theorem escalations_exact (config : Config) (taskId : String) (parameters : Json)
    (cancelService alertService : Service) (bus : Option (Broadcast Event))
    (history : History) :
    let origin := Monitor.ofTask config taskId parameters
    let post := fresh origin cancelService alertService bus
    let after := post.run history
    let ledger := post.record .empty history
    after.escalations.map EscalationCourse.escalation =
        (post.decisions history).map Prod.snd ∧
      (after.cancelCalls = ledger.requesters.length ∧ after.alertCalls = ledger.raisers.length ∧
        ledger.requesters.Nodup ∧ ledger.raisers.Nodup) ∧
      (after.journal.filter isErrand).Perm
        ((List.range after.escalations.length).flatMap ledger.deeds) ∧
      (∀ index, after.escalations[index]? = some ⟨.stuck, .ended⟩ →
        ∃ opened request answered alert closed,
          ledger.requesters[request]? = some index ∧ ledger.raisers[alert]? = some index ∧
            opened + (cancelService request).1 ≤ answered ∧
            answered + (alertService alert).1 ≤ closed ∧
            (ledger.deeds index).Sublist after.journal ∧
            ledger.deeds index = origin.stuckLines bus.isSome opened ++
              (origin.cancelLines bus.isSome answered (cancelService request).2 ++
                [origin.alertLine answered .stuck]) ++
              origin.alertLines bus.isSome closed (alertService alert).2) ∧
      (∀ index elapsed, after.escalations[index]? = some ⟨.waiting elapsed, .ended⟩ →
        index ∉ ledger.requesters ∧ ∃ opened alert closed,
          ledger.raisers[alert]? = some index ∧ opened + (alertService alert).1 ≤ closed ∧
            (ledger.deeds index).Sublist after.journal ∧
            ledger.deeds index = origin.waitingLines bus.isSome opened elapsed ++
              origin.alertLines bus.isSome closed (alertService alert).2) ∧
      ((∀ course ∈ after.escalations, course.stage = .ended) →
        ledger.requesters.Perm ((List.range after.escalations.length).filter fun index =>
            after.escalations[index]?.map EscalationCourse.escalation = some .stuck) ∧
          ledger.raisers.Perm (List.range after.escalations.length)) ∧
      (∀ since, ∃ turns finish, Chronological since finish turns ∧
        (∀ entry ∈ turns, ∃ index, entry.2 = .turn (.escalation index)) ∧
          ∀ course ∈ (after.run turns).escalations, course.stage = .ended) ∧
      (∀ alert ∈ alertsIn after.journal, alert.metadata = .ofParameters parameters ∧
        ∃ course ∈ after.escalations, alert = origin.alert course.escalation) ∧
      (∀ now index, LeavesMonitor after (after.step now (.turn (.escalation index)))) ∧
      ∀ otherCancelService otherAlertService otherBus,
        let other := fresh origin otherCancelService otherAlertService otherBus
        (other.run history).monitor = after.monitor ∧
          (other.run history).timers = after.timers ∧
          other.decisions history = post.decisions history := by
  intro origin post after ledger
  have books : Books origin bus.isSome cancelService alertService after ledger :=
    (Books.fresh origin cancelService alertService bus rfl).run history
  have tracks : Tracks origin none post := tracks_fresh origin cancelService alertService bus rfl
  refine ⟨escalations_run post history, ⟨books.asked, books.raised, books.once⟩, books.errands,
    ?_, ?_, books.calls_of_ended, exists_turns_ending after, ?_, ?_, ?_⟩
  · intro index found
    obtain ⟨opened, request, answered, alert, closed, asked, raised, answers, closes, lines⟩ :=
      (books.pursued index _ found).exists_stuck
    exact ⟨opened, request, answered, alert, closed, asked, raised, answers, closes,
      books.inOrder index, lines⟩
  · intro index elapsed found
    obtain ⟨unasked, opened, alert, closed, raised, closes, lines⟩ :=
      (books.pursued index _ found).exists_waiting
    exact ⟨unasked, opened, alert, closed, raised, closes, books.inOrder index, lines⟩
  · intro alert member
    obtain ⟨course, among, rfl⟩ := books.alert_of_mem alert member
    exact ⟨by cases course.escalation <;> rfl, course, among, rfl⟩
  · exact fun now index => .escalationTurn after now index
  · intro otherCancelService otherAlertService otherBus other
    have level : Level other post := ⟨rfl, rfl, rfl⟩
    have otherTracks : Tracks origin none other :=
      tracks_fresh origin otherCancelService otherAlertService otherBus rfl
    obtain ⟨onward, decisions⟩ := level.run otherTracks tracks history
    exact ⟨onward.monitor, onward.timers, decisions⟩

end MonitorPost

end PlanSupervision
