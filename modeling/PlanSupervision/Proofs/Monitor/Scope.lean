import PlanSupervision.Proofs.Monitor.History

/-!
One scope of a monitor, step by step. While a timer runs, a move leaves it alone, gives it
its end, or replaces it because the classification changed; which of these it is decides
whether an escalation is decided and from when the next timer counts.
-/

namespace PlanSupervision

namespace Monitor

structure SameTask (monitor origin : Monitor) : Prop where
  taskId : monitor.taskId = origin.taskId
  statusName : monitor.statusName = origin.statusName
  timeout : monitor.timeout = origin.timeout
  metadata : monitor.metadata = origin.metadata

theorem SameTask.refl (monitor : Monitor) : monitor.SameTask monitor := ⟨rfl, rfl, rfl, rfl⟩

theorem SameTask.reading?_eq {monitor origin : Monitor} (same : monitor.SameTask origin)
    (progress : Progress) : monitor.reading? progress = origin.reading? progress := by
  simp only [reading?, same.taskId, same.statusName]

theorem repeats_of_unchanged {monitor : Monitor} {waiting : Bool} {progress : Progress}
    (unchanged : ¬ monitor.reading? progress = some (!waiting)) :
    ∀ reading ∈ monitor.reading? progress, reading = waiting := by
  intro reading read
  by_cases same : reading = waiting
  · exact same
  · have opposite : reading = !waiting := Bool.eq_not_of_ne same
    rw [opposite] at read
    exact absurd read unchanged

end Monitor

namespace MonitorPost

/-- Outside any scope, with no timer running. -/
structure AtRest (post : MonitorPost) : Prop where
  outside : post.monitor.inScope = false
  timer : post.monitor.timer = none
  timers : post.timers = []

/-- Inside the scope that was entered at an instant, with this classification in force. -/
structure Within (origin : Monitor) (entered : Span) (waiting : Bool) (post : MonitorPost) :
    Prop where
  inScope : post.monitor.inScope = true
  waiting : post.monitor.waiting = waiting
  started : post.monitor.started = some entered
  task : post.monitor.SameTask origin

/-- Inside a scope with a timer that counts from `start`. -/
structure Guarded (origin : Monitor) (entered : Span) (waiting : Bool) (start now : Span)
    (post : MonitorPost) : Prop extends Within origin entered waiting post where
  timer : post.monitor.timer = some post.monitor.spawned
  timers : post.timers = [⟨post.monitor.spawned, post.monitor.generation, none⟩] ∧ now = start ∨
    post.timers = [⟨post.monitor.spawned, post.monitor.generation, some (start + origin.timeout)⟩]
  inTime : now ≤ start + origin.timeout

/-- Inside a scope whose timer ended without another. -/
structure Unguarded (origin : Monitor) (entered : Span) (waiting : Bool) (post : MonitorPost) :
    Prop extends Within origin entered waiting post where
  timer : post.monitor.timer = none
  timers : post.timers = []

variable {origin : Monitor} {entered start now instant : Span} {waiting : Bool}
  {post : MonitorPost}

/-- What a move can do while a timer runs that counts from `start`. -/
inductive GuardedStep (origin : Monitor) (entered : Span) (waiting : Bool) (start instant : Span)
    (move : Move) (before after : MonitorPost) : Prop where
  /-- The timer goes on. A notification among these moves repeats what is in force. -/
  | stays (guarded : Guarded origin entered waiting start instant after)
      (undecided : decidedSince before after = [])
      (repeats : ∀ progress, move = .progress progress →
        ∀ reading ∈ origin.reading? progress, reading = waiting)
  /-- The timer of a waiting task ends and is followed by another. -/
  | prolongs (turn : move.isCall = false) (wait : waiting = true)
      (due : instant = start + origin.timeout)
      (guarded : Guarded origin entered true instant instant after)
      (decided : decidedSince before after = [.waiting (instant - entered)])
  | givesUp (turn : move.isCall = false) (wait : waiting = false)
      (due : instant = start + origin.timeout)
      (unguarded : Unguarded origin entered false after)
      (decided : decidedSince before after = [.stuck])
  /-- The classification changes and the timer is replaced. -/
  | changes (progress : Progress) (notified : move = .progress progress)
      (read : origin.reading? progress = some (!waiting))
      (guarded : Guarded origin entered (!waiting) instant instant after)
      (undecided : decidedSince before after = [])

theorem eq_now_of_fresh {handle : Nat} {generation : UInt64}
    (fresh : post.timers = [⟨handle, generation, none⟩])
    (admitted : ∀ timer ∈ post.timers, RunningTimer.Admits timer now instant) :
    instant = now :=
  admitted ⟨handle, generation, none⟩ (by simp [fresh])

/-- The clock may stand still, and goes no further than the end of the timer. -/
theorem Guarded.le_due (guarded : Guarded origin entered waiting start now post)
    (admitted : ∀ timer ∈ post.timers, RunningTimer.Admits timer now instant) :
    instant ≤ start + origin.timeout := by
  rcases guarded.timers with ⟨fresh, begun⟩ | running
  · rw [eq_now_of_fresh fresh admitted, begun]
    exact Nat.le_add_right _ _
  · exact admitted
      ⟨post.monitor.spawned, post.monitor.generation, some (start + origin.timeout)⟩
      (by simp [running])

theorem LeavesMonitor.guarded {after : MonitorPost} (leaves : LeavesMonitor post after)
    (guarded : Guarded origin entered waiting start now post)
    (admitted : ∀ timer ∈ post.timers, RunningTimer.Admits timer now instant) :
    Guarded origin entered waiting start instant after := by
  have inTime := guarded.le_due admitted
  obtain ⟨⟨inScope, wait, started, task⟩, timer, timers, _⟩ := guarded
  refine ⟨⟨?_, ?_, ?_, ?_⟩, ?_, ?_, inTime⟩
  · rw [leaves.monitor, inScope]
  · rw [leaves.monitor, wait]
  · rw [leaves.monitor, started]
  · rw [leaves.monitor]
    exact task
  · rw [leaves.monitor, timer]
  · rw [leaves.monitor, leaves.timers]
    rcases timers with ⟨fresh, begun⟩ | running
    · exact Or.inl ⟨fresh, (eq_now_of_fresh fresh admitted).trans begun⟩
    · exact Or.inr running

theorem Guarded.timerTurn_of_fresh (guarded : Guarded origin entered waiting start now post)
    (fresh : post.timers = [⟨post.monitor.spawned, post.monitor.generation, none⟩])
    (begun : now = start) :
    post.timerTurn now post.monitor.spawned =
      { post with timers := [⟨post.monitor.spawned, post.monitor.generation,
          some (start + origin.timeout)⟩] } := by
  simp [timerTurn, fresh, begun, guarded.task.timeout]

theorem Guarded.begins (guarded : Guarded origin entered waiting start now post) :
    Guarded origin entered waiting start now
      { post with timers := [⟨post.monitor.spawned, post.monitor.generation,
          some (start + origin.timeout)⟩] } :=
  ⟨⟨guarded.inScope, guarded.waiting, guarded.started, guarded.task⟩, guarded.timer,
    Or.inr rfl, guarded.inTime⟩

theorem Guarded.prolongs (guarded : Guarded origin entered true start now post)
    (running : post.timers = [⟨post.monitor.spawned, post.monitor.generation, some instant⟩]) :
    Guarded origin entered true instant instant
        (post.timerTurn instant post.monitor.spawned) ∧
      decidedSince post (post.timerTurn instant post.monitor.spawned) =
        [.waiting (instant - entered)] := by
  obtain ⟨⟨inScope, wait, started, task⟩, timer, timers, _⟩ := guarded
  refine ⟨⟨⟨?_, ?_, ?_, ?_⟩, ?_, ?_, Nat.le_add_right _ _⟩, ?_⟩
  all_goals
    simp [timerTurn, running, carryOutAll, Monitor.expire, Monitor.startTimer, carryOut,
      inScope, wait, wake, decidedSince, Monitor.elapsed, started]
  exact ⟨task.taskId, task.statusName, task.timeout, task.metadata⟩

theorem Guarded.givesUp (guarded : Guarded origin entered false start now post)
    (running : post.timers = [⟨post.monitor.spawned, post.monitor.generation, some instant⟩]) :
    Unguarded origin entered false (post.timerTurn instant post.monitor.spawned) ∧
      decidedSince post (post.timerTurn instant post.monitor.spawned) = [.stuck] := by
  obtain ⟨⟨inScope, wait, started, task⟩, timer, timers, _⟩ := guarded
  refine ⟨⟨⟨?_, ?_, ?_, ?_⟩, ?_, ?_⟩, ?_⟩
  all_goals
    simp [timerTurn, running, carryOutAll, Monitor.expire, carryOut, inScope, wait, wake,
      decidedSince, started]
  exact ⟨task.taskId, task.statusName, task.timeout, task.metadata⟩

theorem timerTurn_of_other {handle other : Nat} {generation : UInt64} {due : Option Span}
    (timers : post.timers = [⟨handle, generation, due⟩]) (different : handle ≠ other) :
    post.timerTurn instant other = post := by
  simp [timerTurn, timers, different]

theorem Within.progress_eq_self (within : Within origin entered waiting post)
    {progress : Progress}
    (repeats : ∀ reading ∈ origin.reading? progress, reading = waiting) :
    post.progress instant progress = post := by
  have unmoved : post.monitor.progress progress = (post.monitor, []) := by
    unfold Monitor.progress
    rw [within.task.reading?_eq]
    cases read : origin.reading? progress with
    | none => rfl
    | some reading =>
        have same := repeats reading (by simp [read])
        simp [within.waiting, same]
  simp [MonitorPost.progress, carryOutAll, unmoved]

/-- The monitor is armed anew: the timer that it held is stopped and another one started. -/
theorem carryOutAll_arm (monitor : Monitor) (now : Span) (event : Event)
    (held : post.timers.map RunningTimer.handle = monitor.timer.toList) :
    let after := post.carryOutAll now (monitor.arm.1, monitor.arm.2 ++ [.publish event])
    after.monitor = monitor.arm.1 ∧
      after.timers = [⟨monitor.spawned + 1, monitor.generation + 1, none⟩] ∧
      after.escalations = post.escalations := by
  intro after
  cases timer : monitor.timer with
  | none =>
      have idle : post.timers = [] := by simpa [timer] using held
      simp [after, carryOutAll, Monitor.arm, Monitor.disarm, Monitor.startTimer, timer, idle,
        carryOut, wake]
  | some handle =>
      obtain ⟨running, sole, same⟩ : ∃ running, post.timers = [running] ∧
          running.handle = handle := by
        simpa [timer, List.map_eq_singleton_iff] using held
      simp [after, carryOutAll, Monitor.arm, Monitor.disarm, Monitor.startTimer, timer, sole,
        same, carryOut, wake]

theorem guarded_of_arm (monitor : Monitor) {event : Event}
    (inScope : monitor.inScope = true) (started : monitor.started = some entered)
    (task : monitor.SameTask origin)
    (held : post.timers.map RunningTimer.handle = monitor.timer.toList) :
    let after := post.carryOutAll now (monitor.arm.1, monitor.arm.2 ++ [.publish event])
    Guarded origin entered monitor.waiting now now after ∧ decidedSince post after = [] := by
  intro after
  obtain ⟨armed, timers, escalations⟩ := carryOutAll_arm monitor now event held
  refine ⟨⟨⟨?_, ?_, ?_, ?_⟩, ?_, ?_, Nat.le_add_right _ _⟩, ?_⟩
  · rw [armed]
    exact inScope
  · rw [armed]
    rfl
  · rw [armed]
    exact started
  · rw [armed]
    exact ⟨task.taskId, task.statusName, task.timeout, task.metadata⟩
  · rw [armed]
    rfl
  · rw [armed, timers]
    exact Or.inl ⟨rfl, rfl⟩
  · rw [decidedSince, escalations, List.drop_length, List.map_nil]

theorem AtRest.enter (rest : post.AtRest) (now : Span) :
    Guarded post.monitor now false now now (post.enter now) ∧
      decidedSince post (post.enter now) = [] :=
  guarded_of_arm { post.monitor with inScope := true, waiting := false, started := some now }
    rfl rfl ⟨rfl, rfl, rfl, rfl⟩ (by simp [rest.timer, rest.timers])

theorem Within.progress_changes (within : Within origin entered waiting post) (instant : Span)
    {progress : Progress} (read : origin.reading? progress = some (!waiting))
    (held : post.timers.map RunningTimer.handle = post.monitor.timer.toList) :
    Guarded origin entered (!waiting) instant instant (post.progress instant progress) ∧
      decidedSince post (post.progress instant progress) = [] := by
  have moved : post.monitor.progress progress =
      ({ post.monitor with waiting := !waiting }.arm.1,
        { post.monitor with waiting := !waiting }.arm.2 ++
          [.publish ((post.monitor.event .beamWaitChanged).withReason
            (Monitor.changeName !waiting))]) := by
    simp [Monitor.progress, within.task.reading?_eq, read, within.inScope, within.waiting]
  rw [MonitorPost.progress, moved]
  exact guarded_of_arm { post.monitor with waiting := !waiting } within.inScope within.started
    ⟨within.task.taskId, within.task.statusName, within.task.timeout, within.task.metadata⟩ held

theorem Guarded.held (guarded : Guarded origin entered waiting start now post) :
    post.timers.map RunningTimer.handle = post.monitor.timer.toList := by
  rcases guarded.timers with ⟨fresh, _⟩ | running
  · simp [fresh, guarded.timer]
  · simp [running, guarded.timer]

theorem Unguarded.held (unguarded : Unguarded origin entered waiting post) :
    post.timers.map RunningTimer.handle = post.monitor.timer.toList := by
  simp [unguarded.timers, unguarded.timer]

theorem Guarded.stays_of_leaves {after : MonitorPost} {move : Move}
    (guarded : Guarded origin entered waiting start now post)
    (admitted : ∀ timer ∈ post.timers, RunningTimer.Admits timer now instant)
    (leaves : LeavesMonitor post after)
    (repeats : ∀ progress, move = .progress progress →
      ∀ reading ∈ origin.reading? progress, reading = waiting) :
    GuardedStep origin entered waiting start instant move post after :=
  .stays (leaves.guarded guarded admitted) leaves.decidedSince_eq_nil repeats

theorem Guarded.timerTurn (guarded : Guarded origin entered waiting start now post)
    (admitted : ∀ timer ∈ post.timers, RunningTimer.Admits timer now instant) (handle : Nat) :
    GuardedStep origin entered waiting start instant (.turn (.timer handle)) post
      (post.timerTurn instant handle) := by
  by_cases same : handle = post.monitor.spawned
  · subst same
    rcases guarded.timers with ⟨fresh, begun⟩ | running
    · obtain rfl := eq_now_of_fresh fresh admitted
      rw [guarded.timerTurn_of_fresh fresh begun]
      exact .stays guarded.begins (by simp [decidedSince]) (by simp)
    · by_cases due : instant = start + origin.timeout
      · subst due
        cases waiting with
        | true =>
            obtain ⟨prolonged, decided⟩ := guarded.prolongs running
            exact .prolongs rfl rfl rfl prolonged decided
        | false =>
            obtain ⟨unguarded, decided⟩ := guarded.givesUp running
            exact .givesUp rfl rfl rfl unguarded decided
      · have early : instant < start + origin.timeout :=
          Nat.lt_of_le_of_ne (guarded.le_due admitted) due
        have unmoved : post.timerTurn instant post.monitor.spawned = post := by
          simp [MonitorPost.timerTurn, running, Nat.not_le.mpr early]
        rw [unmoved]
        exact guarded.stays_of_leaves admitted (.refl post) (by simp)
  · obtain ⟨due, sole⟩ : ∃ due,
        post.timers = [⟨post.monitor.spawned, post.monitor.generation, due⟩] := by
      rcases guarded.timers with ⟨fresh, _⟩ | running
      · exact ⟨_, fresh⟩
      · exact ⟨_, running⟩
    rw [timerTurn_of_other sole (Ne.symm same)]
    exact guarded.stays_of_leaves admitted (.refl post) (by simp)

/-- What a move can do in a scope with a running timer, if time did not pass the timer. -/
theorem Guarded.step (guarded : Guarded origin entered waiting start now post)
    (admitted : ∀ timer ∈ post.timers, RunningTimer.Admits timer now instant)
    {move : Move} (inside : move.isCall = true → ∃ progress, move = .progress progress) :
    GuardedStep origin entered waiting start instant move post (post.step instant move) := by
  match move, inside with
  | .turn (.timer handle), _ => exact guarded.timerTurn admitted handle
  | .turn (.escalation index), _ =>
      exact guarded.stays_of_leaves admitted (.escalationTurn post instant index) (by simp)
  | .progress progress, _ =>
      by_cases change : origin.reading? progress = some (!waiting)
      · obtain ⟨armed, undecided⟩ :=
          guarded.toWithin.progress_changes instant change guarded.held
        exact .changes progress rfl change armed undecided
      · have repeats := Monitor.repeats_of_unchanged change
        have unmoved : post.step instant (.progress progress) = post :=
          guarded.toWithin.progress_eq_self repeats
        rw [unmoved]
        refine guarded.stays_of_leaves admitted (.refl post) ?_
        intro other same
        cases same
        exact repeats
  | .enter, inside => simp [Move.isCall] at inside
  | .exit, inside => simp [Move.isCall] at inside
  | .turn (.follower job), inside => simp [Move.isCall] at inside

inductive Inside (origin : Monitor) (entered : Span) (waiting : Bool) (now : Span)
    (post : MonitorPost) : Prop where
  | guarded (start : Span) (guarded : Guarded origin entered waiting start now post)
  | unguarded (unguarded : Unguarded origin entered waiting post)

namespace Inside

theorem within (inside : Inside origin entered waiting now post) :
    Within origin entered waiting post := by
  cases inside with
  | guarded start guarded => exact guarded.toWithin
  | unguarded unguarded => exact unguarded.toWithin

theorem held (inside : Inside origin entered waiting now post) :
    post.timers.map RunningTimer.handle = post.monitor.timer.toList := by
  cases inside with
  | guarded start guarded => exact guarded.held
  | unguarded unguarded => exact unguarded.held

end Inside

/-- The classification in force after a move. -/
def classified (origin : Monitor) (waiting : Bool) : Move → Bool
  | .progress progress => (origin.reading? progress).getD waiting
  | .enter | .exit | .turn _ => waiting

theorem classified_of_turn {move : Move} (turn : move.isCall = false) :
    classified origin waiting move = waiting := by
  cases move <;> simp_all [Move.isCall, classified]

theorem classified_of_repeats {progress : Progress}
    (repeats : ∀ reading ∈ origin.reading? progress, reading = waiting) :
    classified origin waiting (.progress progress) = waiting := by
  cases read : origin.reading? progress with
  | none => simp [classified, read]
  | some reading => simp [classified, read, repeats reading read]

theorem classified_of_unchanged {move : Move}
    (inside : move.isCall = true → ∃ progress, move = .progress progress)
    (repeats : ∀ progress, move = .progress progress →
      ∀ reading ∈ origin.reading? progress, reading = waiting) :
    classified origin waiting move = waiting := by
  cases call : move.isCall with
  | false => exact classified_of_turn call
  | true =>
      obtain ⟨progress, rfl⟩ := inside call
      exact classified_of_repeats (repeats progress rfl)

theorem GuardedStep.inside {move : Move} {after : MonitorPost}
    (inside : move.isCall = true → ∃ progress, move = .progress progress)
    (stepped : GuardedStep origin entered waiting start instant move post after) :
    Inside origin entered (classified origin waiting move) instant after := by
  cases stepped with
  | stays guarded undecided repeats =>
      rw [classified_of_unchanged inside repeats]
      exact .guarded start guarded
  | prolongs turn wait due guarded decided =>
      rw [classified_of_turn turn, wait]
      exact .guarded instant guarded
  | givesUp turn wait due unguarded decided =>
      rw [classified_of_turn turn, wait]
      exact .unguarded unguarded
  | changes progress notified read guarded undecided =>
      rw [notified, classified, read]
      exact .guarded instant guarded

/-- Without a timer only a notification of a change has an effect. -/
theorem Unguarded.stays (unguarded : Unguarded origin entered waiting post) (instant : Span)
    {move : Move} (inside : move.isCall = true → ∃ progress, move = .progress progress)
    (repeats : ∀ progress, move = .progress progress →
      ∀ reading ∈ origin.reading? progress, reading = waiting) :
    Unguarded origin entered waiting (post.step instant move) ∧
      decidedSince post (post.step instant move) = [] := by
  have unmoved : post.step instant move = post →
      Unguarded origin entered waiting (post.step instant move) ∧
        decidedSince post (post.step instant move) = [] := by
    intro same
    rw [same]
    exact ⟨unguarded, (LeavesMonitor.refl post).decidedSince_eq_nil⟩
  match move, inside with
  | .turn (.timer handle), _ =>
      apply unmoved
      simp [MonitorPost.step, turn, MonitorPost.timerTurn, unguarded.timers]
  | .turn (.escalation index), _ =>
      have leaves := LeavesMonitor.escalationTurn post instant index
      refine ⟨⟨⟨?_, ?_, ?_, ?_⟩, ?_, ?_⟩, leaves.decidedSince_eq_nil⟩
      · exact leaves.monitor ▸ unguarded.inScope
      · exact leaves.monitor ▸ unguarded.waiting
      · exact leaves.monitor ▸ unguarded.started
      · exact leaves.monitor ▸ unguarded.task
      · exact leaves.monitor ▸ unguarded.timer
      · exact leaves.timers ▸ unguarded.timers
  | .progress progress, _ =>
      apply unmoved
      exact unguarded.toWithin.progress_eq_self (repeats progress rfl)
  | .enter, inside => simp [Move.isCall] at inside
  | .exit, inside => simp [Move.isCall] at inside
  | .turn (.follower job), inside => simp [Move.isCall] at inside

theorem Unguarded.step (unguarded : Unguarded origin entered waiting post) {move : Move}
    (inside : move.isCall = true → ∃ progress, move = .progress progress) :
    Inside origin entered (classified origin waiting move) instant (post.step instant move) := by
  by_cases changes : ∃ progress, move = .progress progress ∧
      origin.reading? progress = some (!waiting)
  · obtain ⟨progress, rfl, change⟩ := changes
    rw [classified, change]
    exact .guarded instant
      (unguarded.toWithin.progress_changes instant change unguarded.held).1
  · have repeats : ∀ progress, move = .progress progress →
        ∀ reading ∈ origin.reading? progress, reading = waiting := by
      intro progress notified
      apply Monitor.repeats_of_unchanged
      intro change
      exact changes ⟨progress, notified, change⟩
    rw [classified_of_unchanged inside repeats]
    exact .unguarded (unguarded.stays instant inside repeats).1

/-- A move inside a scope stays inside it. -/
theorem Inside.step (inside : Inside origin entered waiting now post)
    (admitted : ∀ timer ∈ post.timers, RunningTimer.Admits timer now instant) (move : Move)
    (isNote : move.isCall = true → ∃ progress, move = .progress progress) :
    Inside origin entered (classified origin waiting move) instant (post.step instant move) := by
  cases inside with
  | guarded start guarded => exact (guarded.step admitted isNote).inside isNote
  | unguarded unguarded => exact unguarded.step isNote

theorem exit_of_inScope (inScope : post.monitor.inScope = true) (now : Span)
    (held : post.timers.map RunningTimer.handle = post.monitor.timer.toList) :
    (post.exit now).AtRest ∧ decidedSince post (post.exit now) = [] := by
  cases timer : post.monitor.timer with
  | none =>
      have idle : post.timers = [] := by simpa [timer] using held
      refine ⟨⟨?_, ?_, ?_⟩, ?_⟩
      all_goals
        simp [MonitorPost.exit, carryOutAll, Monitor.exit, Monitor.disarm, inScope, timer,
          carryOut, idle, decidedSince]
  | some handle =>
      obtain ⟨running, sole, same⟩ : ∃ running, post.timers = [running] ∧
          running.handle = handle := by
        simpa [timer, List.map_eq_singleton_iff] using held
      refine ⟨⟨?_, ?_, ?_⟩, ?_⟩
      all_goals
        simp [MonitorPost.exit, carryOutAll, Monitor.exit, Monitor.disarm, inScope, timer,
          carryOut, sole, same, decidedSince]

section AtRest

variable (rest : post.AtRest)

include rest

theorem AtRest.progress_eq_self (now : Span) (progress : Progress) :
    post.progress now progress = post := by
  have idle : post.monitor.progress progress = (post.monitor, []) := by
    unfold Monitor.progress
    cases post.monitor.reading? progress <;> simp [rest.outside]
  simp [MonitorPost.progress, carryOutAll, idle]

theorem AtRest.exit_eq_self (now : Span) : post.exit now = post := by
  have idle : post.monitor.exit = (post.monitor, []) := by simp [Monitor.exit, rest.outside]
  simp [MonitorPost.exit, carryOutAll, idle]

theorem AtRest.timerTurn_eq_self (now : Span) (handle : Nat) :
    post.timerTurn now handle = post := by
  simp [MonitorPost.timerTurn, rest.timers]

end AtRest

theorem AtRest.of_leaves {after : MonitorPost} (rest : post.AtRest)
    (leaves : LeavesMonitor post after) : after.AtRest := by
  refine ⟨?_, ?_, ?_⟩
  · exact leaves.monitor ▸ rest.outside
  · exact leaves.monitor ▸ rest.timer
  · exact leaves.timers ▸ rest.timers

/-- Outside a scope a notification or a turn changes nothing that counts. -/
theorem AtRest.step (rest : post.AtRest) (instant : Span) {move : Move}
    (outside : move.isCall = true → ∃ progress, move = .progress progress) :
    (post.step instant move).AtRest ∧ decidedSince post (post.step instant move) = [] := by
  match move, outside with
  | .turn (.timer handle), _ =>
      have unmoved : post.step instant (.turn (.timer handle)) = post :=
        rest.timerTurn_eq_self instant handle
      rw [unmoved]
      exact ⟨rest, (LeavesMonitor.refl post).decidedSince_eq_nil⟩
  | .turn (.escalation index), _ =>
      have leaves := LeavesMonitor.escalationTurn post instant index
      exact ⟨rest.of_leaves leaves, leaves.decidedSince_eq_nil⟩
  | .progress progress, _ =>
      have unmoved : post.step instant (.progress progress) = post :=
        rest.progress_eq_self instant progress
      rw [unmoved]
      exact ⟨rest, (LeavesMonitor.refl post).decidedSince_eq_nil⟩
  | .enter, outside => simp [Move.isCall] at outside
  | .exit, outside => simp [Move.isCall] at outside
  | .turn (.follower job), outside => simp [Move.isCall] at outside

end MonitorPost

end PlanSupervision
