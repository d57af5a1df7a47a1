import PlanSupervision.Proofs.Monitor.Conduct
import PlanSupervision.Proofs.Monitor.Timeline

/-!
What follows an escalation. It is carried out by a task of its own, which neither the end of
the scope nor a later scope stops: after an exit the escalations under way go on to do what they
still owe. A stuck escalation stops the timer of its scope until the task is next seen to wait
for beam.
-/

namespace PlanSupervision.MonitorPost

variable {origin post : MonitorPost}

/-- Until a scope is entered nothing is decided and only what is owed can be done. -/
theorem AtRest.settles_kept (origin : MonitorPost) :
    KeptOutside fun post => post.AtRest ∧ ∃ done, Settles origin post done [] := by
  constructor
  · rintro post now notification ⟨rest, settles⟩
    rw [rest.progress_eq_self now notification]
    exact ⟨rest, settles⟩
  · rintro post now ⟨rest, settles⟩
    rw [rest.exit_eq_self now]
    exact ⟨rest, settles⟩
  · rintro post now handle ⟨rest, settles⟩
    rw [rest.timerTurn_eq_self now handle]
    exact ⟨rest, settles⟩
  · rintro post now index ⟨rest, done, settles⟩
    obtain ⟨more, advanced, _⟩ := post.advanceEscalation_settles now index
    exact ⟨rest.of_leaves (.advanceEscalation post now index), _, settles.trans advanced⟩
  · rintro before after aside ⟨rest, done, settles⟩
    refine ⟨rest.of_leaves aside.leaves, _, settles.trans (.of_reports aside.reports)⟩

theorem AtRest.run_settles (rest : post.AtRest) {later : History} (stays : post.StaysOut later) :
    (post.run later).AtRest ∧ ∃ done, Settles post (post.run later) done [] :=
  (AtRest.settles_kept post).run stays ⟨rest, [], .refl post⟩

/-- What an escalation owes it can do, although no scope is entered. -/
theorem exists_staysOut_does (owing : post.owed ≠ []) :
    ∃ later done, post.StaysOut later ∧ Does post (post.run later) done ∧ done ≠ [] := by
  obtain ⟨duty, member⟩ := List.exists_mem_of_ne_nil _ owing
  obtain ⟨course, known, owes⟩ := List.mem_flatMap.mp member
  obtain ⟨index, found⟩ := List.mem_iff_getElem?.mp known
  obtain ⟨done, settles, does⟩ := post.escalationTurn_settles course.stage.due index
  refine ⟨[(course.stage.due, .turn (.escalation index))], done, ⟨id, trivial⟩,
    settles.does, ?_⟩
  exact does course found (Nat.le_refl _) (List.ne_nil_of_mem owes)

/-- After a scope was left, whatever went on before, and until one is entered again: the monitor
is idle and decides no escalation, but the escalations under way go on. What they still owe at
that point (the notice to the operators, the cancellation of the task, the alert) is all that is
done later, and nothing is done later only if they owe nothing. -/
theorem done_outside_scope (rest : origin.AtRest) (earlier : History)
    (outside : (origin.run earlier).monitor.inScope = false) :
    let left := origin.run earlier
    (∀ later, left.StaysOut later →
        (left.run later).monitor.phase = .idle ∧ decidedSince left (left.run later) = [] ∧
          ∃ done, Does left (left.run later) done ∧
            (done ++ (left.run later).owed).Perm left.owed) ∧
      ((∀ later, left.StaysOut later → Does left (left.run later) []) ↔ left.owed = []) := by
  intro left
  have restLeft : left.AtRest := (rest.run_steady earlier).atRest outside
  have during : ∀ later, left.StaysOut later →
      (left.run later).monitor.phase = .idle ∧ decidedSince left (left.run later) = [] ∧
        ∃ done, Does left (left.run later) done ∧
          (done ++ (left.run later).owed).Perm left.owed := by
    intro later stays
    obtain ⟨stillRest, done, settles⟩ := restLeft.run_settles stays
    refine ⟨by simp [Monitor.phase, stillRest.timer], settles.decidedSince_eq, done,
      settles.does, ?_⟩
    simpa using settles.left
  refine ⟨during, ?_, ?_⟩
  · intro nothing
    by_contra owing
    obtain ⟨later, done, stays, does, some⟩ := exists_staysOut_does owing
    exact some (does.unique (nothing later stays))
  · intro settled later stays
    obtain ⟨_, _, done, does, left⟩ := during later stays
    rw [settled, List.perm_nil, List.append_eq_nil_iff] at left
    rwa [left.1] at does

/-- A post whose service takes 100 milliseconds to cancel a task. -/
def slowPost : MonitorPost := { quietPost with cancelService := fun _ => (.ofMillis 100, .ok ()) }

/-- The task is given up after 250 milliseconds, and the scope ends before it is cancelled. -/
def exitWhileCancelling : History :=
  [(0, .enter), (0, .turn (.timer 1)), (.ofMillis 250, .turn (.timer 1)),
    (.ofMillis 250, .turn (.escalation 0)), (.ofMillis 300, .exit)]

/-- After the scope nothing but one alert is owed. -/
theorem one_alert_owed :
    (∀ later, (slowPost.run exitWhileCancelling).StaysOut later →
        ∃ done, Does (slowPost.run exitWhileCancelling)
            ((slowPost.run exitWhileCancelling).run later) done ∧
          (done ++ ((slowPost.run exitWhileCancelling).run later).owed).Perm [.alert]) ∧
      ¬ ∀ later, (slowPost.run exitWhileCancelling).StaysOut later →
        Does (slowPost.run exitWhileCancelling)
          ((slowPost.run exitWhileCancelling).run later) [] := by
  have rest : slowPost.AtRest := ⟨rfl, rfl, rfl⟩
  have owed : (slowPost.run exitWhileCancelling).owed = [.alert] := by decide +kernel
  obtain ⟨during, nothing⟩ := done_outside_scope rest exitWhileCancelling (by decide +kernel)
  rw [owed] at nothing
  constructor
  · intro later stays
    rw [← owed]
    exact (during later stays).2.2
  · intro silent
    exact absurd (nothing.mp silent) (List.cons_ne_nil _ _)

/-- The alert is raised 50 milliseconds after the scope was left. -/
theorem alert_after_exit :
    let left := slowPost.run exitWhileCancelling
    let later : History := [(.ofMillis 350, .turn (.escalation 0))]
    slowPost.AtRest ∧ left.monitor.inScope = false ∧ left.StaysOut later ∧
      Does left (left.run later) [.alert] := by
  intro left later
  refine ⟨⟨rfl, rfl, rfl⟩, by decide +kernel, ⟨id, trivial⟩, ?_⟩
  exact ⟨[(.ofMillis 350, .alertRaised (slowPost.monitor.alert .stuck))], rfl, rfl⟩

/-- In every history the duties that are done, and those that are still owed at its end, are
those owed before it and those of the escalations that it decides. -/
theorem settles_kept (origin : MonitorPost) :
    Kept fun post => ∃ done decided, Settles origin post done decided := by
  have carries : ∀ {post : MonitorPost} (now : Span) (step : Monitor × List MonitorEffect),
      (∀ effect ∈ step.2, effect.isQuiet = true) →
        (∃ done decided, Settles origin post done decided) →
          ∃ done decided, Settles origin (post.carryOutAll now step) done decided := by
    rintro post now step quiet ⟨done, decided, settles⟩
    obtain ⟨further, carried⟩ := post.carryOutAll_settles now step quiet
    exact ⟨_, _, settles.trans carried⟩
  constructor
  · constructor
    · intro post now notification settles
      exact carries now _ (post.monitor.isQuiet_of_mem_progress notification) settles
    · intro post now settles
      exact carries now _ post.monitor.isQuiet_of_mem_exit settles
    · intro post now handle settles
      unfold MonitorPost.timerTurn
      split
      · exact settles
      · obtain ⟨done, decided, settles⟩ := settles
        exact ⟨_, _, settles.trans (.of_reports ⟨rfl, rfl, .of_journal_eq rfl⟩)⟩
      · rename_i generation _ _
        split
        · apply carries now _ (post.monitor.isQuiet_of_mem_expire generation now)
          obtain ⟨done, decided, settles⟩ := settles
          exact ⟨_, _, settles.trans (.of_reports ⟨rfl, rfl, .of_journal_eq rfl⟩)⟩
        · exact settles
    · rintro post now index ⟨done, decided, settles⟩
      obtain ⟨more, advanced, _⟩ := post.advanceEscalation_settles now index
      exact ⟨_, _, settles.trans advanced⟩
    · rintro before after aside ⟨done, decided, settles⟩
      exact ⟨_, _, settles.trans (.of_reports aside.reports)⟩
  · intro post now settles
    exact carries now _ (post.monitor.isQuiet_of_mem_enter now) settles

theorem run_settles (post : MonitorPost) (history : History) :
    ∃ done decided, Settles post (post.run history) done decided :=
  (settles_kept post).run history ⟨[], [], .refl post⟩

/-- Only a stuck escalation cancels the task, and it does so once. -/
theorem count_cancellation (attached : Bool) (decided : List Escalation) :
    (decided.flatMap (Escalation.duties attached)).count .cancellation =
      decided.count .stuck := by
  induction decided with
  | nil => rfl
  | cons escalation rest inductionHypothesis =>
      rw [List.flatMap_cons, List.count_append, inductionHypothesis]
      cases escalation <;> cases attached <;> simp [Escalation.duties, Nat.add_comm]

theorem Settles.cancellations {before after : MonitorPost} {done : List Duty}
    {decided : List Escalation} (settles : Settles before after done decided) :
    done.count .cancellation ≤ before.owed.count .cancellation + decided.count .stuck := by
  have left := settles.left.count_eq .cancellation
  rw [List.count_append, List.count_append, count_cancellation] at left
  omega

/-- Inside a scope it is known when it was entered. -/
def Dated (post : MonitorPost) : Prop := post.monitor.inScope = true → post.monitor.started ≠ none

theorem dated_kept : Kept Dated := by
  constructor
  · constructor
    · intro post now notification dated
      rcases MonitorRace.progress_cases post.monitor notification with
        unmoved | ⟨waiting, event, inScope, armed⟩
      · rw [Dated, MonitorPost.progress, carryOutAll_monitor, unmoved]
        exact dated
      · rw [Dated, MonitorPost.progress, carryOutAll_monitor, armed]
        exact fun _ => dated inScope
    · intro post now dated
      rw [Dated, MonitorPost.exit, carryOutAll_monitor, Monitor.exit]
      split
      · exact fun inScope => absurd inScope Bool.false_ne_true
      · exact dated
    · intro post now handle dated
      unfold MonitorPost.timerTurn
      split
      · exact dated
      · exact dated
      · split
        · rw [Dated, carryOutAll_monitor, Monitor.expire]
          split
          · exact dated
          · split <;> exact dated
        · exact dated
    · intro post now index dated
      rw [Dated, (LeavesMonitor.advanceEscalation post now index).monitor]
      exact dated
    · intro before after aside dated
      rw [Dated, aside.monitor]
      exact dated
  · intro post now dated
    rw [Dated, MonitorPost.enter, carryOutAll_monitor]
    exact fun _ => Option.some_ne_none now

/-- A timer has the task given up only inside a scope, when it does not wait, and is not followed
by another timer. -/
theorem timerTurn_of_stuck {now : Span} {handle : Nat}
    (stuck : decidedSince post (post.timerTurn now handle) = [.stuck]) :
    post.monitor.inScope = true ∧ post.monitor.waiting = false ∧
      (post.timerTurn now handle).monitor = { post.monitor with timer := none } := by
  unfold MonitorPost.timerTurn at stuck ⊢
  split at stuck
  · simp [decidedSince] at stuck
  · simp [decidedSince] at stuck
  · split at stuck
    · rename_i generation _ _ due
      rw [if_pos due, carryOutAll_monitor]
      by_cases counts : post.monitor.inScope = true ∧ post.monitor.generation = generation
      · obtain ⟨inScope, rfl⟩ := counts
        cases wait : post.monitor.waiting with
        | true =>
            simp [decidedSince, carryOutAll, carryOut, Monitor.expire, Monitor.startTimer, inScope,
              wait, wake] at stuck
        | false =>
            refine ⟨inScope, rfl, ?_⟩
            simp [Monitor.expire, inScope, wait]
      · have ignored : post.monitor.expire generation now = (post.monitor, []) := by
          simp only [Monitor.expire]
          split
          · rfl
          · rename_i newest
            simp only [Bool.or_eq_true, Bool.not_eq_true', bne_iff_ne, not_or] at newest
            exact absurd ⟨by simpa using newest.1, not_not.mp newest.2⟩ counts
        rw [ignored] at stuck
        simp [decidedSince, carryOutAll] at stuck
    · simp [decidedSince] at stuck

theorem AtRest.unguarded_of_stuck (rest : origin.AtRest) (earlier : History) {now : Span}
    {handle : Nat}
    (stuck : decidedSince (origin.run earlier)
      ((origin.run earlier).timerTurn now handle) = [.stuck]) :
    ∃ entered, Unguarded ((origin.run earlier).timerTurn now handle).monitor entered false
      ((origin.run earlier).timerTurn now handle) := by
  obtain ⟨inScope, wait, stopped⟩ := timerTurn_of_stuck stuck
  have dated : (origin.run earlier).Dated := by
    apply dated_kept.run earlier
    intro entered
    rw [rest.outside] at entered
    cases entered
  obtain ⟨entered, started⟩ := Option.ne_none_iff_exists'.mp (dated inScope)
  have steady := steady_kept.timerTurn now handle (rest.run_steady earlier)
  have unarmed : ((origin.run earlier).timerTurn now handle).monitor.timer = none := by
    rw [stopped]
  refine ⟨entered, ⟨?_, ?_, ?_, .refl _⟩, unarmed, steady.timers_eq_nil unarmed⟩
  · rw [stopped, inScope]
  · rw [stopped, wait]
  · rw [stopped, started]

variable {monitor : Monitor} {entered : Span}

/-- The next timer is started by the first notification that the task waits for beam. -/
theorem Unguarded.idle_iff (unguarded : Unguarded monitor entered false post) {later : History}
    (inside : ∀ entry ∈ later,
      entry.2.isCall = true → ∃ progress, entry.2 = .progress progress) :
    (∀ passed, passed <+: later →
        (post.run passed).monitor.phase = .idle ∧ (post.run passed).timers = []) ↔
      ∀ entry ∈ later, ∀ progress, entry.2 = .progress progress →
        monitor.reading? progress ≠ some true := by
  induction later generalizing post with
  | nil =>
      refine ⟨fun _ entry member => absurd member List.not_mem_nil, ?_⟩
      intro _ passed shorter
      obtain rfl := List.prefix_nil.mp shorter
      exact ⟨by simp [Monitor.phase, unguarded.timer], unguarded.timers⟩
  | cons head rest inductionHypothesis =>
      obtain ⟨instant, move⟩ := head
      have insideHead := inside (instant, move) List.mem_cons_self
      have insideRest : ∀ entry ∈ rest,
          entry.2.isCall = true → ∃ progress, entry.2 = .progress progress :=
        fun entry member => inside entry (List.mem_cons_of_mem _ member)
      by_cases waits : ∃ progress, move = .progress progress ∧
          monitor.reading? progress = some true
      · obtain ⟨progress, rfl, read⟩ := waits
        constructor
        · intro idle
          have armed := (unguarded.toWithin.progress_changes instant read unguarded.held).1
          have stillIdle := (idle [(instant, .progress progress)] (by simp)).1
          have stepped : post.run [(instant, .progress progress)] =
              post.progress instant progress := rfl
          rw [stepped] at stillIdle
          simp [Monitor.phase, armed.timer, armed.waiting] at stillIdle
        · intro never
          exact absurd read (never _ List.mem_cons_self progress rfl)
      · have repeats : ∀ progress, move = .progress progress →
            ∀ reading ∈ monitor.reading? progress, reading = false := by
          intro progress notified
          apply Monitor.repeats_of_unchanged
          intro change
          exact waits ⟨progress, notified, change⟩
        have stays :=
          inductionHypothesis (unguarded.stays instant insideHead repeats).1 insideRest
        constructor
        · intro idle entry member
          rcases List.mem_cons.mp member with rfl | later
          · intro progress notified read
            exact waits ⟨progress, notified, read⟩
          · refine stays.mp ?_ entry later
            intro passed shorter
            exact idle ((instant, move) :: passed) (by simpa using shorter)
        · intro never passed shorter
          cases passed with
          | nil => exact ⟨by simp [Monitor.phase, unguarded.timer], unguarded.timers⟩
          | cons first passed =>
              obtain ⟨rfl, shorterRest⟩ := List.cons_prefix_cons.mp shorter
              refine stays.mpr ?_ passed shorterRest
              exact fun entry member => never entry (List.mem_cons_of_mem _ member)

/-- Without such a notification nothing is decided any more. -/
theorem Unguarded.run_settles (unguarded : Unguarded monitor entered false post)
    {later : History} (inside : ∀ entry ∈ later,
      entry.2.isCall = true → ∃ progress, entry.2 = .progress progress)
    (never : ∀ entry ∈ later, ∀ progress, entry.2 = .progress progress →
      monitor.reading? progress ≠ some true) :
    ∃ done, Settles post (post.run later) done [] := by
  induction later generalizing post with
  | nil => exact ⟨[], .refl post⟩
  | cons head rest inductionHypothesis =>
      obtain ⟨instant, move⟩ := head
      obtain ⟨stays, undecided⟩ := unguarded.stays instant
        (inside (instant, move) List.mem_cons_self) fun progress notified =>
          Monitor.repeats_of_unchanged (never _ List.mem_cons_self progress notified)
      obtain ⟨done, decided, stepped⟩ :=
        (settles_kept post).step instant move ⟨[], [], .refl post⟩
      obtain ⟨more, settles⟩ := inductionHypothesis stays
        (fun entry member => inside entry (List.mem_cons_of_mem _ member))
        (fun entry member => never entry (List.mem_cons_of_mem _ member))
      have nothing : decided = [] := stepped.decidedSince_eq.symm.trans undecided
      subst nothing
      exact ⟨_, stepped.trans settles⟩

/-- A stuck escalation is not final for its scope. From the instant at which a timer has the task
given up, the monitor stays idle without a timer exactly as long as no notification says that
the task waits for beam. In that case no further escalation is decided in the scope, and over
the whole scope the cancellation of the task is requested at most once on its account; the
requests that escalations of earlier scopes still owe come on top. -/
theorem stuck_final_iff (rest : origin.AtRest) (earlier : History) (entry : Span)
    {scope later : History} {now : Span} {handle : Nat}
    (inside : ∀ entry ∈ later,
      entry.2.isCall = true → ∃ progress, entry.2 = .progress progress)
    (first : .stuck ∉ decidedSince ((origin.run earlier).enter entry)
      (((origin.run earlier).enter entry).run scope))
    (stuck : decidedSince (((origin.run earlier).enter entry).run scope)
      ((((origin.run earlier).enter entry).run scope).timerTurn now handle) = [.stuck]) :
    let begun := (origin.run earlier).enter entry
    let gaveUp := (begun.run scope).timerTurn now handle
    let never := ∀ entry ∈ later, ∀ progress, entry.2 = .progress progress →
      gaveUp.monitor.reading? progress ≠ some true
    ((∀ passed, passed <+: later →
        (gaveUp.run passed).monitor.phase = .idle ∧ (gaveUp.run passed).timers = []) ↔ never) ∧
      (never → decidedSince gaveUp (gaveUp.run later) = [] ∧
        ∃ done, Does begun (gaveUp.run later) done ∧
          done.count .cancellation ≤ begun.owed.count .cancellation + 1) := by
  intro begun gaveUp never
  have unfolded : begun.run scope = origin.run (earlier ++ (entry, .enter) :: scope) := by
    rw [run_append]
    rfl
  have unguarded : ∃ entered, Unguarded gaveUp.monitor entered false gaveUp := by
    change decidedSince (begun.run scope) ((begun.run scope).timerTurn now handle) = _ at stuck
    rw [unfolded] at stuck
    simp only [gaveUp, unfolded]
    exact rest.unguarded_of_stuck _ stuck
  obtain ⟨entered, unguarded⟩ := unguarded
  refine ⟨unguarded.idle_iff inside, ?_⟩
  intro silent
  obtain ⟨done, decided, during⟩ := run_settles begun scope
  obtain ⟨more, further, expired⟩ := (settles_kept (begun.run scope)).timerTurn now handle
    ⟨[], [], .refl _⟩
  obtain ⟨rest, after⟩ := unguarded.run_settles inside silent
  refine ⟨after.decidedSince_eq, _, ((during.trans expired).trans after).does, ?_⟩
  have requested := ((during.trans expired).trans after).cancellations
  have once : (decided ++ further ++ []).count Escalation.stuck = 1 := by
    rw [← during.decidedSince_eq, ← expired.decidedSince_eq, stuck, List.append_nil,
      List.count_append, List.count_eq_zero_of_not_mem first]
    rfl
  rwa [once] at requested

def beamBack : Progress :=
  ⟨"scan", .ofList [("beam", ⟨"beam", ⟨0x3FF0000000000000⟩, ⟨0⟩, ⟨0x3FF0000000000000⟩⟩)]⟩

/-- A task that was given up and then is only seen to go on is not given up again. -/
theorem stuck_once :
    let gaveUp := quietPost.run
      [(0, .enter), (0, .turn (.timer 1)), (.ofMillis 250, .turn (.timer 1))]
    let later : History :=
      [(.ofMillis 250, .turn (.escalation 0)), (.ofMillis 300, .progress beamBack)]
    (∀ passed, passed <+: later →
        (gaveUp.run passed).monitor.phase = .idle ∧ (gaveUp.run passed).timers = []) ∧
      decidedSince gaveUp (gaveUp.run later) = [] ∧
        ∃ done, Does (quietPost.enter 0) (gaveUp.run later) done ∧
          done.count .cancellation ≤ 1 := by
  intro gaveUp later
  have rest : quietPost.AtRest := ⟨rfl, rfl, rfl⟩
  have inside : ∀ entry ∈ later,
      entry.2.isCall = true → ∃ progress, entry.2 = .progress progress := by
    simp [later, Move.isCall]
  have final := @stuck_final_iff quietPost rest [] 0 [(0, .turn (.timer 1))] later
    (.ofMillis 250) 1 inside (by decide +kernel) (by decide +kernel)
  have never : ∀ entry ∈ later, ∀ progress, entry.2 = .progress progress →
      gaveUp.monitor.reading? progress ≠ some true := by
    intro entry member progress notified
    have isBack : progress = beamBack := by
      rcases List.mem_pair.mp member with rfl | rfl
      · cases notified
      · cases notified
        rfl
    rw [isBack]
    decide +kernel
  exact ⟨final.1.mpr never, final.2 never⟩

/-- The task is seen to wait for beam and to go on after it was given up. It is given up again
in the same scope. -/
theorem stuck_again :
    let history : History :=
      [(0, .enter), (0, .turn (.timer 1)), (.ofMillis 250, .turn (.timer 1)),
        (.ofMillis 250, .turn (.escalation 0)), (.ofMillis 250, .progress beamLost),
        (.ofMillis 250, .progress beamBack), (.ofMillis 250, .turn (.timer 3)),
        (.ofMillis 500, .turn (.timer 3)), (.ofMillis 500, .turn (.escalation 1))]
    quietPost.AtRest ∧
      quietPost.decisions history = [(.ofMillis 250, .stuck), (.ofMillis 500, .stuck)] ∧
      Does quietPost (quietPost.run history) [.cancellation, .alert, .cancellation, .alert] := by
  intro history
  refine ⟨⟨rfl, rfl, rfl⟩, by decide +kernel, (quietPost.run history).journal, ?_⟩
  exact ⟨(List.nil_append _).symm, by decide +kernel⟩

end PlanSupervision.MonitorPost
