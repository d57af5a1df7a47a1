import PlanSupervision.Proofs.Monitor.History

/-!
What a post announces of its scopes. Entering a scope publishes one event, leaving it another;
no other step of a post publishes either of them or leaves a scope, and none of them touches
what the post keeps about its followers and their stream.
-/

namespace PlanSupervision

/-- Does an event announce that a scope was entered or left? -/
def EventKind.isScope : EventKind → Bool
  | monitorStarted | monitorStopped => true
  | _ => false

def Entry.scopeEvent? : Entry → Option EventKind
  | published event => if event.kind.isScope then some event.kind else none
  | _ => none

theorem EventKind.isScope_of_isErrand {kind : EventKind} (own : kind.isErrand = true) :
    kind.isScope = false := by
  cases kind with
  | monitorStarted | monitorStopped => cases own
  | _ => rfl

theorem Entry.scopeEvent?_of_isErrand {entry : Entry} (own : entry.isErrand = true) :
    entry.scopeEvent? = none := by
  cases entry with
  | published => cases own
  | _ => rfl

def MonitorEffect.scopeEvent? : MonitorEffect → Option EventKind
  | publish event => if event.kind.isScope then some event.kind else none
  | startTimer _ _ | stopTimer _ | escalate _ => none

namespace Monitor

variable (monitor : Monitor)

theorem scopeEvents_disarm : monitor.disarm.2.filterMap MonitorEffect.scopeEvent? = [] := by
  cases held : monitor.timer <;> simp [disarm, held, MonitorEffect.scopeEvent?]

theorem scopeEvents_arm : monitor.arm.2.filterMap MonitorEffect.scopeEvent? = [] := by
  simp only [arm, List.filterMap_append, scopeEvents_disarm, List.nil_append]
  rfl

theorem scopeEvents_enter (now : Span) :
    (monitor.enter now).2.filterMap MonitorEffect.scopeEvent? = [.monitorStarted] := by
  simp only [enter, List.filterMap_append, scopeEvents_arm, List.nil_append]
  rfl

theorem scopeEvents_exit (inScope : monitor.inScope = true) :
    monitor.exit.2.filterMap MonitorEffect.scopeEvent? = [.monitorStopped] := by
  simp only [exit, inScope, if_true, List.filterMap_append, scopeEvents_disarm, List.nil_append]
  rfl

/-- A notification neither enters nor leaves a scope. -/
theorem progress_keepsScope (progress : Progress) :
    (monitor.progress progress).1.inScope = monitor.inScope ∧
      (monitor.progress progress).1.taskId = monitor.taskId ∧
      (monitor.progress progress).2.filterMap MonitorEffect.scopeEvent? = [] := by
  unfold Monitor.progress
  split
  · exact ⟨rfl, rfl, rfl⟩
  · split
    · exact ⟨rfl, rfl, rfl⟩
    · refine ⟨rfl, rfl, ?_⟩
      simp only [List.filterMap_append, scopeEvents_arm, List.nil_append]
      rfl

theorem expire_keepsScope (generation : UInt64) (now : Span) :
    (monitor.expire generation now).1.inScope = monitor.inScope ∧
      (monitor.expire generation now).1.taskId = monitor.taskId ∧
      (monitor.expire generation now).2.filterMap MonitorEffect.scopeEvent? = [] := by
  unfold Monitor.expire
  split
  · exact ⟨rfl, rfl, rfl⟩
  · split <;> exact ⟨rfl, rfl, rfl⟩

end Monitor

namespace MonitorPost

/-- What a post keeps about its followers, their stream and the turns that they gave up. -/
structure Desk where
  remote : Broadcast RemoteEvent
  followers : List Follower
  listening : List Nat
  finished : List (Nat × Option FollowResult)
  rested : List MonitorTask

def desk (post : MonitorPost) : Desk :=
  ⟨post.remote, post.followers, post.listening, post.finished, post.rested⟩

def scopeEvents (post : MonitorPost) : List EventKind :=
  post.journal.filterMap fun entry => entry.2.scopeEvent?

/-- A step that announces this of scopes, if a bus is attached, and leaves the task and the
desk as they are. -/
structure Announces (before after : MonitorPost) (kinds : List EventKind) : Prop where
  taskId : after.monitor.taskId = before.monitor.taskId
  desk : after.desk = before.desk
  attached : before.bus.isSome → after.bus.isSome
  events : before.bus.isSome → after.scopeEvents = before.scopeEvents ++ kinds

namespace Announces

variable {before after last : MonitorPost} {kinds more : List EventKind}

theorem of_journal_eq (monitor : after.monitor.taskId = before.monitor.taskId)
    (desk : after.desk = before.desk) (bus : before.bus.isSome → after.bus.isSome)
    (journal : after.journal = before.journal) : Announces before after [] := by
  refine ⟨monitor, desk, bus, fun _ => ?_⟩
  rw [scopeEvents, journal, List.append_nil, scopeEvents]

theorem refl (post : MonitorPost) : Announces post post [] := of_journal_eq rfl rfl id rfl

theorem trans (first : Announces before after kinds) (second : Announces after last more) :
    Announces before last (kinds ++ more) := by
  refine ⟨second.taskId.trans first.taskId, second.desk.trans first.desk,
    fun attached => second.attached (first.attached attached), fun attached => ?_⟩
  rw [second.events (first.attached attached), first.events attached, List.append_assoc]

/-- Two steps of which neither announces anything. -/
theorem andThen (first : Announces before after []) (second : Announces after last []) :
    Announces before last [] := first.trans second

theorem writeAll (post : MonitorPost) (now : Span) {entries : List Entry}
    (silent : ∀ entry ∈ entries, entry.scopeEvent? = none) :
    Announces post { post with journal := post.journal.write now entries } [] := by
  refine ⟨rfl, rfl, id, fun _ => ?_⟩
  simp only [scopeEvents, Journal.write, List.filterMap_append, List.filterMap_map]
  congr 1
  exact List.filterMap_eq_nil_iff.mpr silent

theorem write (post : MonitorPost) (now : Span) (entry : Entry)
    (silent : entry.scopeEvent? = none) : Announces post (post.write now entry) [] := by
  apply writeAll post now
  simpa using silent

theorem publish (post : MonitorPost) (now : Span) (event : Event) :
    Announces post (post.publish now event)
      (if event.kind.isScope then [event.kind] else []) := by
  cases bus : post.bus with
  | none =>
      simp only [MonitorPost.publish, bus]
      exact ⟨rfl, rfl, id, by simp [bus]⟩
  | some channel =>
      simp only [MonitorPost.publish, bus]
      refine ⟨rfl, rfl, fun _ => rfl, fun _ => ?_⟩
      simp only [scopeEvents, MonitorPost.write, Journal.write, List.filterMap_append]
      cases scope : event.kind.isScope <;> simp [Entry.scopeEvent?, scope]

theorem publish_other (post : MonitorPost) (now : Span) {event : Event}
    (other : event.kind.isScope = false) : Announces post (post.publish now event) [] := by
  simpa [other] using publish post now event

/-- Escalations announce nothing of scopes. -/
theorem of_errands (errands : Errands before after) : Announces before after [] := by
  induction errands with
  | refl post => exact refl post
  | trans _ _ first second => exact first.andThen second
  | write post now own => exact write post now _ (Entry.scopeEvent?_of_isErrand own)
  | publish post now own => exact publish_other post now (EventKind.isScope_of_isErrand own)
  | count post cancelCalls alertCalls => exact of_journal_eq rfl rfl id rfl
  | setStage post index stage => exact of_journal_eq rfl rfl id rfl

theorem carryOut (post : MonitorPost) (now : Span) (effect : MonitorEffect) :
    Announces post (post.carryOut now effect) effect.scopeEvent?.toList := by
  cases effect with
  | startTimer handle generation => exact of_journal_eq rfl rfl id rfl
  | stopTimer handle => exact of_journal_eq rfl rfl id rfl
  | publish event =>
      have published := publish post now event
      change Announces post (post.publish now event) _
      cases scope : event.kind.isScope with
      | true => simpa [MonitorEffect.scopeEvent?, scope] using published
      | false => simpa [MonitorEffect.scopeEvent?, scope] using published
  | escalate escalation => exact of_journal_eq rfl rfl id rfl

theorem carryOutEach (post : MonitorPost) (now : Span) (effects : List MonitorEffect) :
    Announces post (effects.foldl (MonitorPost.carryOut now) post)
      (effects.filterMap MonitorEffect.scopeEvent?) := by
  induction effects generalizing post with
  | nil => exact refl post
  | cons effect rest inductionHypothesis =>
      have carried := (carryOut post now effect).trans (inductionHypothesis _)
      cases kind : effect.scopeEvent? with
      | none =>
          rw [List.filterMap_cons_none kind]
          rwa [kind, Option.toList_none, List.nil_append] at carried
      | some scope =>
          rw [List.filterMap_cons_some kind]
          rwa [kind, Option.toList_some, List.singleton_append] at carried

theorem carryOutAll (post : MonitorPost) (now : Span) (step : Monitor × List MonitorEffect)
    (sameTask : step.1.taskId = post.monitor.taskId) :
    Announces post (post.carryOutAll now step)
      (step.2.filterMap MonitorEffect.scopeEvent?) := by
  have moved : Announces post { post with monitor := step.1 } [] :=
    of_journal_eq sameTask rfl id rfl
  exact moved.trans (carryOutEach _ now step.2)

theorem enter (post : MonitorPost) (now : Span) :
    Announces post (post.enter now) [.monitorStarted] := by
  have announces := carryOutAll post now (post.monitor.enter now) rfl
  rwa [Monitor.scopeEvents_enter] at announces

theorem exit (post : MonitorPost) (now : Span) (inScope : post.monitor.inScope = true) :
    Announces post (post.exit now) [.monitorStopped] := by
  have sameTask : post.monitor.exit.1.taskId = post.monitor.taskId := by
    unfold Monitor.exit
    split <;> rfl
  have announces := carryOutAll post now _ sameTask
  rwa [Monitor.scopeEvents_exit _ inScope] at announces

theorem progress (post : MonitorPost) (now : Span) (notification : Progress) :
    Announces post (post.progress now notification) [] := by
  obtain ⟨_, sameTask, silent⟩ := post.monitor.progress_keepsScope notification
  have announces := carryOutAll post now _ sameTask
  rwa [silent] at announces

theorem timerTurn (post : MonitorPost) (now : Span) (handle : Nat) :
    Announces post (post.timerTurn now handle) [] := by
  unfold MonitorPost.timerTurn
  split
  · exact refl post
  · exact of_journal_eq rfl rfl id rfl
  · rename_i generation _ _
    split
    · obtain ⟨_, sameTask, silent⟩ := post.monitor.expire_keepsScope generation now
      have stopped : Announces post
          { post with timers := post.timers.filter (·.handle != handle) } [] :=
        of_journal_eq rfl rfl id rfl
      have announces := carryOutAll
        { post with timers := post.timers.filter (·.handle != handle) } now _ sameTask
      rw [silent] at announces
      exact stopped.andThen announces
    · exact refl post

theorem attach (post : MonitorPost) (now : Span) (slots : Nat) :
    Announces post (post.attach now slots) [] := by
  cases bus : post.bus with
  | none =>
      simp only [MonitorPost.attach, bus]
      exact of_journal_eq rfl rfl (fun _ => rfl) rfl
  | some channel =>
      simp only [MonitorPost.attach, bus]
      exact write post now _ rfl

end Announces

@[simp]
theorem progress_inScope (post : MonitorPost) (now : Span) (notification : Progress) :
    (post.progress now notification).monitor.inScope = post.monitor.inScope := by
  rw [MonitorPost.progress, carryOutAll_monitor]
  exact (post.monitor.progress_keepsScope notification).1

@[simp]
theorem timerTurn_inScope (post : MonitorPost) (now : Span) (handle : Nat) :
    (post.timerTurn now handle).monitor.inScope = post.monitor.inScope := by
  unfold timerTurn
  split
  · rfl
  · rfl
  · split
    · rw [carryOutAll_monitor]
      exact (post.monitor.expire_keepsScope _ now).1
    · rfl

@[simp]
theorem attach_inScope (post : MonitorPost) (now : Span) (slots : Nat) :
    (post.attach now slots).monitor.inScope = post.monitor.inScope := by
  unfold attach
  split <;> rfl

theorem enter_inScope (post : MonitorPost) (now : Span) :
    (post.enter now).monitor.inScope = true := by
  rw [MonitorPost.enter, carryOutAll_monitor]
  rfl

theorem exit_inScope (post : MonitorPost) (now : Span) :
    (post.exit now).monitor.inScope = false := by
  rw [MonitorPost.exit, carryOutAll_monitor]
  cases inScope : post.monitor.inScope <;> simp [Monitor.exit, inScope, Monitor.disarm]

end MonitorPost

end PlanSupervision
