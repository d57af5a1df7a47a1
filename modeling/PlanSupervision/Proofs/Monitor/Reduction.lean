import PlanSupervision.Proofs.Monitor.Classification
import PlanSupervision.Proofs.Monitor.Notices

/-!
A monitoring post and the history that remains when the notifications that idle are deleted. Either
history leads it through the same states at the same instants, and whatever the clock allows of the
one it allows of the other.
-/

namespace PlanSupervision

theorem Monitor.SameTask.trans {monitor middle origin : Monitor} (first : monitor.SameTask middle)
    (second : middle.SameTask origin) : monitor.SameTask origin :=
  ⟨first.taskId.trans second.taskId, first.statusName.trans second.statusName,
    first.timeout.trans second.timeout, first.metadata.trans second.metadata⟩

namespace MonitorPost

open Monitor

/-- The end of a timer changes neither the scope nor the classification in force. -/
theorem timerTurn_keeps (post : MonitorPost) (now : Span) (handle : Nat) :
    (post.timerTurn now handle).monitor.SameTask post.monitor ∧
      (post.timerTurn now handle).monitor.inScope = post.monitor.inScope ∧
      (post.timerTurn now handle).monitor.waiting = post.monitor.waiting := by
  have expired : ∀ generation, (post.monitor.expire generation now).1.SameTask post.monitor ∧
      (post.monitor.expire generation now).1.inScope = post.monitor.inScope ∧
      (post.monitor.expire generation now).1.waiting = post.monitor.waiting := by
    intro generation
    unfold Monitor.expire
    split
    · exact ⟨.refl _, rfl, rfl⟩
    · split <;> exact ⟨⟨rfl, rfl, rfl, rfl⟩, rfl, rfl⟩
  have kept : post.monitor.SameTask post.monitor ∧
      post.monitor.inScope = post.monitor.inScope ∧
      post.monitor.waiting = post.monitor.waiting := ⟨.refl _, rfl, rfl⟩
  unfold timerTurn
  split
  · exact kept
  · exact kept
  · split
    · simp only [carryOutAll_monitor]
      exact expired _
    · exact kept

/-- A post without followers in whose scope this classification is in force. -/
structure Tracks (origin : Monitor) (force : Option Bool) (post : MonitorPost) : Prop where
  inScope : post.monitor.inScope = force.isSome
  waiting : ∀ waiting ∈ force, post.monitor.waiting = waiting
  task : post.monitor.SameTask origin
  followers : post.followers = []

variable {origin : Monitor} {force : Option Bool} {post : MonitorPost}

theorem tracks_fresh (monitor : Monitor) (cancelService alertService : Service)
    (bus : Option (Broadcast Event)) (outside : monitor.inScope = false) :
    Tracks monitor none (fresh monitor cancelService alertService bus) :=
  ⟨outside, nofun, .refl monitor, rfl⟩

namespace Tracks

theorem of_leaves {after : MonitorPost} (tracks : Tracks origin force post)
    (monitor : after.monitor = post.monitor) (followers : after.followers = post.followers) :
    Tracks origin force after := by
  obtain ⟨inScope, waiting, task, none⟩ := tracks
  constructor
  · simp only [monitor, inScope]
  · simp only [monitor]
    exact waiting
  · simp only [monitor]
    exact task
  · simp only [followers, none]

theorem enter (tracks : Tracks origin force post) (now : Span) :
    Tracks origin (some false) (post.enter now) := by
  have entered : (post.enter now).monitor = (post.monitor.enter now).1 :=
    carryOutAll_monitor post now _
  constructor
  · simp only [entered]
    rfl
  · simp only [entered]
    exact fun waiting same => Option.some.inj same
  · simp only [entered]
    exact ⟨tracks.task.taskId, tracks.task.statusName, tracks.task.timeout, tracks.task.metadata⟩
  · exact (congrArg Outside.followers (Yields.enter post now).outside).trans tracks.followers

theorem exit (tracks : Tracks origin force post) (now : Span) :
    Tracks origin none (post.exit now) := by
  have left : (post.exit now).monitor = post.monitor.exit.1 := carryOutAll_monitor post now _
  have task : post.monitor.exit.1.SameTask post.monitor := by
    unfold Monitor.exit
    split <;> exact ⟨rfl, rfl, rfl, rfl⟩
  constructor
  · exact exit_inScope post now
  · nofun
  · simp only [left]
    exact task.trans tracks.task
  · exact (congrArg Outside.followers (Yields.exit post now).outside).trans tracks.followers

/-- Nothing changes at a notification that idles. -/
theorem progress_eq_self (tracks : Tracks origin force post) {notification : Progress}
    (idle : origin.idles force (.progress notification) = true) (now : Span) :
    post.progress now notification = post := by
  have repeats := (idles_progress_iff notification).mp idle
  have quiet : post.monitor.progress notification = (post.monitor, []) := by
    unfold Monitor.progress
    cases read : post.monitor.reading? notification with
    | none => rfl
    | some reading =>
        simp only [tracks.task.reading?_eq] at read
        rcases repeats reading read with none | same
        · simp [tracks.inScope, none]
        · simp [tracks.waiting reading same]
  simp only [MonitorPost.progress, quiet]
  rfl

theorem progress_of_change {waiting : Bool} (tracks : Tracks origin (some waiting) post)
    {notification : Progress} (read : origin.reading? notification = some (!waiting))
    (now : Span) :
    Tracks origin (some !waiting) (post.progress now notification) ∧
      Yields now post (post.progress now notification)
        [(post.monitor.event .beamWaitChanged).withReason (changeName !waiting)] [] := by
  simp only [← tracks.task.reading?_eq] at read
  have change : post.monitor.waiting ≠ !waiting := by
    simp [tracks.waiting waiting rfl]
  have inScope : post.monitor.inScope = true := tracks.inScope
  have moved := post.monitor.progress_of_change read inScope change
  have yields := Yields.carryOutAll post now (post.monitor.progress notification)
  obtain ⟨published, decided⟩ := post.monitor.effects_progress read inScope change
  simp only [published, decided] at yields
  have after : (post.progress now notification).monitor =
      { post.monitor with waiting := !waiting }.arm.1 := by
    simp only [MonitorPost.progress, carryOutAll_monitor, moved]
  refine ⟨⟨?_, ?_, ?_, ?_⟩, yields⟩
  · simp only [after]
    exact inScope
  · simp only [after]
    exact fun reading same => Option.some.inj same
  · simp only [after]
    exact ⟨tracks.task.taskId, tracks.task.statusName, tracks.task.timeout, tracks.task.metadata⟩
  · exact (congrArg Outside.followers yields.outside).trans tracks.followers

theorem timerTurn (tracks : Tracks origin force post) (now : Span) (handle : Nat) :
    Tracks origin force (post.timerTurn now handle) := by
  obtain ⟨decided, yields⟩ := Yields.timerTurn post now handle
  obtain ⟨task, inScope, waiting⟩ := timerTurn_keeps post now handle
  constructor
  · simp only [inScope, tracks.inScope]
  · simp only [waiting]
    exact tracks.waiting
  · exact task.trans tracks.task
  · exact (congrArg Outside.followers yields.outside).trans tracks.followers

theorem escalationTurn (tracks : Tracks origin force post) (now : Span) (index : Nat) :
    Tracks origin force (post.escalationTurn now index) := by
  have errands := Errands.escalationTurn post now index
  exact tracks.of_leaves errands.leaves.monitor
    (congrArg Desk.followers (Announces.of_errands errands).desk)

theorem followerTurn_eq_self (tracks : Tracks origin force post) (now : Span) (job : Nat) :
    post.followerTurn now job = post := by
  simp only [followerTurn, tracks.followers, List.getElem?_nil]

/-- A call changes the classification in force, and nothing else does. -/
theorem step (tracks : Tracks origin force post) (now : Span) (move : Move) :
    Tracks origin (move.call?.elim force (origin.inForce force)) (post.step now move) := by
  match move with
  | .enter => exact tracks.enter now
  | .exit => exact tracks.exit now
  | .turn (.timer handle) => exact tracks.timerTurn now handle
  | .turn (.escalation index) => exact tracks.escalationTurn now index
  | .turn (.follower job) =>
      have same : post.step now (.turn (.follower job)) = post :=
        tracks.followerTurn_eq_self now job
      simp only [same]
      exact tracks
  | .progress notification =>
      simp only [Move.call?, Option.elim_some]
      cases idle : origin.idles force (.progress notification) with
      | true =>
          simp only [inForce_of_idles idle, MonitorPost.step, tracks.progress_eq_self idle]
          exact tracks
      | false =>
          obtain ⟨waiting, rfl, read⟩ := (not_idles_progress_iff notification).mp idle
          simp only [inForce, Option.map_some, read, Option.getD_some]
          exact (tracks.progress_of_change read now).1

theorem step_of_idles (tracks : Tracks origin force post) (now : Span) {move : Move}
    {call : Call} (called : move.call? = some call) (idle : origin.idles force call = true) :
    post.step now move = post := by
  cases move with
  | turn task => cases called
  | enter | exit =>
      obtain rfl := Option.some.inj called
      cases idle
  | progress notification =>
      obtain rfl := Option.some.inj called
      exact tracks.progress_eq_self idle now

/-- The notifications that idle can be deleted. -/
theorem run_essential (tracks : Tracks origin force post) (history : History) :
    post.run (origin.essential Move.call? force history) = post.run history ∧
      post.decisions (origin.essential Move.call? force history) = post.decisions history := by
  induction history generalizing post force with
  | nil => exact ⟨rfl, rfl⟩
  | cons entry later inductionHypothesis =>
      obtain ⟨instant, move⟩ := entry
      have onward := inductionHypothesis (tracks.step instant move)
      cases called : move.call? with
      | none =>
          simp only [called, Option.elim_none] at onward
          simp only [essential_of_silent called, run_cons, decisions, onward]
          exact ⟨trivial, trivial⟩
      | some call =>
          simp only [called, Option.elim_some] at onward
          cases idle : origin.idles force call with
          | true =>
              have same := tracks.step_of_idles instant called idle
              simp only [inForce_of_idles idle, same] at onward
              simp only [essential_of_call called, idle, if_true, run_cons, decisions, same,
                onward, (LeavesMonitor.refl post).decidedSince_eq_nil]
              exact ⟨trivial, rfl⟩
          | false =>
              simp only [essential_of_call called, idle, Bool.false_eq_true, if_false, run_cons,
                decisions, onward]
              exact ⟨trivial, trivial⟩

end Tracks

end MonitorPost

/-- The reason of a change of the classification, if an entry publishes one. -/
def Entry.change? : Entry → Option (Option String)
  | published event => if event.kind = .beamWaitChanged then some event.reason else none
  | _ => none

namespace MonitorPost

/-- The changes of the classification that a journal tells of, with the instant of each. -/
def changesIn (journal : Journal) : List (Span × Option String) :=
  journal.filterMap fun line => line.2.change?.map fun reason => (line.1, reason)

theorem changesIn_append (earlier later : Journal) :
    changesIn (earlier ++ later) = changesIn earlier ++ changesIn later :=
  List.filterMap_append

/-- The changes that follow from what matters among calls, if a bus is attached. -/
def news (origin : Monitor) (attached : Bool) (calls : List (Span × Call)) :
    List (Span × Option String) :=
  if attached then (origin.classifications calls).map fun change =>
    (change.1, some (Monitor.changeName change.2))
  else []

/-- A step that leaves the bus in place and adds these changes to the journal. -/
structure Tells (before after : MonitorPost) (changes : List (Span × Option String)) : Prop where
  attached : after.attached = before.attached
  changes : changesIn after.journal = changesIn before.journal ++ changes

namespace Tells

variable {before after last : MonitorPost} {now : Span} {events : List Event}
  {decided : List Escalation} {changes more : List (Span × Option String)}

theorem refl (post : MonitorPost) : Tells post post [] := ⟨rfl, (List.append_nil _).symm⟩

theorem trans (first : Tells before after changes) (second : Tells after last more) :
    Tells before last (changes ++ more) := by
  refine ⟨second.attached.trans first.attached, ?_⟩
  simp only [second.changes, first.changes, List.append_assoc]

theorem of_yields (yields : Yields now before after events decided)
    (silent : ∀ event ∈ events, event.kind ≠ .beamWaitChanged) : Tells before after [] := by
  refine ⟨yields.attached, ?_⟩
  have quiet : changesIn (announced before.attached now events) = [] := by
    apply List.filterMap_eq_nil_iff.mpr
    intro line member
    unfold announced at member
    split at member
    · obtain ⟨event, among, rfl⟩ := List.mem_map.mp member
      simp [Entry.change?, silent event among]
    · cases member
  simp only [yields.journal, changesIn_append, quiet]

theorem publish (post : MonitorPost) (now : Span) {event : Event}
    (silent : event.kind ≠ .beamWaitChanged) : Tells post (post.publish now event) [] := by
  have yields : Yields now post (post.publish now event) [event] [] :=
    Yields.carryOut post now (.publish event)
  exact of_yields yields (by simpa using silent)

/-- Escalations tell of no change. -/
theorem of_errands (errands : Errands before after) : Tells before after [] := by
  induction errands with
  | refl post => exact refl post
  | trans _ _ first second => exact first.trans second
  | write post now own =>
      rename_i entry
      refine ⟨rfl, ?_⟩
      have quiet : entry.change? = none := by
        cases entry with
        | published => cases own
        | _ => rfl
      simp [MonitorPost.write, Journal.write, changesIn, quiet]
  | publish post now own =>
      exact publish post now fun change => by simp [change, EventKind.isErrand] at own
  | count post cancelCalls alertCalls => exact ⟨rfl, (List.append_nil _).symm⟩
  | setStage post index stage => exact ⟨rfl, (List.append_nil _).symm⟩

end Tells

theorem news_nil (origin : Monitor) (attached : Bool) : news origin attached [] = [] := by
  cases attached <;> rfl

theorem news_append (origin : Monitor) (attached : Bool) (earlier later : List (Span × Call)) :
    news origin attached (earlier ++ later) =
      news origin attached earlier ++ news origin attached later := by
  cases attached with
  | false => rfl
  | true => simp [news, Monitor.classifications]

theorem Tracks.tells_step {origin : Monitor} {force : Option Bool} {post : MonitorPost}
    (tracks : Tracks origin force post) (now : Span) (move : Move) :
    Tells post (post.step now move)
      (news origin post.attached (origin.essential some force (callsOf [(now, move)]))) := by
  match move with
  | .enter =>
      have quiet : news origin post.attached
          (origin.essential some force (callsOf [(now, .enter)])) = [] := news_nil origin _
      simp only [quiet]
      exact .of_yields (.enter post now) (by simp [Monitor.event, Event.ofKind, Event.withTask,
        Event.withTimeout])
  | .exit =>
      have quiet : news origin post.attached
          (origin.essential some force (callsOf [(now, .exit)])) = [] := news_nil origin _
      simp only [quiet]
      refine .of_yields (.exit post now) ?_
      split <;> simp [Monitor.event, Event.ofKind, Event.withTask]
  | .turn (.timer handle) =>
      obtain ⟨decided, yields⟩ := Yields.timerTurn post now handle
      simp only [callsOf, Move.call?, List.filterMap_cons, Option.map_none, List.filterMap_nil,
        Monitor.essential, news_nil]
      exact .of_yields yields (List.forall_mem_nil _)
  | .turn (.escalation index) =>
      simp only [callsOf, Move.call?, List.filterMap_cons, Option.map_none, List.filterMap_nil,
        Monitor.essential, news_nil]
      exact .of_errands (.escalationTurn post now index)
  | .turn (.follower job) =>
      have same : post.step now (.turn (.follower job)) = post :=
        tracks.followerTurn_eq_self now job
      simp only [callsOf, Move.call?, List.filterMap_cons, Option.map_none, List.filterMap_nil,
        Monitor.essential, news_nil, same]
      exact .refl post
  | .progress notification =>
      simp only [callsOf, Move.call?, List.filterMap_cons, Option.map_some, List.filterMap_nil,
        Monitor.essential_of_call rfl]
      cases idle : origin.idles force (.progress notification) with
      | true =>
          simp only [if_true, Monitor.essential, news_nil, MonitorPost.step,
            tracks.progress_eq_self idle]
          exact .refl post
      | false =>
          obtain ⟨waiting, rfl, read⟩ := (Monitor.not_idles_progress_iff notification).mp idle
          obtain ⟨-, yields⟩ := tracks.progress_of_change read now
          refine ⟨yields.attached, ?_⟩
          simp only [MonitorPost.step, yields.journal, changesIn_append, Monitor.essential]
          cases post.attached <;>
            simp [news, announced, Monitor.classifications, read, changesIn, Entry.change?,
              Monitor.event, Event.ofKind, Event.withTask, Event.withReason]

/-- The changes that a history publishes are those that matter, one after the other. -/
theorem Tracks.tells_run {origin : Monitor} {force : Option Bool} {post : MonitorPost}
    (tracks : Tracks origin force post) (history : History) :
    Tells post (post.run history)
      (news origin post.attached (origin.essential some force (callsOf history))) := by
  induction history generalizing post force with
  | nil =>
      simp only [callsOf, List.filterMap_nil, Monitor.essential, news_nil]
      exact .refl post
  | cons entry later inductionHypothesis =>
      obtain ⟨instant, move⟩ := entry
      have first := tracks.tells_step instant move
      have onward := inductionHypothesis (tracks.step instant move)
      have split : callsOf ((instant, move) :: later) =
          callsOf [(instant, move)] ++ callsOf later :=
        List.filterMap_append (l := [(instant, move)])
      have force : origin.forceAfter some force (callsOf [(instant, move)]) =
          move.call?.elim force (origin.inForce force) := by
        cases called : move.call? <;> simp [Monitor.forceAfter, callsOf, called]
      simp only [first.attached] at onward
      simp only [split, Monitor.essential_append, force, news_append]
      exact first.trans onward

end MonitorPost

end PlanSupervision
