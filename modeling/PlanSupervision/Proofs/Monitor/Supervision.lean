import PlanSupervision.Proofs.Monitor.Pursuit
import PlanSupervision.Proofs.Monitor.Timeline

/-!
Supervision as a fold. Whatever others do meanwhile, a follower makes of what it received just
what the fold over it says, and whichever way it ends, the scope that it entered is left.
-/

namespace PlanSupervision.MonitorPost

/-- The fold over what a follower received, given what the observers answered to its actions. -/
def folded (origin : MonitorPost) (routed : Bool) (items : List (Reception RemoteEvent))
    (actions : List (Span × FollowAction)) : Following :=
  Following.along origin.monitor.taskId routed items (origin.answers actions)

/-- A follower that came to its end: it is reported as finished once, its scope is left and
these events of scopes were published. -/
structure Left (origin : MonitorPost) (job : Nat) (routed : Bool) (result : Option FollowResult)
    (kinds : List EventKind) (post : MonitorPost) : Prop where
  stage : post.followers[job]? = some ⟨routed, .ended⟩
  finished : post.finished = origin.finished ++ [(job, result)]
  rest : post.AtRest
  idle : post.monitor.phase = .idle
  events : origin.bus.isSome → post.scopeEvents = origin.scopeEvents ++ kinds

/-- A follower inside its scope that has called what the fold says. -/
structure Engaged (origin : MonitorPost) (following : Following) (made : List FollowCall)
    (post : MonitorPost) : Prop where
  unfinished : post.finished = origin.finished
  called : made = .enter :: following.calls
  inScope : post.monitor.inScope = true
  events : origin.bus.isSome → post.scopeEvents = origin.scopeEvents ++ [.monitorStarted]

/-- Where a follower stands, by the fold over what it received and the calls that it made. -/
inductive Standing (origin : MonitorPost) (job : Nat) (routed wasDropped : Bool)
    (following : Following) (made : List FollowCall) (post : MonitorPost) : Prop where
  /-- It had no turn yet. -/
  | unbegun (stage : post.followers[job]? = some ⟨routed, .begun⟩)
      (unfinished : post.finished = origin.finished) (called : made = [])
      (nothing : following = ⟨[], none, [], []⟩) (rest : post.AtRest)
      (events : origin.bus.isSome → post.scopeEvents = origin.scopeEvents)
  /-- It goes on. -/
  | listening (position : Nat) (stage : post.followers[job]? = some ⟨routed, .listening position⟩)
      (unended : following.result = none) (engaged : Engaged origin following made post)
  /-- It returned what the fold brings. -/
  | returned (result : FollowResult) (ended : following.result = some result)
      (called : made = .enter :: following.calls ++ [.exit])
      (left : Left origin job routed (some result) [.monitorStarted, .monitorStopped] post)
  /-- It was dropped before the fold brought anything. -/
  | dropped (drop : wasDropped = true) (unended : following.result = none)
      (called : made = .enter :: following.calls ++ [.exit])
      (left : Left origin job routed none [.monitorStarted, .monitorStopped] post)
  /-- It was dropped without a turn. -/
  | discarded (drop : wasDropped = true) (nothing : following = ⟨[], none, [], []⟩)
      (called : made = []) (left : Left origin job routed none [] post)

/-- A state of a post is explained by actions: performing them leads to it, and all that was
received is processed. -/
structure Tally (origin : MonitorPost) (routed : Bool) (items : List (Reception RemoteEvent))
    (others : List (Span × Interference)) (actions : List (Span × FollowAction))
    (post : MonitorPost) : Prop where
  performed : post = origin.perform actions
  others : FollowAction.interferences actions = others
  reports : FollowAction.reports actions = Reception.missed items
  processed : (origin.folded routed items actions).left = []
  asked : (origin.folded routed items actions).unasked = []
  taskId : post.monitor.taskId = origin.monitor.taskId
  attached : origin.bus.isSome → post.bus.isSome

variable {origin post after : MonitorPost} {job : Nat} {routed wasDropped : Bool}
  {items : List (Reception RemoteEvent)} {others : List (Span × Interference)}
  {actions : List (Span × FollowAction)} {following : Following} {made : List FollowCall}

theorem AtRest.phase_eq (rest : post.AtRest) : post.monitor.phase = .idle := by
  rw [Monitor.phase, rest.timer]

theorem Steady.act (steady : post.Steady) (now : Span) (action : FollowAction) :
    (post.act now action).Steady := by
  cases action with
  | call made =>
      cases made with
      | enter => exact steady_kept.enter now steady
      | progress notification => exact steady_kept.progress now notification steady
      | relay document => exact steady_kept.aside (.dispatch post now document) steady
      | exit => exact steady_kept.exit now steady
  | missed count => exact steady_kept.aside (.write post now rfl) steady
  | other interference =>
      cases interference with
      | progress notification => exact steady_kept.progress now notification steady
      | timer handle => exact steady_kept.timerTurn now handle steady
      | escalation index => exact steady_kept.escalationTurn now index steady
      | attach slots =>
          apply steady.of_leaves
          simp only [MonitorPost.act, interfere, attach]
          split <;> exact ⟨rfl, rfl, rfl⟩
      | dispatch document => exact steady_kept.aside (.dispatch post now document) steady
      | subscribe listener =>
          apply steady_kept.aside _ steady
          exact .of_journal_eq rfl rfl rfl rfl rfl
      | unsubscribe number =>
          apply steady_kept.aside _ steady
          exact .of_journal_eq rfl rfl rfl rfl rfl
  | settle desk woken =>
      apply steady_kept.aside _ steady
      exact .of_journal_eq rfl rfl rfl rfl rfl

theorem Steady.perform (steady : origin.Steady) (actions : List (Span × FollowAction)) :
    (origin.perform actions).Steady := by
  induction actions generalizing origin with
  | nil => exact steady
  | cons action rest inductionHypothesis =>
      exact inductionHypothesis (steady.act action.1 action.2)

theorem answers_snoc (origin : MonitorPost) (actions : List (Span × FollowAction)) (now : Span)
    {action : FollowAction} (unasked : ∀ post : MonitorPost, post.answer? action = none) :
    origin.answers (actions ++ [(now, action)]) = origin.answers actions := by
  rw [answers_append, answers, unasked]
  exact List.append_nil _

theorem folded_snoc (origin : MonitorPost) (actions : List (Span × FollowAction)) (now : Span)
    {action : FollowAction} (unasked : ∀ post : MonitorPost, post.answer? action = none) :
    origin.folded routed items (actions ++ [(now, action)]) =
      origin.folded routed items actions := by
  rw [folded, answers_snoc origin actions now unasked, folded]

namespace Tally

theorem steady (tally : Tally origin routed items others actions post) (steady : origin.Steady) :
    post.Steady := by
  rw [tally.performed]
  exact steady.perform actions

/-- An action for which the observers are not asked, and that notes no report of lost events. -/
theorem act (tally : Tally origin routed items others actions post) (now : Span)
    (action : FollowAction) (unasked : ∀ post : MonitorPost, post.answer? action = none)
    (told : action.missed? = none)
    (taskId : (post.act now action).monitor.taskId = post.monitor.taskId)
    (attached : post.bus.isSome → (post.act now action).bus.isSome) :
    Tally origin routed items
      (others ++ (action.interference?.map fun foreign => (now, foreign)).toList)
      (actions ++ [(now, action)]) (post.act now action) := by
  refine ⟨?_, ?_, ?_, ?_, ?_, taskId.trans tally.taskId,
    fun started => attached (tally.attached started)⟩
  · rw [perform_append, ← tally.performed]
    rfl
  · rw [FollowAction.interferences_append, tally.others]
    cases foreign : action.interference? <;> simp [foreign, FollowAction.interferences]
  · rw [FollowAction.reports_append, tally.reports]
    simp [told, FollowAction.reports]
  · rw [folded_snoc origin actions now unasked, tally.processed]
  · rw [folded_snoc origin actions now unasked, tally.asked]

theorem handle {more : List (Reception RemoteEvent)} {later : List (Span × FollowAction)}
    {result : Option FollowResult}
    (tally : Tally origin routed items others actions post)
    (unended : (origin.folded routed items actions).result = none)
    (handles : Handles routed post more later after result) :
    Tally origin routed (items ++ more) others (actions ++ later) after ∧
      origin.folded routed (items ++ more) (actions ++ later) =
        ⟨(origin.folded routed items actions).calls ++ FollowAction.calls later, result, [], []⟩ := by
  have folds : origin.folded routed (items ++ more) (actions ++ later) =
      ⟨(origin.folded routed items actions).calls ++ FollowAction.calls later,
        result, [], []⟩ := by
    have continued := handles.following
    rw [tally.taskId] at continued
    -- No answer is left over, so those that follow belong to what is received from here on.
    have asked : (Following.along origin.monitor.taskId routed items
        (origin.answers actions)).unasked = [] := tally.asked
    rw [folded, answers_append, ← tally.performed,
      Following.along_append unended tally.processed more, asked, List.nil_append, continued]
    rfl
  refine ⟨⟨?_, ?_, ?_, ?_, ?_, ?_, ?_⟩, folds⟩
  · rw [perform_append, ← tally.performed, handles.performed]
  · rw [FollowAction.interferences_append, tally.others, handles.alone, List.append_nil]
  · rw [FollowAction.reports_append, Reception.missed_append, tally.reports, handles.reports]
  · rw [folds]
  · rw [folds]
  · exact handles.announces.taskId.trans tally.taskId
  · exact fun started => handles.announces.attached (tally.attached started)

theorem settle (tally : Tally origin routed items others actions post) (now : Span)
    (desk : Desk) (woken : List MonitorTask) :
    Tally origin routed items others (actions ++ [(now, .settle desk woken)])
      (post.withDesk desk woken) := by
  have settled := tally.act now (.settle desk woken) (fun _ => rfl) rfl rfl id
  rwa [FollowAction.interference?, Option.map_none, Option.toList_none, List.append_nil] at settled

theorem call (tally : Tally origin routed items others actions post) (now : Span)
    {made : FollowCall} (unasked : ∀ post : MonitorPost, post.answer? (.call made) = none)
    {kinds : List EventKind} (announces : Announces post (post.call now made) kinds) :
    Tally origin routed items others (actions ++ [(now, .call made)]) (post.call now made) := by
  have called := tally.act now (.call made) unasked rfl announces.taskId
    announces.attached
  rwa [FollowAction.interference?, Option.map_none, Option.toList_none, List.append_nil] at called

end Tally

section Carry

variable (followers : after.followers = post.followers) (finished : after.finished = post.finished)
  (inScope : after.monitor.inScope = post.monitor.inScope)
  (events : origin.bus.isSome → after.scopeEvents = post.scopeEvents) (steady : after.Steady)

include followers finished inScope events steady

theorem Left.carry {result : Option FollowResult} {kinds : List EventKind}
    (left : Left origin job routed result kinds post) :
    Left origin job routed result kinds after := by
  have rest : after.AtRest := steady.atRest (inScope.trans left.rest.outside)
  refine ⟨?_, ?_, rest, rest.phase_eq, fun started => ?_⟩
  · rw [followers, left.stage]
  · rw [finished, left.finished]
  · rw [events started, left.events started]

theorem Standing.carry (standing : Standing origin job routed wasDropped following made post) :
    Standing origin job routed wasDropped following made after := by
  cases standing with
  | unbegun stage unfinished called nothing rest unannounced =>
      refine .unbegun ?_ ?_ called nothing (steady.atRest ?_) fun started => ?_
      · rw [followers, stage]
      · rw [finished, unfinished]
      · rw [inScope, rest.outside]
      · rw [events started, unannounced started]
  | listening position stage unended engaged =>
      refine .listening position ?_ unended ⟨?_, engaged.called, ?_, fun started => ?_⟩
      · rw [followers, stage]
      · rw [finished, engaged.unfinished]
      · rw [inScope, engaged.inScope]
      · rw [events started, engaged.events started]
  | returned result ended called left =>
      exact .returned result ended called (left.carry followers finished inScope events steady)
  | dropped drop unended called left =>
      exact .dropped drop unended called (left.carry followers finished inScope events steady)
  | discarded drop nothing called left =>
      exact .discarded drop nothing called (left.carry followers finished inScope events steady)

end Carry

section End

variable (now : Span) (result : Option FollowResult) (inScope : post.monitor.inScope = true)

include inScope

theorem exit_desk : (post.exit now).desk = post.desk := (Announces.exit post now inScope).desk

theorem Tally.endFollower (job : Nat) (tally : Tally origin routed items others actions post) :
    Tally origin routed items others
      (actions ++ [(now, .call .exit)] ++
        [(now, .settle (post.endFollower now job result).desk (post.exit now).woken)])
      (post.endFollower now job result) := by
  have exited : Announces post (post.call now .exit) _ := .exit post now inScope
  exact (tally.call now (fun _ => rfl) exited).settle now _ _

theorem Left.endFollower {stage : FollowerStage} {kinds : List EventKind}
    (found : post.followers[job]? = some ⟨routed, stage⟩)
    (unfinished : post.finished = origin.finished)
    (attached : origin.bus.isSome → post.bus.isSome)
    (events : origin.bus.isSome → post.scopeEvents = origin.scopeEvents ++ kinds)
    (steady : (post.endFollower now job result).Steady) :
    Left origin job routed result (kinds ++ [.monitorStopped])
      (post.endFollower now job result) := by
  have desk := exit_desk now inScope
  have followers : (post.exit now).followers = post.followers := congrArg Desk.followers desk
  have finished : (post.exit now).finished = post.finished := congrArg Desk.finished desk
  have rest : (post.endFollower now job result).AtRest := steady.atRest (post.exit_inScope now)
  refine ⟨?_, ?_, rest, rest.phase_eq, fun started => ?_⟩
  · simp only [MonitorPost.endFollower, setFollower, followers]
    simp [found]
  · simp only [MonitorPost.endFollower, setFollower, finished, unfinished]
  · have stopped := (Announces.exit post now inScope).events (attached started)
    rw [events started, List.append_assoc] at stopped
    exact stopped

end End

/-- The account of a follower: its post is explained by actions, and it stands where the fold
over what it received and the calls among them say. -/
structure Account (origin : MonitorPost) (job : Nat) (routed wasDropped : Bool)
    (items : List (Reception RemoteEvent)) (others : List (Span × Interference))
    (actions : List (Span × FollowAction)) (post : MonitorPost) : Prop where
  tally : Tally origin routed items others actions post
  standing : Standing origin job routed wasDropped (origin.folded routed items actions)
    (FollowAction.calls actions) post

theorem calls_append_settle (actions : List (Span × FollowAction)) (now : Span) (desk : Desk)
    (woken : List MonitorTask) :
    FollowAction.calls (actions ++ [(now, .settle desk woken)]) = FollowAction.calls actions := by
  rw [FollowAction.calls_append]
  exact List.append_nil _

theorem calls_append_call (actions : List (Span × FollowAction)) (now : Span) (made : FollowCall) :
    FollowAction.calls (actions ++ [(now, .call made)]) = FollowAction.calls actions ++ [made] := by
  rw [FollowAction.calls_append]
  rfl

section Engaged

variable (tally : Tally origin routed items others actions post)
  (engaged : Engaged origin (origin.folded routed items actions) (FollowAction.calls actions) post)
  {stage : FollowerStage} (found : post.followers[job]? = some ⟨routed, stage⟩)

include tally engaged

theorem Engaged.handle {more : List (Reception RemoteEvent)}
    {later : List (Span × FollowAction)} {result : Option FollowResult}
    (unended : (origin.folded routed items actions).result = none)
    (handles : Handles routed post more later after result) :
    Engaged origin (origin.folded routed (items ++ more) (actions ++ later))
      (FollowAction.calls (actions ++ later)) after := by
  refine ⟨?_, ?_, handles.inScope.trans engaged.inScope, fun started => ?_⟩
  · exact (congrArg Desk.finished handles.announces.desk).trans engaged.unfinished
  · rw [(tally.handle unended handles).2, FollowAction.calls_append, engaged.called]
    rfl
  · rw [handles.announces.events (tally.attached started), engaged.events started,
      List.append_nil]

include found

theorem Engaged.waits {position : Nat} (now : Span)
    (unended : (origin.folded routed items actions).result = none)
    (waits : Waits post after job position) :
    ∃ more, Account origin job routed wasDropped items others (actions ++ more) after := by
  refine ⟨[(now, .settle after.desk post.woken)], ?_, ?_⟩
  · have settled := tally.settle now after.desk post.woken
    rwa [← waits.settled] at settled
  · rw [folded_snoc origin actions now (fun _ => rfl), calls_append_settle]
    refine .listening position ?_ unended ⟨?_, engaged.called, ?_, fun started => ?_⟩
    · rw [waits.followers]
      simp [found]
    · rw [waits.finished, engaged.unfinished]
    · rw [waits.settled]
      exact engaged.inScope
    · rw [waits.settled]
      exact engaged.events started

/-- The follower leaves its scope, with the result of the fold or without one if it is dropped. -/
theorem Engaged.endFollower (steady : origin.Steady) (now : Span) {result : Option FollowResult}
    (brings : (origin.folded routed items actions).result = result)
    (drop : result = none → wasDropped = true) :
    ∃ more, Account origin job routed wasDropped items others (actions ++ more)
      (post.endFollower now job result) := by
  have tallied := tally.endFollower now result engaged.inScope job
  have left : Left origin job routed result [.monitorStarted, .monitorStopped] _ :=
    .endFollower now result engaged.inScope found engaged.unfinished tally.attached
      engaged.events (tallied.steady steady)
  rw [List.append_assoc] at tallied
  refine ⟨_, tallied, ?_⟩
  rw [← List.append_assoc, folded_snoc _ _ now (fun _ => rfl), folded_snoc _ _ now (fun _ => rfl),
    calls_append_settle, calls_append_call]
  have called := congrArg (· ++ [FollowCall.exit]) engaged.called
  cases result with
  | none => exact .dropped (drop rfl) brings called left
  | some brought => exact .returned brought brings called left

/-- A follower inside its scope takes what it receives in a turn. -/
theorem Engaged.followWithin (steady : origin.Steady)
    (unended : (origin.folded routed items actions).result = none)
    (now : Span) (budget position : Nat) :
    ∃ more, Account origin job routed wasDropped
      (items ++ takenWithin now routed budget position post) others (actions ++ more)
      (MonitorPost.followWithin now job routed budget position post) := by
  obtain ⟨later, middle, result, handles, ending⟩ :=
    followWithin_handles now job routed budget position post
  obtain ⟨tallied, folds⟩ := tally.handle unended handles
  have stillEngaged := engaged.handle tally unended handles
  have foundStill : middle.followers[job]? = some ⟨routed, stage⟩ :=
    (congrArg (·[job]?) (congrArg Desk.followers handles.announces.desk)).trans found
  have brings := congrArg Following.result folds
  -- The fold has gone on over the turn. Whether it brought a result decides how the turn ended.
  have settled : ∃ more, Account origin job routed wasDropped
      (items ++ takenWithin now routed budget position post) others ((actions ++ later) ++ more)
      (MonitorPost.followWithin now job routed budget position post) := by
    cases ending with
    | waits waits exhausted => exact stillEngaged.waits tallied foundStill now brings waits
    | ends ended =>
        rw [ended]
        exact stillEngaged.endFollower tallied foundStill steady now brings (by simp)
  obtain ⟨more, account⟩ := settled
  rw [List.append_assoc] at account
  exact ⟨_, account⟩

end Engaged

theorem Standing.weaken {stillDropped : Bool} (implies : wasDropped = true → stillDropped = true)
    (standing : Standing origin job routed wasDropped following made post) :
    Standing origin job routed stillDropped following made post := by
  cases standing with
  | unbegun stage unfinished called nothing rest events =>
      exact .unbegun stage unfinished called nothing rest events
  | listening position stage unended engaged => exact .listening position stage unended engaged
  | returned result ended called left => exact .returned result ended called left
  | dropped drop unended called left => exact .dropped (implies drop) unended called left
  | discarded drop nothing called left => exact .discarded (implies drop) nothing called left

namespace Account

section Step

variable (steady : origin.Steady)
  (account : Account origin job routed wasDropped items others actions post) (now : Span)

include steady account

/-- Only the desk changes, and there neither the followers nor what is finished. -/
theorem settle (desk : Desk) (woken : List MonitorTask)
    (followers : desk.followers = post.followers) (finished : desk.finished = post.finished) :
    Account origin job routed wasDropped items others
      (actions ++ [(now, .settle desk woken)]) (post.withDesk desk woken) := by
  have tallied := account.tally.settle now desk woken
  refine ⟨tallied, ?_⟩
  rw [folded_snoc origin actions now (fun _ => rfl), calls_append_settle]
  exact account.standing.carry followers finished rfl (fun _ => rfl) (tallied.steady steady)

theorem interfere (interference : Interference) :
    Account origin job routed wasDropped items (others ++ [(now, interference)])
      (actions ++ [(now, .other interference)]) (post.interfere now interference) := by
  have announces := Announces.interfere post now interference
  have tallied := account.tally.act now (.other interference) (fun _ => rfl) rfl announces.taskId
    announces.attached
  refine ⟨tallied, ?_⟩
  have uncalled : FollowAction.calls (actions ++ [(now, .other interference)]) =
      FollowAction.calls actions := by
    rw [FollowAction.calls_append]
    exact List.append_nil _
  rw [folded_snoc origin actions now (fun _ => rfl), uncalled]
  refine account.standing.carry (congrArg Desk.followers announces.desk)
    (congrArg Desk.finished announces.desk) (post.interfere_inScope now interference)
    (fun started => ?_) (tallied.steady steady)
  rw [announces.events (account.tally.attached started), List.append_nil]

omit steady

theorem idle : ∃ more, Account origin job routed wasDropped items others (actions ++ more) post := by
  refine ⟨[], ?_⟩
  rwa [List.append_nil]

/-- In its first turn a follower enters the scope. -/
theorem enter (unfinished : post.finished = origin.finished)
    (called : FollowAction.calls actions = [])
    (nothing : origin.folded routed items actions = ⟨[], none, [], []⟩)
    (events : origin.bus.isSome → post.scopeEvents = origin.scopeEvents) :
    Engaged origin (origin.folded routed items (actions ++ [(now, .call .enter)]))
      (FollowAction.calls (actions ++ [(now, .call .enter)])) (post.enter now) := by
  have announces := Announces.enter post now
  rw [folded_snoc origin actions now (fun _ => rfl), calls_append_call, called, nothing]
  refine ⟨?_, rfl, post.enter_inScope now, fun started => ?_⟩
  · exact (congrArg Desk.finished announces.desk).trans unfinished
  · rw [announces.events (account.tally.attached started), events started]

include steady

theorem drop :
    ∃ more, Account origin job routed true items others (actions ++ more)
      (post.cancelFollower now job) := by
  have weakened : Account origin job routed true items others actions post :=
    ⟨account.tally, account.standing.weaken fun _ => rfl⟩
  have unmoved : ∀ {result : Option FollowResult} {kinds : List EventKind},
      Left origin job routed result kinds post → post.cancelFollower now job = post := by
    intro result kinds left
    simp only [cancelFollower, left.stage]
  cases account.standing with
  | unbegun stage unfinished called nothing rest events =>
      have dropped : post.cancelFollower now job = post.withDesk
          { post.desk with
            followers := (post.setFollower job .ended).followers
            finished := post.finished ++ [(job, none)] } post.woken := by
        simp only [cancelFollower, stage]
        rfl
      refine ⟨[(now, .settle _ post.woken)], dropped ▸ account.tally.settle now _ post.woken, ?_⟩
      rw [dropped, folded_snoc origin actions now (fun _ => rfl), calls_append_settle]
      refine .discarded rfl nothing called
        ⟨?_, ?_, ⟨rest.outside, rest.timer, rest.timers⟩, rest.phase_eq, ?_⟩
      · simp [withDesk, setFollower, stage]
      · simp [withDesk, unfinished]
      · intro started
        rw [List.append_nil]
        exact events started
  | listening position stage unended engaged =>
      have dropped : post.cancelFollower now job = post.endFollower now job none := by
        simp only [cancelFollower, stage]
      rw [dropped]
      exact engaged.endFollower account.tally stage steady now unended fun _ => rfl
  | returned result ends called left =>
      rw [unmoved left]
      exact weakened.idle
  | dropped drop unended called left =>
      rw [unmoved left]
      exact weakened.idle
  | discarded drop nothing called left =>
      rw [unmoved left]
      exact weakened.idle

theorem turn :
    ∃ more, Account origin job routed wasDropped (items ++ post.taken job now .turn) others
      (actions ++ more) (post.followerTurn now job) := by
  have unmoved : ∀ {result : Option FollowResult} {kinds : List EventKind},
      Left origin job routed result kinds post →
        post.taken job now .turn = [] ∧ post.followerTurn now job = post := by
    intro result kinds left
    simp only [taken, followerTurn, left.stage, and_self]
  cases account.standing with
  | unbegun stage unfinished called nothing rest events =>
      simp only [taken, followerTurn, stage]
      have announces : Announces post (post.call now .enter) _ := .enter post now
      have entered := account.enter now unfinished called nothing events
      have found : (post.enter now).followers[job]? = some ⟨routed, .begun⟩ :=
        (congrArg (·[job]?) (congrArg Desk.followers announces.desk)).trans stage
      have unended : (origin.folded routed items (actions ++ [(now, .call .enter)])).result =
          none := by
        rw [folded_snoc origin actions now (fun _ => rfl), nothing]
      obtain ⟨more, settled⟩ := entered.followWithin
        (account.tally.call now (fun _ => rfl) announces) found steady unended now turnBudget
        post.remote.position
      rw [List.append_assoc] at settled
      exact ⟨_, settled⟩
  | listening position stage unended engaged =>
      simp only [taken, followerTurn, stage]
      exact engaged.followWithin account.tally stage steady unended now turnBudget position
  | returned result ends called left =>
      obtain ⟨nothing, same⟩ := unmoved left
      rw [nothing, same, List.append_nil]
      exact account.idle
  | dropped drop unended called left =>
      obtain ⟨nothing, same⟩ := unmoved left
      rw [nothing, same, List.append_nil]
      exact account.idle
  | discarded drop unprocessed called left =>
      obtain ⟨nothing, same⟩ := unmoved left
      rw [nothing, same, List.append_nil]
      exact account.idle

theorem step (occurrence : Occurrence) :
    ∃ more, Account origin job routed (wasDropped || occurrence.isDrop)
      (items ++ post.taken job now occurrence)
      (others ++ (occurrence.interference?.map fun foreign => (now, foreign)).toList)
      (actions ++ more) (post.occur job now occurrence) := by
  cases occurrence with
  | turn =>
      rw [Occurrence.isDrop, Bool.or_false, Occurrence.interference?, Option.map_none,
        Option.toList_none, List.append_nil]
      exact account.turn steady now
  | drop =>
      rw [Occurrence.isDrop, Bool.or_true, Occurrence.interference?, Option.map_none,
        Option.toList_none, List.append_nil, taken, List.append_nil]
      exact account.drop steady now
  | send event =>
      rw [Occurrence.isDrop, Bool.or_false, Occurrence.interference?, Option.map_none,
        Option.toList_none, List.append_nil, taken, List.append_nil]
      obtain ⟨sent, followers, finished⟩ :
          post.send event = post.withDesk (post.send event).desk (post.send event).woken ∧
            (post.send event).followers = post.followers ∧
            (post.send event).finished = post.finished := by
        unfold send
        split <;> exact ⟨rfl, rfl, rfl⟩
      rw [occur, sent]
      exact ⟨_, account.settle steady now _ _ followers finished⟩
  | close =>
      rw [Occurrence.isDrop, Bool.or_false, Occurrence.interference?, Option.map_none,
        Option.toList_none, List.append_nil, taken, List.append_nil]
      exact ⟨_, account.settle steady now post.closeRemote.desk post.closeRemote.woken rfl rfl⟩
  | other interference =>
      rw [Occurrence.isDrop, Bool.or_false, taken, List.append_nil]
      exact ⟨_, account.interfere steady now interference⟩

theorem run (history : List (Span × Occurrence)) :
    ∃ more, Account origin job routed
      (wasDropped || history.any fun entry => entry.2.isDrop)
      (items ++ post.receipts job history)
      (others ++ Occurrence.interferences history)
      (actions ++ more) (post.pursue job history) := by
  induction history generalizing post wasDropped items others actions with
  | nil =>
      rw [List.any_nil, Bool.or_false, receipts, List.append_nil, Occurrence.interferences,
        List.filterMap_nil, List.append_nil]
      exact account.idle
  | cons entry later inductionHypothesis =>
      obtain ⟨now, occurrence⟩ := entry
      -- The account of the first occurrence is the start of the one of all others.
      obtain ⟨first, stepped⟩ := account.step steady now occurrence
      obtain ⟨more, ran⟩ := inductionHypothesis stepped
      refine ⟨first ++ more, ?_⟩
      rw [List.any_cons, ← Bool.or_assoc, receipts, ← List.append_assoc items,
        Occurrence.interferences_cons, ← List.append_assoc others, ← List.append_assoc actions]
      exact ran

end Step

end Account

/-- Supervision is a fold over what is received, whatever the observers answer and whatever
others do meanwhile, as long as no other scope is open. The post after any history is the one
that the follower's calls lead to, together with what others did; the calls are those of the
fold, and all that was received is processed by it, so nothing is received after the reception
that ends it. What does not concern the task could be left out of the stream. Where the follower
stands is told by the result of the fold and by whether it was dropped: in every way that it
ends, it is reported once and its scope is left. A turn after which it goes on took all there
was to receive, or as much as a turn allows. -/
theorem supervision_folds_stream (rest : origin.AtRest)
    (begun : origin.followers[job]? = some ⟨routed, .begun⟩)
    (history : List (Span × Occurrence)) :
    let taskId := origin.monitor.taskId
    let after := origin.pursue job history
    let items := origin.receipts job history
    (∃ actions : List (Span × FollowAction),
      let answers := origin.answers actions
      let following := Following.along taskId routed items answers
      after = origin.perform actions ∧
        FollowAction.interferences actions = Occurrence.interferences history ∧
        FollowAction.reports actions = Reception.missed items ∧
        following.left = [] ∧ following.unasked = [] ∧
        following.calls = items.filterMap (FollowCall.for? taskId routed) ∧
        (∀ stream : List (Reception RemoteEvent),
          stream.filter (Reception.concerns taskId) = items.filter (Reception.concerns taskId) →
            (Following.along taskId routed stream answers).calls = following.calls ∧
              (Following.along taskId routed stream answers).result = following.result) ∧
        Standing origin job routed (history.any fun entry => entry.2.isDrop) following
          (FollowAction.calls actions) after) ∧
      ∀ now position, (after.occur job now .turn).followers[job]? =
          some ⟨routed, .listening position⟩ →
        ((after.occur job now .turn).remote.receive position).1 = .empty ∨
          (after.taken job now .turn).length = turnBudget := by
  intro taskId after items
  refine ⟨?_, fun now position stage => followerTurn_exhausts stage⟩
  have fresh : Account origin job routed false [] [] [] origin := by
    refine ⟨⟨rfl, rfl, rfl, rfl, rfl, rfl, id⟩, ?_⟩
    exact .unbegun begun rfl rfl rfl rest fun _ => rfl
  obtain ⟨actions, tally, standing⟩ := fresh.run rest.steady history
  refine ⟨actions, tally.performed, tally.others, tally.reports, tally.processed, tally.asked,
    Following.calls_along tally.processed, ?_, standing⟩
  intro stream same
  have folds := Following.along_filter_concerns taskId routed stream (origin.answers actions)
  rw [same, Following.along_filter_concerns] at folds
  constructor
  · exact (congrArg Following.calls folds).symm
  · exact (congrArg Following.result folds).symm

/-- A post with a bus and a follower that had no turn yet. -/
def followedPost : MonitorPost :=
  { quietPost with
    bus := some ⟨4, [], false⟩, remote := ⟨4, [], false⟩, followers := [⟨true, .begun⟩] }

/-- While the service sends, another task comes to its end before the task itself does. -/
def twoTasks : List (Span × Occurrence) :=
  [(0, .turn), (1, .send (.finished "other" .cancelled)), (2, .send (.progress beamLost)),
    (3, .send (.finished "scan" .success)), (4, .send (.progress beamLost)), (5, .turn)]

/-- The follower is not misled by the other task, and takes nothing after the end of its own. -/
theorem follower_returns_success :
    ∃ actions, followedPost.pursue 0 twoTasks = followedPost.perform actions ∧
      FollowAction.calls actions = [.enter, .progress beamLost, .exit] ∧
      (followedPost.pursue 0 twoTasks).finished = [(0, some (.ok .success))] ∧
      (followedPost.pursue 0 twoTasks).AtRest ∧
      (followedPost.pursue 0 twoTasks).scopeEvents = [.monitorStarted, .monitorStopped] := by
  have rest : followedPost.AtRest := ⟨rfl, rfl, rfl⟩
  have begun : followedPost.followers[0]? = some ⟨true, .begun⟩ := rfl
  have own : (followedPost.receipts 0 twoTasks).filterMap
      (FollowCall.for? followedPost.monitor.taskId true) = [.progress beamLost] := rfl
  have stage : (followedPost.pursue 0 twoTasks).followers[0]? = some ⟨true, .ended⟩ := rfl
  have finished : (followedPost.pursue 0 twoTasks).finished = [(0, some (.ok .success))] := rfl
  obtain ⟨⟨actions, performed, _, _, _, _, calls, _, standing⟩, _⟩ :=
    supervision_folds_stream rest begun twoTasks
  refine ⟨actions, performed, ?_⟩
  cases standing with
  | unbegun fresh => cases stage.symm.trans fresh
  | listening position listens => cases stage.symm.trans listens
  | returned result ended called left =>
      refine ⟨?_, finished, left.rest, left.events rfl⟩
      rw [called, calls, own]
      rfl
  | dropped drop => cases drop
  | discarded drop => cases drop

end PlanSupervision.MonitorPost
