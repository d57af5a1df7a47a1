import PlanSupervision.Proofs.Monitor.Conduct
import PlanSupervision.Proofs.Monitor.Notices
import PlanSupervision.Proofs.Monitor.Stream

/-!
A follower at work while others act on the same post. A turn of it is accounted for by the
calls that it makes; between its turns the service sends, timers and escalations have theirs,
and others notify the monitor or use the observers.
-/

namespace PlanSupervision

/-- What others do to a post while a follower is at work. None of it opens or leaves a scope. -/
inductive Interference where
  | progress (progress : Progress)
  | timer (handle : Nat)
  | escalation (index : Nat)
  | attach (slots : Nat)
  | dispatch (document : Document)
  | subscribe (listener : Listener)
  | unsubscribe (number : Nat)

/-- What can happen to a follower. -/
inductive Occurrence where
  | turn
  | drop
  | send (event : RemoteEvent)
  | close
  | other (interference : Interference)

namespace Occurrence

def interference? : Occurrence → Option Interference
  | other foreign => some foreign
  | turn | drop | send _ | close => none

def isDrop : Occurrence → Bool
  | drop => true
  | turn | send _ | close | other _ => false

/-- What others do in a history, and when. -/
def interferences (history : List (Span × Occurrence)) : List (Span × Interference) :=
  history.filterMap fun entry => entry.2.interference?.map fun foreign => (entry.1, foreign)

theorem interferences_cons (now : Span) (occurrence : Occurrence)
    (later : List (Span × Occurrence)) :
    interferences ((now, occurrence) :: later) =
      (occurrence.interference?.map fun foreign => (now, foreign)).toList ++
        interferences later := by
  cases occurrence with
  | other foreign => rfl
  | turn | drop | send | close => rfl

end Occurrence

/-- What is done to a post, by a follower or others. Only the desk is changed without a call. -/
inductive FollowAction where
  | call (call : FollowCall)
  /-- The report of lost events is noted. -/
  | missed (count : Nat)
  | other (interference : Interference)
  | settle (desk : MonitorPost.Desk) (woken : List MonitorTask)

namespace FollowAction

def call? : FollowAction → Option FollowCall
  | call made => some made
  | missed _ | other _ | settle _ _ => none

def missed? : FollowAction → Option Nat
  | missed count => some count
  | call _ | other _ | settle _ _ => none

def interference? : FollowAction → Option Interference
  | other foreign => some foreign
  | call _ | missed _ | settle _ _ => none

/-- The calls of the follower among actions. -/
def calls (actions : List (Span × FollowAction)) : List FollowCall :=
  actions.filterMap fun action => action.2.call?

/-- The reports of lost events that were noted. -/
def reports (actions : List (Span × FollowAction)) : List Nat :=
  actions.filterMap fun action => action.2.missed?

/-- What others do, and when. -/
def interferences (actions : List (Span × FollowAction)) : List (Span × Interference) :=
  actions.filterMap fun action => action.2.interference?.map fun foreign => (action.1, foreign)

theorem calls_append (earlier later : List (Span × FollowAction)) :
    calls (earlier ++ later) = calls earlier ++ calls later :=
  List.filterMap_append

theorem reports_append (earlier later : List (Span × FollowAction)) :
    reports (earlier ++ later) = reports earlier ++ reports later :=
  List.filterMap_append

theorem interferences_append (earlier later : List (Span × FollowAction)) :
    interferences (earlier ++ later) = interferences earlier ++ interferences later :=
  List.filterMap_append

end FollowAction

namespace MonitorPost

def withDesk (post : MonitorPost) (desk : Desk) (woken : List MonitorTask) : MonitorPost :=
  { post with
    remote := desk.remote, followers := desk.followers, listening := desk.listening
    finished := desk.finished, rested := desk.rested, woken }

/-- Hand a document to the observers. -/
def relay (post : MonitorPost) (now : Span) (document : Document) : MonitorPost :=
  let dispatch := post.observers.dispatch document
  { post with
    observers := dispatch.observers
    journal := post.journal.write now (.handed document :: dispatch.entries) }

def call (post : MonitorPost) (now : Span) : FollowCall → MonitorPost
  | .enter => post.enter now
  | .progress notification => post.progress now notification
  | .relay document => post.relay now document
  | .exit => post.exit now

def noteMissed (post : MonitorPost) (now : Span) (missed : Nat) : MonitorPost :=
  post.write now (.logged ⟨.warn, "remote event stream lagged",
    [("task", post.monitor.taskId), ("skipped", toString missed)]⟩)

def interfere (post : MonitorPost) (now : Span) : Interference → MonitorPost
  | .progress notification => post.progress now notification
  | .timer handle => post.timerTurn now handle
  | .escalation index => post.escalationTurn now index
  | .attach slots => post.attach now slots
  | .dispatch document => post.relay now document
  | .subscribe listener => { post with observers := post.observers.subscribe listener }
  | .unsubscribe number => { post with observers := post.observers.unsubscribe number }

def act (post : MonitorPost) (now : Span) : FollowAction → MonitorPost
  | .call call => post.call now call
  | .missed count => post.noteMissed now count
  | .other interference => post.interfere now interference
  | .settle desk woken => post.withDesk desk woken

def perform (post : MonitorPost) (actions : List (Span × FollowAction)) : MonitorPost :=
  actions.foldl (fun post action => post.act action.1 action.2) post

/-- What the observers answer to a document of the follower. -/
def answer? (post : MonitorPost) : FollowAction → Option ObserverAnswer
  | .call (.relay document) => some (post.observers.dispatch document).outcome
  | .call (.enter) | .call (.progress _) | .call (.exit) => none
  | .missed _ | .other _ | .settle _ _ => none

def answers (post : MonitorPost) : List (Span × FollowAction) → List ObserverAnswer
  | [] => []
  | (now, action) :: later => (post.answer? action).toList ++ answers (post.act now action) later

theorem perform_append (post : MonitorPost) (earlier later : List (Span × FollowAction)) :
    post.perform (earlier ++ later) = (post.perform earlier).perform later := by
  simp only [perform, List.foldl_append]

theorem answers_append (post : MonitorPost) (earlier later : List (Span × FollowAction)) :
    post.answers (earlier ++ later) =
      post.answers earlier ++ (post.perform earlier).answers later := by
  induction earlier generalizing post with
  | nil => rfl
  | cons action rest inductionHypothesis =>
      simp only [List.cons_append, answers, inductionHypothesis, List.append_assoc]
      rfl

def occur (post : MonitorPost) (job : Nat) (now : Span) : Occurrence → MonitorPost
  | .turn => post.followerTurn now job
  | .drop => post.cancelFollower now job
  | .send event => post.send event
  | .close => post.closeRemote
  | .other interference => post.interfere now interference

def pursue (post : MonitorPost) (job : Nat) (history : List (Span × Occurrence)) : MonitorPost :=
  history.foldl (fun post entry => post.occur job entry.1 entry.2) post

/-- What a follower receives in a turn, from a position of its stream on. -/
def takenWithin (now : Span) (routed : Bool) : Nat → Nat → MonitorPost → List (Reception RemoteEvent)
  | 0, _, _ => []
  | budget + 1, position, post =>
      match post.remote.receive position with
      | (.empty, _) => []
      | (reception, position) =>
          reception :: match post.follow now routed reception with
            | (after, none) => takenWithin now routed budget position after
            | (_, some _) => []

/-- What a follower receives in an occurrence. -/
def taken (post : MonitorPost) (job : Nat) (now : Span) : Occurrence → List (Reception RemoteEvent)
  | .turn =>
      match post.followers[job]? with
      | none | some ⟨_, .ended⟩ => []
      | some ⟨routed, .begun⟩ =>
          takenWithin now routed turnBudget post.remote.position (post.enter now)
      | some ⟨routed, .listening position⟩ => takenWithin now routed turnBudget position post
  | .drop | .send _ | .close | .other _ => []

def receipts (post : MonitorPost) (job : Nat) :
    List (Span × Occurrence) → List (Reception RemoteEvent)
  | [] => []
  | (now, occurrence) :: later =>
      post.taken job now occurrence ++ receipts (post.occur job now occurrence) job later

namespace Announces

theorem relay (post : MonitorPost) (now : Span) (document : Document) :
    Announces post (post.relay now document) [] := by
  have silent : ∀ entry ∈ Entry.handed document :: (post.observers.dispatch document).entries,
      entry.scopeEvent? = none := by
    intro entry member
    rcases List.mem_cons.mp member with rfl | reaction
    · rfl
    · have shown := post.observers.isReaction_of_mem_deliver document _ entry reaction
      cases entry with
      | delivered | logged => rfl
      | _ => cases shown
  exact (writeAll post now silent).andThen (of_journal_eq rfl rfl id rfl)

theorem interfere (post : MonitorPost) (now : Span) (interference : Interference) :
    Announces post (post.interfere now interference) [] := by
  cases interference with
  | progress notification => exact progress post now notification
  | timer handle => exact timerTurn post now handle
  | escalation index => exact of_errands (.escalationTurn post now index)
  | attach slots => exact attach post now slots
  | dispatch document => exact relay post now document
  | subscribe listener => exact of_journal_eq rfl rfl id rfl
  | unsubscribe number => exact of_journal_eq rfl rfl id rfl

end Announces

theorem interfere_inScope (post : MonitorPost) (now : Span) (interference : Interference) :
    (post.interfere now interference).monitor.inScope = post.monitor.inScope := by
  cases interference with
  | progress notification => exact post.progress_inScope now notification
  | timer handle => exact post.timerTurn_inScope now handle
  | escalation index => rw [interfere, (LeavesMonitor.escalationTurn post now index).monitor]
  | attach slots => exact post.attach_inScope now slots
  | dispatch document => rfl
  | subscribe listener => rfl
  | unsubscribe number => rfl

/-- The result that an answer of the observers brings, if any. -/
def refusal? : ObserverAnswer → Option FollowResult
  | .ok () => none
  | .error fault => some (.error (.dispatch fault))

theorem follow_of_own (post : MonitorPost) (now : Span) (routed : Bool) {event : RemoteEvent}
    (own : event.taskId = post.monitor.taskId) :
    post.follow now routed (.message event) =
      match event with
      | .progress notification => (post.progress now notification, none)
      | .finished _ outcome => (post, some (.ok outcome))
      | .document _ document =>
          if routed then
            (post.relay now document, refusal? (post.observers.dispatch document).outcome)
          else (post, none) := by
  simp only [MonitorPost.follow, ne_eq, own, not_true_eq_false, if_false]
  cases event with
  | progress notification => rfl
  | finished task outcome => rfl
  | document task document =>
      cases routed with
      | false => rfl
      | true =>
          simp only [if_true]
          cases (post.observers.dispatch document).outcome <;> rfl

/-- Some receptions are handled by these actions, none of which is of others. -/
structure Handles (routed : Bool) (before : MonitorPost) (items : List (Reception RemoteEvent))
    (actions : List (Span × FollowAction)) (after : MonitorPost) (result : Option FollowResult) :
    Prop where
  performed : after = before.perform actions
  alone : FollowAction.interferences actions = []
  reports : FollowAction.reports actions = Reception.missed items
  following : Following.along before.monitor.taskId routed items (before.answers actions) =
    ⟨FollowAction.calls actions, result, [], []⟩
  announces : Announces before after []
  inScope : after.monitor.inScope = before.monitor.inScope

namespace Handles

variable {routed : Bool} {before middle after : MonitorPost}
  {items more : List (Reception RemoteEvent)} {actions later : List (Span × FollowAction)}
  {result : Option FollowResult}

theorem nil (routed : Bool) (post : MonitorPost) : Handles routed post [] [] post none :=
  ⟨rfl, rfl, rfl, rfl, .refl post, rfl⟩

theorem trans (first : Handles routed before items actions middle none)
    (second : Handles routed middle more later after result) :
    Handles routed before (items ++ more) (actions ++ later) after result := by
  refine ⟨?_, ?_, ?_, ?_, first.announces.andThen second.announces,
    second.inScope.trans first.inScope⟩
  · rw [second.performed, first.performed, perform_append]
  · rw [FollowAction.interferences_append, first.alone, second.alone, List.nil_append]
  · rw [FollowAction.reports_append, Reception.missed_append, first.reports, second.reports]
  · have continued := second.following
    rw [first.announces.taskId] at continued
    have parted := Following.along_append (by rw [first.following]) (by rw [first.following]) more
      (middle.answers later)
    rw [answers_append, ← first.performed, parted, first.following, List.nil_append, continued]
    simp [Following.after, FollowAction.calls_append]

/-- A reception for which nothing is called brings a result by itself or none. -/
theorem of_uncalled {post : MonitorPost} {reception : Reception RemoteEvent}
    (uncalled : FollowCall.for? post.monitor.taskId routed reception = none)
    (told : reception.missed? = none) :
    Handles routed post [reception] [] post (FollowResult.of? post.monitor.taskId reception) := by
  refine ⟨rfl, rfl, ?_, ?_, .refl post, rfl⟩
  · rw [Reception.missed, List.filterMap_cons_none told]
    rfl
  · simp only [Following.along, uncalled]
    cases FollowResult.of? post.monitor.taskId reception <;> rfl

theorem lagged (post : MonitorPost) (now : Span) (count : Nat) :
    Handles routed post [.lagged count] [(now, .missed count)] (post.noteMissed now count) none :=
  ⟨rfl, rfl, rfl, rfl, .write post now _ rfl, rfl⟩

theorem progress (post : MonitorPost) (now : Span) {notification : Progress}
    (own : notification.taskId = post.monitor.taskId) :
    Handles routed post [.message (.progress notification)]
      [(now, .call (.progress notification))] (post.progress now notification) none := by
  refine ⟨rfl, rfl, rfl, ?_, .progress post now notification,
    post.progress_inScope now notification⟩
  simp [Following.along, FollowCall.for?, own, Following.after, FollowAction.calls, FollowAction.call?,
    answers, answer?]

theorem relay (post : MonitorPost) (now : Span) {task : String} (document : Document)
    (own : task = post.monitor.taskId) :
    Handles true post [.message (.document task document)] [(now, .call (.relay document))]
      (post.relay now document) (refusal? (post.observers.dispatch document).outcome) := by
  refine ⟨rfl, rfl, rfl, ?_, .relay post now document, rfl⟩
  have asked : post.answers [(now, .call (.relay document))] =
      [(post.observers.dispatch document).outcome] := rfl
  rw [asked]
  cases (post.observers.dispatch document).outcome with
  | ok value =>
      simp [Following.along, FollowCall.for?, own, Following.after, FollowAction.calls, FollowAction.call?,
        refusal?]
  | error fault =>
      simp [Following.along, FollowCall.for?, own, FollowAction.calls, FollowAction.call?, refusal?]

end Handles

theorem follow_handles (post : MonitorPost) (now : Span) (routed : Bool)
    (reception : Reception RemoteEvent) :
    ∃ actions, Handles routed post [reception] actions (post.follow now routed reception).1
      (post.follow now routed reception).2 := by
  cases reception with
  | empty => exact ⟨[], .of_uncalled rfl rfl⟩
  | lagged count => exact ⟨_, .lagged post now count⟩
  | closed => exact ⟨[], .of_uncalled rfl rfl⟩
  | message event =>
      by_cases own : event.taskId = post.monitor.taskId
      · rw [post.follow_of_own now routed own]
        cases event with
        | progress notification => exact ⟨_, .progress post now own⟩
        | finished task outcome =>
            have brings : FollowResult.of? post.monitor.taskId
                (.message (.finished task outcome)) = some (.ok outcome) := if_pos own
            have handled : Handles routed post [.message (.finished task outcome)] [] post _ :=
              .of_uncalled rfl rfl
            rw [brings] at handled
            exact ⟨[], handled⟩
        | document task document =>
            cases routed with
            | true => exact ⟨_, .relay post now document own⟩
            | false => exact ⟨[], .of_uncalled rfl rfl⟩
      · have foreign : Reception.concerns post.monitor.taskId (.message event) = false :=
          decide_eq_false own
        obtain ⟨uncalled, unending⟩ := Reception.of_not_concerns foreign routed
        have handled : Handles routed post [.message event] [] post _ := .of_uncalled uncalled rfl
        rw [unending] at handled
        simp only [MonitorPost.follow, ne_eq, own, not_false_eq_true, if_true]
        exact ⟨[], handled⟩

section Turn

variable {post : MonitorPost} {reception : Reception RemoteEvent} {position next : Nat}

theorem receive_of_empty (received : post.remote.receive position = (.empty, next)) :
    (post.remote.receive next).1 = .empty := by
  have same : next = position := by
    unfold Broadcast.receive at received
    split at received
    · cases received
    · split at received
      · cases received
      · exact (Prod.mk.inj received).2.symm
  rw [same, received]

theorem followWithin_succ (now : Span) (job : Nat) (routed : Bool) (budget : Nat)
    (received : post.remote.receive position = (reception, next)) (nonempty : reception ≠ .empty) :
    followWithin now job routed (budget + 1) position post =
      match post.follow now routed reception with
      | (after, none) => followWithin now job routed budget next after
      | (after, some result) => after.endFollower now job (some result) := by
  rw [followWithin, received]
  cases reception with
  | empty => exact absurd rfl nonempty
  | message event => rfl
  | lagged count => rfl
  | closed => rfl

theorem takenWithin_succ (now : Span) (routed : Bool) (budget : Nat)
    (received : post.remote.receive position = (reception, next)) (nonempty : reception ≠ .empty) :
    takenWithin now routed (budget + 1) position post =
      reception :: match post.follow now routed reception with
        | (after, none) => takenWithin now routed budget next after
        | (_, some _) => [] := by
  rw [takenWithin, received]
  cases reception with
  | empty => exact absurd rfl nonempty
  | message event => rfl
  | lagged count => rfl
  | closed => rfl

end Turn

/-- The follower is left waiting at a position of its stream, and nothing else is changed. -/
structure Waits (before after : MonitorPost) (job position : Nat) : Prop where
  settled : after = before.withDesk after.desk before.woken
  followers : after.followers =
    before.followers.modify job fun follower => { follower with stage := .listening position }
  remote : after.remote = before.remote
  finished : after.finished = before.finished

/-- How a turn ends in which a follower took some receptions: it waits because nothing is left
or the turn is over, or its last reception brought a result. -/
inductive TurnEnd (now : Span) (job took budget : Nat) (before after : MonitorPost) :
    Option FollowResult → Prop where
  | waits {position : Nat} (waits : Waits before after job position)
      (exhausted : (after.remote.receive position).1 = .empty ∨ took = budget) :
      TurnEnd now job took budget before after none
  | ends {result : FollowResult} (ended : after = before.endFollower now job (some result)) :
      TurnEnd now job took budget before after (some result)

theorem followWithin_handles (now : Span) (job : Nat) (routed : Bool) (budget position : Nat)
    (post : MonitorPost) :
    ∃ actions middle result,
      Handles routed post (takenWithin now routed budget position post) actions middle result ∧
        TurnEnd now job (takenWithin now routed budget position post).length budget middle
          (followWithin now job routed budget position post) result := by
  induction budget generalizing position post with
  | zero => exact ⟨[], post, none, .nil routed post, .waits ⟨rfl, rfl, rfl, rfl⟩ (Or.inr rfl)⟩
  | succ budget inductionHypothesis =>
      rcases received : post.remote.receive position with ⟨reception, next⟩
      by_cases nothing : reception = .empty
      · subst nothing
        simp only [takenWithin, followWithin, received]
        exact ⟨[], post, none, .nil routed post,
          .waits ⟨rfl, rfl, rfl, rfl⟩ (Or.inl (receive_of_empty received))⟩
      · rw [takenWithin_succ now routed budget received nothing,
          followWithin_succ now job routed budget received nothing]
        obtain ⟨actions, handled⟩ := post.follow_handles now routed reception
        rcases followed : post.follow now routed reception with ⟨after, result⟩
        rw [followed] at handled
        cases result with
        | none =>
            obtain ⟨later, last, brought, handledLater, ending⟩ := inductionHypothesis next after
            refine ⟨actions ++ later, last, brought, handled.trans handledLater, ?_⟩
            cases ending with
            | waits waits exhausted =>
                apply TurnEnd.waits waits
                exact exhausted.imp_right (congrArg Nat.succ)
            | ends ended => exact .ends ended
        | some result => exact ⟨actions, after, some result, handled, .ends rfl⟩

/-- A follower that goes on after a turn took all there was, or as much as a turn allows. -/
theorem followWithin_exhausts {now : Span} {job budget start position : Nat} {routed told : Bool}
    {post : MonitorPost}
    (stage : (followWithin now job routed budget start post).followers[job]? =
      some ⟨told, .listening position⟩) :
    ((followWithin now job routed budget start post).remote.receive position).1 = .empty ∨
      (takenWithin now routed budget start post).length = budget := by
  obtain ⟨actions, middle, result, handles, ending⟩ :=
    followWithin_handles now job routed budget start post
  cases ending with
  | waits waits exhausted =>
      rw [waits.followers, List.getElem?_modify_eq] at stage
      cases found : middle.followers[job]? with
      | none => simp [found] at stage
      | some follower =>
          rw [found] at stage
          have same := congrArg Follower.stage (Option.some.inj stage)
          rwa [FollowerStage.listening.inj same] at exhausted
  | ends ended =>
      simp only [ended, MonitorPost.endFollower, setFollower, List.getElem?_modify_eq] at stage
      cases found : (middle.exit now).followers[job]? <;> simp [found] at stage

theorem followerTurn_exhausts {now : Span} {job position : Nat} {told : Bool}
    {post : MonitorPost}
    (stage : (post.followerTurn now job).followers[job]? = some ⟨told, .listening position⟩) :
    ((post.followerTurn now job).remote.receive position).1 = .empty ∨
      (post.taken job now .turn).length = turnBudget := by
  cases found : post.followers[job]? with
  | none => simp [followerTurn, found] at stage
  | some follower =>
      obtain ⟨routed, before⟩ := follower
      cases before with
      | begun =>
          simp only [followerTurn, found, taken] at stage ⊢
          exact followWithin_exhausts stage
      | listening start =>
          simp only [followerTurn, found, taken] at stage ⊢
          exact followWithin_exhausts stage
      | ended => simp [followerTurn, found] at stage

end MonitorPost

end PlanSupervision
