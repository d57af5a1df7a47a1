import PlanSupervision.Proofs.Monitor.Duty
import PlanSupervision.Proofs.Monitor.Race
import PlanSupervision.Proofs.Monitor.Scope

/-!
The conduct of a monitoring post in any history. A move is made of calls of the monitor, turns
of its timers, stages of escalations, and steps aside that concern none of these; what all of
them keep, every history keeps. In particular a post keeps its timers as its monitor does.
-/

namespace PlanSupervision

/-- An entry that neither publishes an event nor calls a service. -/
def Entry.isAside : Entry → Bool
  | .handed _ | .delivered _ _ | .logged _ => true
  | _ => false

theorem Entry.isAside_of_isReaction {entry : Entry} (reaction : entry.isReaction = true) :
    entry.isAside = true := by
  cases entry with
  | delivered | logged => rfl
  | _ => cases reaction

theorem Entry.duty?_of_isAside {entry : Entry} (quiet : entry.isAside = true) :
    entry.duty? = none := by
  cases entry with
  | handed | delivered | logged => rfl
  | _ => cases quiet

namespace MonitorPost

/-- A step that concerns neither the monitor with its timers nor any escalation. -/
structure Aside (before after : MonitorPost) : Prop where
  monitor : after.monitor = before.monitor
  timers : after.timers = before.timers
  escalations : after.escalations = before.escalations
  bus : after.bus = before.bus
  journal : ∃ written : Journal, after.journal = before.journal ++ written ∧
    ∀ entry ∈ written, entry.2.isAside = true

namespace Aside

variable {before after : MonitorPost}

theorem of_journal_eq (monitor : after.monitor = before.monitor)
    (timers : after.timers = before.timers) (escalations : after.escalations = before.escalations)
    (bus : after.bus = before.bus) (journal : after.journal = before.journal) :
    Aside before after := by
  refine ⟨monitor, timers, escalations, bus, [], ?_, by simp⟩
  rw [journal, List.append_nil]

theorem leaves (aside : Aside before after) : LeavesMonitor before after :=
  ⟨aside.monitor, aside.timers, by rw [aside.escalations]⟩

theorem reports (aside : Aside before after) : Reports before after [] := by
  obtain ⟨written, journal, quiet⟩ := aside.journal
  refine ⟨?_, aside.escalations, written, journal, ?_⟩
  · rw [attached, attached, aside.bus]
  · apply List.filterMap_eq_nil_iff.mpr
    intro entry member
    exact Entry.duty?_of_isAside (quiet entry member)

theorem write (post : MonitorPost) (now : Span) {entry : Entry} (quiet : entry.isAside = true) :
    Aside post (post.write now entry) := by
  refine ⟨rfl, rfl, rfl, rfl, [(now, entry)], rfl, ?_⟩
  intro written member
  obtain rfl := List.mem_singleton.mp member
  exact quiet

theorem dispatch (post : MonitorPost) (now : Span) (document : Document) :
    let dispatch := post.observers.dispatch document
    Aside post { post with
      observers := dispatch.observers
      journal := post.journal.write now (.handed document :: dispatch.entries) } := by
  intro dispatch
  refine ⟨rfl, rfl, rfl, rfl, _, rfl, ?_⟩
  intro written member
  obtain ⟨entry, entryMember, rfl⟩ := List.mem_map.mp member
  rcases List.mem_cons.mp entryMember with rfl | reaction
  · rfl
  · exact Entry.isAside_of_isReaction
      (post.observers.isReaction_of_mem_deliver document _ entry reaction)

end Aside

/-- Does a move enter a scope? The first turn of a follower does. -/
def Enters (post : MonitorPost) : Move → Prop
  | .enter => True
  | .turn (.follower job) => ∃ routed, post.followers[job]? = some ⟨routed, .begun⟩
  | .progress _ | .exit | .turn (.timer _) | .turn (.escalation _) => False

/-- A history none of whose moves enters a scope. -/
def StaysOut (post : MonitorPost) : History → Prop
  | [] => True
  | (instant, move) :: later =>
      ¬ post.Enters move ∧ StaysOut (post.step instant move) later

/-- What is kept by all that a move is made of, apart from entering a scope. -/
structure KeptOutside (holds : MonitorPost → Prop) : Prop where
  progress : ∀ {post : MonitorPost} (now : Span) (progress : Progress),
    holds post → holds (post.progress now progress)
  exit : ∀ {post : MonitorPost} (now : Span), holds post → holds (post.exit now)
  timerTurn : ∀ {post : MonitorPost} (now : Span) (handle : Nat),
    holds post → holds (post.timerTurn now handle)
  advance : ∀ {post : MonitorPost} (now : Span) (index : Nat),
    holds post → holds (post.advanceEscalation now index)
  aside : ∀ {before after : MonitorPost}, Aside before after → holds before → holds after

structure Kept (holds : MonitorPost → Prop) : Prop extends KeptOutside holds where
  enter : ∀ {post : MonitorPost} (now : Span), holds post → holds (post.enter now)

variable {holds : MonitorPost → Prop} {post : MonitorPost}

namespace KeptOutside

theorem follow (kept : KeptOutside holds) (now : Span) (routed : Bool)
    (reception : Reception RemoteEvent) (before : holds post) :
    holds (post.follow now routed reception).1 := by
  cases reception with
  | empty => exact before
  | lagged missed => exact kept.aside (.write post now rfl) before
  | closed => exact before
  | message event =>
      by_cases foreign : event.taskId ≠ post.monitor.taskId
      · simp only [MonitorPost.follow, if_pos foreign]
        exact before
      · simp only [MonitorPost.follow, if_neg foreign]
        cases event with
        | progress notification => exact kept.progress now notification before
        | finished _ outcome => exact before
        | document _ document =>
            have dispatched := kept.aside (.dispatch post now document) before
            cases routed with
            | false => exact before
            | true =>
                simp only [if_true]
                cases (post.observers.dispatch document).outcome with
                | ok value => exact dispatched
                | error fault => exact dispatched

theorem endFollower (kept : KeptOutside holds) (now : Span) (job : Nat)
    (result : Option FollowResult) (before : holds post) :
    holds (post.endFollower now job result) := by
  apply kept.aside _ (kept.exit now before)
  exact .of_journal_eq rfl rfl rfl rfl rfl

theorem followWithin (kept : KeptOutside holds) (now : Span) (job : Nat) (routed : Bool)
    (budget position : Nat) (before : holds post) :
    holds (MonitorPost.followWithin now job routed budget position post) := by
  induction budget generalizing position post with
  | zero =>
      apply kept.aside _ before
      exact .of_journal_eq rfl rfl rfl rfl rfl
  | succ budget inductionHypothesis =>
      unfold MonitorPost.followWithin
      split
      · apply kept.aside _ before
        exact .of_journal_eq rfl rfl rfl rfl rfl
      · rename_i reception next _ _
        have after := kept.follow now routed reception before
        split
        · rename_i same
          rw [same] at after
          exact inductionHypothesis next after
        · rename_i same
          rw [same] at after
          exact kept.endFollower now job _ after

theorem escalationTurn (kept : KeptOutside holds) (now : Span) (index : Nat)
    (before : holds post) : holds (post.escalationTurn now index) :=
  kept.advance now index (kept.advance now index (kept.advance now index before))

theorem step (kept : KeptOutside holds) (now : Span) {move : Move}
    (stays : ¬ post.Enters move) (before : holds post) : holds (post.step now move) := by
  match move with
  | .enter => exact absurd trivial stays
  | .progress notification => exact kept.progress now notification before
  | .exit => exact kept.exit now before
  | .turn (.timer handle) => exact kept.timerTurn now handle before
  | .turn (.escalation index) => exact kept.escalationTurn now index before
  | .turn (.follower job) =>
      simp only [MonitorPost.step, turn, followerTurn]
      split
      · exact before
      · exact before
      · rename_i routed begun
        exact absurd ⟨routed, begun⟩ stays
      · exact kept.followWithin now job _ turnBudget _ before

theorem run (kept : KeptOutside holds) {history : History} (stays : post.StaysOut history)
    (before : holds post) : holds (post.run history) := by
  induction history generalizing post with
  | nil => exact before
  | cons entry later inductionHypothesis =>
      exact inductionHypothesis stays.2 (kept.step entry.1 stays.1 before)

end KeptOutside

namespace Kept

theorem step (kept : Kept holds) (now : Span) (move : Move) (before : holds post) :
    holds (post.step now move) := by
  by_cases enters : post.Enters move
  · match move, enters with
    | .enter, _ => exact kept.enter now before
    | .turn (.follower job), ⟨routed, begun⟩ =>
        simp only [MonitorPost.step, turn, followerTurn, begun]
        exact kept.followWithin now job routed turnBudget _ (kept.enter now before)
  · exact kept.toKeptOutside.step now enters before

theorem run (kept : Kept holds) (history : History) (before : holds post) :
    holds (post.run history) := by
  induction history generalizing post with
  | nil => exact before
  | cons entry later inductionHypothesis =>
      exact inductionHypothesis (kept.step entry.1 entry.2 before)

end Kept

/-- The timer that runs is the one that the monitor holds, of the generation of the monitor, and
it is held only inside a scope. -/
structure Steady (post : MonitorPost) : Prop where
  held : post.timers.map RunningTimer.handle = post.monitor.timer.toList
  newest : ∀ timer ∈ post.timers, timer.generation = post.monitor.generation
  inScope : post.monitor.timer.isSome = true → post.monitor.inScope = true

theorem AtRest.steady (rest : post.AtRest) : post.Steady := by
  constructor <;> simp [rest.timer, rest.timers]

namespace Steady

theorem timers_eq_nil (steady : post.Steady) (none : post.monitor.timer = none) :
    post.timers = [] := by
  have held := steady.held
  rwa [none, Option.toList_none, List.map_eq_nil_iff] at held

theorem atRest (steady : post.Steady) (outside : post.monitor.inScope = false) : post.AtRest := by
  have unarmed : post.monitor.timer = none := by
    cases held : post.monitor.timer with
    | none => rfl
    | some handle =>
        have inScope := steady.inScope (by simp [held])
        rw [outside] at inScope
        cases inScope
  exact ⟨outside, unarmed, steady.timers_eq_nil unarmed⟩

theorem of_leaves {after : MonitorPost} (steady : post.Steady) (leaves : LeavesMonitor post after) :
    after.Steady := by
  refine ⟨?_, ?_, ?_⟩
  · rw [leaves.timers, leaves.monitor]
    exact steady.held
  · rw [leaves.timers, leaves.monitor]
    exact steady.newest
  · rw [leaves.monitor]
    exact steady.inScope

/-- Arming the monitor anew, whatever else of it was changed before. -/
theorem arm (steady : post.Steady) (monitor : Monitor) (now : Span) (event : Event)
    (inScope : monitor.inScope = true) (timer : monitor.timer = post.monitor.timer) :
    (post.carryOutAll now (monitor.arm.1, monitor.arm.2 ++ [.publish event])).Steady := by
  have held := steady.held
  rw [← timer] at held
  obtain ⟨armed, timers, _⟩ := carryOutAll_arm monitor now event held
  refine ⟨?_, ?_, fun _ => ?_⟩
  · rw [armed, timers]
    rfl
  · intro running member
    rw [timers] at member
    rw [armed, List.mem_singleton.mp member]
    rfl
  · rw [armed]
    exact inScope

theorem progress (steady : post.Steady) (now : Span) (notification : Progress) :
    (post.progress now notification).Steady := by
  rw [MonitorPost.progress]
  rcases MonitorRace.progress_cases post.monitor notification with
    unmoved | ⟨waiting, event, inScope, armed⟩
  · rw [unmoved]
    exact steady
  · rw [armed]
    exact steady.arm { post.monitor with waiting } now event inScope rfl

theorem exit (steady : post.Steady) (now : Span) : (post.exit now).Steady := by
  cases inScope : post.monitor.inScope with
  | true => exact (exit_of_inScope inScope now steady.held).1.steady
  | false =>
      rw [(steady.atRest inScope).exit_eq_self]
      exact steady

/-- Only the timer that is held runs. -/
theorem timers_eq (steady : post.Steady) {timer : RunningTimer} (member : timer ∈ post.timers) :
    post.timers = [timer] ∧ post.monitor.inScope = true := by
  have held := steady.held
  cases isHeld : post.monitor.timer with
  | none =>
      rw [steady.timers_eq_nil isHeld] at member
      cases member
  | some handle =>
      rw [isHeld, Option.toList_some, List.map_eq_singleton_iff] at held
      obtain ⟨sole, timers, _⟩ := held
      rw [timers] at member
      rw [timers, List.mem_singleton.mp member]
      exact ⟨rfl, steady.inScope (by simp [isHeld])⟩

/-- The timer that runs is over, and another one is started if the task waits. -/
theorem expire (steady : post.Steady) (now : Span) {timer : RunningTimer}
    (member : timer ∈ post.timers) :
    ({ post with timers := post.timers.filter (·.handle != timer.handle) }.carryOutAll now
      (post.monitor.expire timer.generation now)).Steady := by
  obtain ⟨sole, inScope⟩ := steady.timers_eq member
  have none : post.timers.filter (·.handle != timer.handle) = [] := by simp [sole]
  rw [none, steady.newest timer member]
  cases waiting : post.monitor.waiting <;>
    constructor <;>
    simp [carryOutAll, Monitor.expire, Monitor.startTimer, inScope, waiting, carryOut, wake]

theorem timerTurn (steady : post.Steady) (now : Span) (handle : Nat) :
    (post.timerTurn now handle).Steady := by
  unfold MonitorPost.timerTurn
  split
  · exact steady
  · refine ⟨?_, ?_, steady.inScope⟩
    · rw [← steady.held, List.map_map]
      apply List.map_congr_left
      intro timer member
      by_cases same : timer.handle = handle <;> simp [same]
    · intro timer member
      obtain ⟨former, formerMember, rfl⟩ := List.mem_map.mp member
      rw [← steady.newest former formerMember]
      split <;> rfl
  · rename_i named generation due found
    split
    · have isNamed : named = handle := by simpa using List.find?_some found
      rw [← isNamed]
      exact steady.expire now (List.mem_of_find?_eq_some found)
    · exact steady

end Steady

theorem steady_kept : Kept Steady := by
  constructor
  · constructor
    · exact fun now notification steady => steady.progress now notification
    · exact fun now steady => steady.exit now
    · exact fun now handle steady => steady.timerTurn now handle
    · exact fun now index steady => steady.of_leaves (.advanceEscalation _ now index)
    · exact fun aside steady => steady.of_leaves aside.leaves
  · intro post now steady
    exact steady.arm { post.monitor with inScope := true, waiting := false, started := some now }
      now _ rfl rfl

theorem AtRest.run_steady (rest : post.AtRest) (history : History) : (post.run history).Steady :=
  steady_kept.run history rest.steady

end MonitorPost

end PlanSupervision
