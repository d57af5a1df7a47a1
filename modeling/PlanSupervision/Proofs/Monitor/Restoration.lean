import PlanSupervision.Proofs.Monitor.Reduction

/-!
Notifications that idle, deleted and put back. A course of calls is executed when the clock waits
for the timers on the way. Any course in order can be executed; the executions of a course and those
of what matters in it correspond to each other, and show the same at every instant.
-/

namespace PlanSupervision

namespace MonitorPost

open Monitor

namespace RunningTimer.Admits

variable {timer : RunningTimer} {now middle instant : Span}

theorem trans (first : RunningTimer.Admits timer now middle)
    (second : RunningTimer.Admits timer middle instant) :
    RunningTimer.Admits timer now instant := by
  unfold RunningTimer.Admits at first second ⊢
  cases due : timer.due with
  | none =>
      simp only [due] at first second ⊢
      exact second.trans first
  | some due =>
      simp only [due] at second ⊢
      exact second

theorem between (admits : RunningTimer.Admits timer now instant) (sinceNow : now ≤ middle)
    (upToInstant : middle ≤ instant) :
    RunningTimer.Admits timer now middle ∧ RunningTimer.Admits timer middle instant := by
  unfold RunningTimer.Admits at admits ⊢
  cases due : timer.due with
  | none =>
      simp only [due] at admits ⊢
      subst admits
      exact ⟨Nat.le_antisymm upToInstant sinceNow, Nat.le_antisymm sinceNow upToInstant⟩
  | some due =>
      simp only [due] at admits ⊢
      exact ⟨Nat.le_trans upToInstant admits, admits⟩

end RunningTimer.Admits

/-- The clock waits for every running timer, up to an instant after the last move. -/
def TimelyUntil (post : MonitorPost) (finish now : Span) : History → Prop
  | [] => now ≤ finish ∧ ∀ timer ∈ post.timers, RunningTimer.Admits timer now finish
  | (instant, move) :: later =>
      now ≤ instant ∧ (∀ timer ∈ post.timers, RunningTimer.Admits timer now instant) ∧
        TimelyUntil (post.step instant move) finish instant later

/-- A history of these calls, with the timers given their turns up to an instant. -/
structure Executes (post : MonitorPost) (finish : Span) (calls : List (Span × Call))
    (history : History) : Prop where
  calls : callsOf history = calls
  timely : post.TimelyUntil finish 0 history

/-- The state in which the moves up to an instant leave a post. -/
def stateAt (post : MonitorPost) (instant : Span) (history : History) : MonitorPost :=
  post.run (history.takeWhile (·.1 ≤ instant))

variable {origin : Monitor} {force : Option Bool} {post : MonitorPost}
  {finish now instant : Span} {history : History}

theorem callsOf_append (earlier later : History) :
    callsOf (earlier ++ later) = callsOf earlier ++ callsOf later :=
  List.filterMap_append

theorem callsOf_eq_nil_iff :
    callsOf history = [] ↔ ∀ entry ∈ history, entry.2.call? = none := by
  simp [callsOf]

theorem essential_of_uncalled (origin : Monitor) (force : Option Bool)
    (uncalled : callsOf history = []) :
    origin.essential Move.call? force history = history ∧
      origin.forceAfter Move.call? force history = force := by
  have silent := callsOf_eq_nil_iff.mp uncalled
  constructor
  · clear uncalled
    induction history with
    | nil => rfl
    | cons entry later inductionHypothesis =>
        obtain ⟨first, rest⟩ := List.forall_mem_cons.mp silent
        simp only [essential_of_silent first, inductionHypothesis rest]
  · simp only [forceAfter, List.filterMap_eq_nil_iff.mpr silent, List.foldl_nil]

theorem Tracks.run (tracks : Tracks origin force post) (history : History) :
    Tracks origin (origin.forceAfter Move.call? force history) (post.run history) := by
  induction history generalizing post force with
  | nil => exact tracks
  | cons entry later inductionHypothesis =>
      obtain ⟨instant, move⟩ := entry
      have onward := inductionHypothesis (tracks.step instant move)
      cases called : move.call? <;> simpa [forceAfter, called] using onward

namespace TimelyUntil

theorem le_of_mem (timely : post.TimelyUntil finish now history) {entry : Span × Move}
    (member : entry ∈ history) : now ≤ entry.1 := by
  induction history generalizing post now with
  | nil => cases member
  | cons head later inductionHypothesis =>
      rcases List.mem_cons.mp member with rfl | inLater
      · exact timely.1
      · exact Nat.le_trans timely.1 (inductionHypothesis timely.2.2 inLater)

/-- The clock may begin earlier, if the timers let it. -/
theorem earlier (timely : post.TimelyUntil finish instant history) (notAfter : now ≤ instant)
    (admits : ∀ timer ∈ post.timers, RunningTimer.Admits timer now instant) :
    post.TimelyUntil finish now history := by
  cases history with
  | nil =>
      exact ⟨Nat.le_trans notAfter timely.1,
        fun timer member => (admits timer member).trans (timely.2 timer member)⟩
  | cons entry later =>
      exact ⟨Nat.le_trans notAfter timely.1,
        fun timer member => (admits timer member).trans (timely.2.1 timer member), timely.2.2⟩

/-- The clock may stop on its way to the next move. -/
theorem pauses (timely : post.TimelyUntil finish now history) (notBefore : now ≤ instant)
    (inTime : instant ≤ finish) (next : ∀ entry ∈ history, instant ≤ entry.1) :
    (∀ timer ∈ post.timers, RunningTimer.Admits timer now instant) ∧
      (∀ timer ∈ post.timers, RunningTimer.Admits timer instant instant) ∧
      post.TimelyUntil finish instant history := by
  have stops : ∀ timer ∈ post.timers, ∀ target, instant ≤ target →
      RunningTimer.Admits timer now target →
      RunningTimer.Admits timer now instant ∧ RunningTimer.Admits timer instant instant := by
    intro timer _ target upTo admits
    obtain ⟨first, second⟩ := admits.between notBefore upTo
    exact ⟨first, (second.between (Nat.le_refl _) upTo).1⟩
  cases history with
  | nil =>
      refine ⟨fun timer member => (stops timer member finish inTime (timely.2 timer member)).1,
        fun timer member => (stops timer member finish inTime (timely.2 timer member)).2,
        inTime, fun timer member => ?_⟩
      exact ((timely.2 timer member).between notBefore inTime).2
  | cons entry later =>
      have upTo := next entry List.mem_cons_self
      refine ⟨fun timer member => (stops timer member _ upTo (timely.2.1 timer member)).1,
        fun timer member => (stops timer member _ upTo (timely.2.1 timer member)).2,
        upTo, fun timer member => ?_, timely.2.2⟩
      exact ((timely.2.1 timer member).between notBefore upTo).2

/-- The moves before an instant, and the clock at that instant after them. -/
theorem exists_split (timely : post.TimelyUntil finish now history) (notBefore : now ≤ instant)
    (inTime : instant ≤ finish) :
    ∃ before after, history = before ++ after ∧ (∀ entry ∈ before, entry.1 < instant) ∧
      (∀ timer ∈ (post.run before).timers, RunningTimer.Admits timer instant instant) ∧
      (post.run before).TimelyUntil finish instant after ∧
      ∀ rest, (post.run before).TimelyUntil finish instant rest →
        post.TimelyUntil finish now (before ++ rest) := by
  induction history generalizing post now with
  | nil =>
      obtain ⟨reaches, stands, waits⟩ := timely.pauses notBefore inTime (List.forall_mem_nil _)
      exact ⟨[], [], rfl, List.forall_mem_nil _, stands, waits,
        fun rest onward => onward.earlier notBefore reaches⟩
  | cons entry later inductionHypothesis =>
      by_cases soon : entry.1 < instant
      · obtain ⟨before, after, split, early, stands, waits, onward⟩ :=
          inductionHypothesis timely.2.2 (Nat.le_of_lt soon)
        refine ⟨entry :: before, after, congrArg (List.cons entry) split,
          List.forall_mem_cons.mpr ⟨soon, early⟩, stands, waits, ?_⟩
        exact fun rest continues => ⟨timely.1, timely.2.1, onward rest continues⟩
      · have next : ∀ other ∈ entry :: later, instant ≤ other.1 := by
          refine List.forall_mem_cons.mpr ⟨Nat.not_lt.mp soon, fun other member => ?_⟩
          exact Nat.le_trans (Nat.not_lt.mp soon) (timely.2.2.le_of_mem member)
        obtain ⟨reaches, stands, waits⟩ := timely.pauses notBefore inTime next
        exact ⟨[], entry :: later, rfl, List.forall_mem_nil _, stands, waits,
          fun rest onward => onward.earlier notBefore reaches⟩

/-- What follows a move can be replaced by anything that the clock allows from there. -/
theorem resumes {move : Move} {before after : History}
    (timely : post.TimelyUntil finish now (before ++ (instant, move) :: after)) :
    ((post.run before).step instant move).TimelyUntil finish instant after ∧
      ∀ rest, ((post.run before).step instant move).TimelyUntil finish instant rest →
        post.TimelyUntil finish now (before ++ (instant, move) :: rest) := by
  induction before generalizing post now with
  | nil => exact ⟨timely.2.2, fun rest onward => ⟨timely.1, timely.2.1, onward⟩⟩
  | cons entry later inductionHypothesis =>
      obtain ⟨waits, onward⟩ := inductionHypothesis timely.2.2
      exact ⟨waits, fun rest continues => ⟨timely.1, timely.2.1, onward rest continues⟩⟩

/-- The clock allows what remains of a history. -/
theorem essential (tracks : Tracks origin force post)
    (timely : post.TimelyUntil finish now history) :
    post.TimelyUntil finish now (origin.essential Move.call? force history) := by
  induction history generalizing post force now with
  | nil => exact timely
  | cons entry later inductionHypothesis =>
      obtain ⟨instant, move⟩ := entry
      have onward := inductionHypothesis (tracks.step instant move) timely.2.2
      cases called : move.call? with
      | none =>
          simp only [called, Option.elim_none] at onward
          simp only [essential_of_silent called]
          exact ⟨timely.1, timely.2.1, onward⟩
      | some call =>
          simp only [called, Option.elim_some] at onward
          simp only [essential_of_call called]
          split
          · rename_i idle
            simp only [inForce_of_idles idle, tracks.step_of_idles instant called idle] at onward
            exact onward.earlier timely.1 timely.2.1
          · exact ⟨timely.1, timely.2.1, onward⟩

theorem ordered (timely : post.TimelyUntil finish now history) :
    history.Pairwise fun former latter => former.1 ≤ latter.1 := by
  induction history generalizing post now with
  | nil => exact .nil
  | cons entry later inductionHypothesis =>
      exact .cons (fun other member => timely.2.2.le_of_mem member)
        (inductionHypothesis timely.2.2)

end TimelyUntil

/-- Of an ordered history, what remains up to an instant is what remains of the history up to that
instant. -/
theorem takeWhile_essential
    (ordered : history.Pairwise fun former latter => former.1 ≤ latter.1) (instant : Span) :
    (origin.essential Move.call? force history).takeWhile (·.1 ≤ instant) =
      origin.essential Move.call? force (history.takeWhile (·.1 ≤ instant)) := by
  induction history generalizing force with
  | nil => rfl
  | cons entry later inductionHypothesis =>
      obtain ⟨moment, move⟩ := entry
      obtain ⟨first, rest⟩ := List.pairwise_cons.mp ordered
      by_cases past : moment ≤ instant
      · cases called : move.call? with
        | none =>
            simp only [essential_of_silent called, List.takeWhile_cons, past, decide_true, if_true,
              inductionHypothesis rest]
        | some call =>
            simp only [essential_of_call called, List.takeWhile_cons, past, decide_true, if_true]
            split
            · exact inductionHypothesis rest
            · simp only [List.takeWhile_cons, past, decide_true, if_true,
                inductionHypothesis rest]
      · have none : ∀ entry ∈ origin.essential Move.call? force ((moment, move) :: later),
            ¬ entry.1 ≤ instant := by
          intro entry member reached
          rcases List.mem_cons.mp (mem_of_mem_essential member) with rfl | inLater
          · exact past reached
          · exact past (Nat.le_trans (first entry inLater) reached)
        have empty : (origin.essential Move.call? force ((moment, move) :: later)).takeWhile
            (·.1 ≤ instant) = [] := by
          cases remaining : origin.essential Move.call? force ((moment, move) :: later) with
          | nil => rfl
          | cons head tail =>
              have beyond := none head (by simp [remaining])
              simp only [List.takeWhile_cons, beyond, decide_false, Bool.false_eq_true, if_false]
        have cut : ((moment, move) :: later).takeWhile (·.1 ≤ instant) = [] := by
          simp only [List.takeWhile_cons, past, decide_false, Bool.false_eq_true, if_false]
        simp only [cut]
        exact empty

theorem Tracks.stateAt_essential (tracks : Tracks origin force post)
    (ordered : history.Pairwise fun former latter => former.1 ≤ latter.1) (instant : Span) :
    post.stateAt instant (origin.essential Move.call? force history) =
      post.stateAt instant history := by
  simp only [stateAt, takeWhile_essential ordered]
  exact (tracks.run_essential _).1

/-- The move that makes a call. -/
def Call.move : Call → Move
  | enter => .enter
  | progress notification => .progress notification
  | exit => .exit

theorem call_of_move (call : Call) : call.move.call? = some call := by
  cases call <;> rfl

theorem uncalled_of_early {before after : History} (early : ∀ entry ∈ before, entry.1 < instant)
    (late : ∀ entry ∈ callsOf (before ++ after), instant ≤ entry.1) : callsOf before = [] := by
  apply callsOf_eq_nil_iff.mpr
  intro entry member
  cases called : entry.2.call? with
  | none => rfl
  | some call =>
      have among : (entry.1, call) ∈ callsOf (before ++ after) :=
        List.mem_filterMap.mpr ⟨entry, List.mem_append_left _ member, by simp [called]⟩
      exact absurd (early entry member) (Nat.not_lt.mpr (late _ among))

/-- The clock allows some history of these calls of which this one remains. -/
def Restorable (origin : Monitor) (force : Option Bool) (post : MonitorPost) (finish now : Span)
    (calls : List (Span × Call)) (history : History) : Prop :=
  ∃ full, callsOf full = calls ∧ origin.essential Move.call? force full = history ∧
    post.TimelyUntil finish now full

namespace Restorable

variable {before after : History} {call : Call} {calls : List (Span × Call)}

/-- A call that idles is put where the clock stops on its way. -/
theorem insert (tracks : Tracks origin force post) (idle : origin.idles force call = true)
    (uncalled : callsOf before = [])
    (stands : ∀ timer ∈ (post.run before).timers, RunningTimer.Admits timer instant instant)
    (continues : ∀ rest, (post.run before).TimelyUntil finish instant rest →
      post.TimelyUntil finish now (before ++ rest))
    (later : Restorable origin force (post.run before) finish instant calls after) :
    Restorable origin force post finish now ((instant, call) :: calls) (before ++ after) := by
  obtain ⟨full, called, left, timely⟩ := later
  obtain ⟨whole, sameForce⟩ := essential_of_uncalled origin force uncalled
  have reached := tracks.run before
  simp only [sameForce] at reached
  have same := reached.step_of_idles instant (call_of_move call) idle
  refine ⟨before ++ (instant, call.move) :: full, ?_, ?_, ?_⟩
  · simp only [callsOf_append, uncalled, List.nil_append, callsOf_cons (call_of_move call), called]
  · simp only [essential_append, whole, sameForce, essential_of_call (call_of_move call), idle,
      if_true, left]
  · apply continues
    exact ⟨Nat.le_refl instant, stands, by simpa only [same] using timely⟩

/-- Any other call is in the history already. -/
theorem keep {move : Move} (called : move.call? = some call)
    (counts : origin.idles force call = false) (uncalled : callsOf before = [])
    (continues : ∀ rest, ((post.run before).step instant move).TimelyUntil finish instant rest →
      post.TimelyUntil finish now (before ++ (instant, move) :: rest))
    (later : Restorable origin (origin.inForce force call) ((post.run before).step instant move)
      finish instant calls after) :
    Restorable origin force post finish now ((instant, call) :: calls)
      (before ++ (instant, move) :: after) := by
  obtain ⟨full, calledLater, left, timely⟩ := later
  obtain ⟨whole, sameForce⟩ := essential_of_uncalled origin force uncalled
  refine ⟨before ++ (instant, move) :: full, ?_, ?_, continues full timely⟩
  · simp only [callsOf_append, uncalled, List.nil_append, callsOf_cons called, calledLater]
  · simp only [essential_append, whole, sameForce, essential_of_call called, counts,
      Bool.false_eq_true, if_false, left]

end Restorable

/-- The notifications that were deleted can be put back into a history of what remains, by induction
on the calls. -/
theorem restorable {calls : List (Span × Call)} (tracks : Tracks origin force post)
    (ordered : (now :: calls.map Prod.fst ++ [finish]).Pairwise (· ≤ ·))
    (timely : post.TimelyUntil finish now history)
    (remaining : callsOf history = origin.essential some force calls) :
    Restorable origin force post finish now calls history := by
  induction calls generalizing post force now history with
  | nil => exact ⟨history, remaining, (essential_of_uncalled origin force remaining).1, timely⟩
  | cons entry later inductionHypothesis =>
      obtain ⟨instant, call⟩ := entry
      simp only [List.map_cons, List.cons_append, List.pairwise_cons] at ordered
      obtain ⟨sinceNow, upTo, orderedLater⟩ := ordered
      have onward : (instant :: later.map Prod.fst ++ [finish]).Pairwise (· ≤ ·) := by
        simp only [List.cons_append, List.pairwise_cons]
        exact ⟨upTo, orderedLater⟩
      simp only [essential_of_call rfl] at remaining
      cases idle : origin.idles force call with
      | true =>
          simp only [idle, if_true] at remaining
          obtain ⟨before, after, rfl, early, stands, waits, continues⟩ :=
            timely.exists_split (sinceNow instant List.mem_cons_self) (upTo finish (by simp))
          have late : ∀ entry ∈ callsOf (before ++ after), instant ≤ entry.1 := by
            intro entry among
            simp only [remaining] at among
            apply upTo
            exact List.mem_append_left _ (List.mem_map_of_mem (mem_of_mem_essential among))
          have uncalled := uncalled_of_early early late
          have reached := tracks.run before
          simp only [(essential_of_uncalled origin force uncalled).2] at reached
          simp only [callsOf_append, uncalled, List.nil_append] at remaining
          exact .insert tracks idle uncalled stands continues
            (inductionHypothesis reached onward waits remaining)
      | false =>
          simp only [idle, Bool.false_eq_true, if_false] at remaining
          obtain ⟨before, ⟨moment, move⟩, after, rfl, silent, called, remainingLater⟩ :=
            List.filterMap_eq_cons_iff.mp remaining
          obtain ⟨sameCall, rfl⟩ : move.call? = some call ∧ moment = instant := by
            obtain ⟨other, isCall, same⟩ := Option.map_eq_some_iff.mp called
            obtain ⟨rfl, rfl⟩ := Prod.mk.inj same
            exact ⟨isCall, rfl⟩
          have uncalled : callsOf before = [] := List.filterMap_eq_nil_iff.mpr silent
          have reached := (tracks.run before).step moment move
          simp only [(essential_of_uncalled origin force uncalled).2, sameCall,
            Option.elim_some] at reached
          obtain ⟨waits, continues⟩ := timely.resumes
          exact .keep sameCall idle uncalled continues
            (inductionHypothesis reached onward waits remainingLater)

theorem timelyUntil_iff (move : Move) :
    post.TimelyUntil finish now history ↔ post.Timely now (history ++ [(finish, move)]) := by
  induction history generalizing post now with
  | nil => simp only [TimelyUntil, List.nil_append, Timely, and_true]
  | cons entry later inductionHypothesis =>
      simp only [TimelyUntil, List.cons_append, Timely, inductionHypothesis]

theorem callsOf_eq_nil_of_silent (silent : MonitorPost.calls history = []) :
    callsOf history = [] := by
  apply callsOf_eq_nil_iff.mpr
  intro entry member
  have turn : entry.2.isCall = false := by
    simpa using List.filter_eq_nil_iff.mp silent entry member
  cases move : entry.2 with
  | turn task => rfl
  | enter | progress _ | exit =>
      simp only [move] at turn
      cases turn

/-- Outside any scope, or in one with a timer that the clock has not passed. -/
def Poised (origin : Monitor) (now : Span) (post : MonitorPost) : Prop :=
  post.AtRest ∨ ∃ entered waiting, Inside origin entered waiting now post

namespace Poised

theorem held (poised : Poised origin now post) :
    post.timers.map RunningTimer.handle = post.monitor.timer.toList := by
  rcases poised with rest | ⟨_, _, inside⟩
  · simp [rest.timer, rest.timers]
  · exact inside.held

theorem call (poised : Poised origin now post) (task : post.monitor.SameTask origin)
    (admits : ∀ timer ∈ post.timers, RunningTimer.Admits timer now instant) (call : Call) :
    Poised origin instant (post.step instant call.move) := by
  cases call with
  | enter =>
      have entered : Guarded origin instant false instant instant (post.enter instant) :=
        (guarded_of_arm
          { post.monitor with inScope := true, waiting := false, started := some instant }
          rfl rfl ⟨task.taskId, task.statusName, task.timeout, task.metadata⟩ poised.held).1
      exact Or.inr ⟨instant, false, .guarded instant entered⟩
  | progress notification =>
      rcases poised with rest | ⟨entered, waiting, inside⟩
      · exact Or.inl (rest.step instant fun _ => ⟨notification, rfl⟩).1
      · exact Or.inr ⟨entered, _, inside.step admits _ fun _ => ⟨notification, rfl⟩⟩
  | exit =>
      left
      rcases poised with rest | ⟨_, _, inside⟩
      · simpa only [Call.move, MonitorPost.step, rest.exit_eq_self] using rest
      · exact (exit_of_inScope inside.within.inScope instant inside.held).1

/-- The turns of the timers alone fill the time up to any instant. -/
theorem exists_turns (poised : Poised origin now post) (positive : 0 < origin.timeout)
    (forward : now ≤ instant) :
    ∃ turns reached, callsOf turns = [] ∧ reached ≤ instant ∧
      Poised origin reached (post.run turns) ∧
      (∀ timer ∈ (post.run turns).timers, RunningTimer.Admits timer reached instant) ∧
      ∀ rest, (post.run turns).Timely reached rest → post.Timely now (turns ++ rest) := by
  rcases poised with rest | ⟨entered, waiting, inside⟩
  · refine ⟨[], now, rfl, forward, Or.inl rest, ?_, fun _ timely => timely⟩
    simp [rest.timers]
  · obtain ⟨turns, reached, fills⟩ := inside.exists_fills positive forward
    exact ⟨turns, reached, callsOf_eq_nil_of_silent fills.silent, fills.notAfter,
      Or.inr ⟨entered, waiting, fills.inside⟩, fills.admits, fills.timely⟩

/-- Calls at instants in order can be executed, by induction on the calls. -/
theorem exists_timely {calls : List (Span × Call)} (poised : Poised origin now post)
    (tracks : Tracks origin force post) (positive : 0 < origin.timeout)
    (ordered : (now :: calls.map Prod.fst ++ [finish]).Pairwise (· ≤ ·)) :
    ∃ history, callsOf history = calls ∧ post.TimelyUntil finish now history := by
  induction calls generalizing now post force with
  | nil =>
      have forward : now ≤ finish := by simpa using ordered
      obtain ⟨turns, reached, silent, notAfter, -, admits, onward⟩ :=
        poised.exists_turns positive forward
      refine ⟨turns, silent, (timelyUntil_iff .exit).mpr ?_⟩
      exact onward _ ⟨notAfter, admits, trivial⟩
  | cons entry later inductionHypothesis =>
      obtain ⟨instant, call⟩ := entry
      simp only [List.map_cons, List.cons_append, List.pairwise_cons] at ordered
      obtain ⟨sinceNow, following⟩ := ordered
      obtain ⟨turns, reached, silent, notAfter, stillPoised, admits, onward⟩ :=
        poised.exists_turns positive (sinceNow instant List.mem_cons_self)
      have filled := tracks.run turns
      obtain ⟨rest, called, timely⟩ :=
        inductionHypothesis (stillPoised.call filled.task admits call)
          (filled.step instant call.move)
          (by simpa only [List.cons_append, List.pairwise_cons] using following)
      refine ⟨turns ++ (instant, call.move) :: rest, ?_, (timelyUntil_iff .exit).mpr ?_⟩
      · simp only [callsOf_append, silent, List.nil_append, callsOf_cons (call_of_move call), called]
      · simp only [List.append_assoc]
        exact onward _ ⟨notAfter, admits, (timelyUntil_iff .exit).mp timely⟩

end Poised

/-- Only changes of the classification matter. Any course of calls in order can be executed; its
executions are those of what remains of it when the notifications that idle are deleted, with these
put back; either shows the same states at every instant, with the same events and decisions and
their instants. Inside a scope, the changes that are published are the classifications that remain,
in order, and they alternate, the first being that the task waits. -/
theorem only_changes_matter (config : Config) (taskId : String) (parameters : Json)
    (cancelService alertService : Service) (bus : Option (Broadcast Event))
    (calls : List (Span × Call)) (finish : Span) :
    let monitor := Monitor.ofTask config taskId parameters
    let post := fresh monitor cancelService alertService bus
    let remaining := monitor.essential some none calls
    (∀ history, post.Executes finish calls history →
      let reduced := monitor.essential Move.call? none history
      post.Executes finish remaining reduced ∧
        (∀ instant, post.stateAt instant reduced = post.stateAt instant history) ∧
        post.decisions reduced = post.decisions history) ∧
      ((calls.map Prod.fst ++ [finish]).Pairwise (· ≤ ·) →
        (∃ history, post.Executes finish calls history) ∧
          ∀ reduced, post.Executes finish remaining reduced →
            ∃ history, post.Executes finish calls history ∧
              monitor.essential Move.call? none history = reduced) ∧
      ∀ earlier entered scope,
        (∀ entry ∈ callsOf scope, ∃ notification, entry.2 = .progress notification) →
        let inside := monitor.essential some (some false) (callsOf scope)
        let changes := monitor.classifications inside
        callsOf (monitor.essential Move.call? none (earlier ++ (entered, .enter) :: scope)) =
            callsOf (monitor.essential Move.call? none earlier) ++ (entered, .enter) :: inside ∧
          changesIn (post.run (earlier ++ (entered, .enter) :: scope)).journal =
            changesIn (post.run earlier).journal ++
              (if bus.isSome then changes.map fun change =>
                (change.1, some (Monitor.changeName change.2)) else []) ∧
          changes.map Prod.snd = alternating true changes.length := by
  intro monitor post remaining
  have tracks : Tracks monitor none post := tracks_fresh monitor cancelService alertService bus rfl
  refine ⟨?_, ?_, ?_⟩
  · intro history executes reduced
    refine ⟨⟨?_, executes.timely.essential tracks⟩,
      tracks.stateAt_essential executes.timely.ordered, (tracks.run_essential history).2⟩
    exact (callsOf_essential none history).trans (congrArg _ executes.calls)
  · intro ordered
    have sinceStart : ((0 : Span) :: calls.map Prod.fst ++ [finish]).Pairwise (· ≤ ·) := by
      simp only [List.cons_append, List.pairwise_cons]
      exact ⟨fun instant _ => Nat.zero_le instant, ordered⟩
    constructor
    · have poised : Poised monitor 0 post := Or.inl ⟨rfl, rfl, rfl⟩
      have positive : 0 < monitor.timeout :=
        Nat.lt_of_lt_of_le (by decide : 0 < Config.leastInterval) (Nat.le_max_right _ _)
      obtain ⟨history, same, timely⟩ := poised.exists_timely tracks positive sinceStart
      exact ⟨history, same, timely⟩
    · intro reduced executes
      obtain ⟨history, same, left, timely⟩ :=
        restorable tracks sinceStart executes.timely executes.calls
      exact ⟨history, ⟨same, timely⟩, left⟩
  · intro earlier entered scope insideScope inside changes
    have begins : callsOf ((entered, .enter) :: scope) = (entered, .enter) :: callsOf scope := rfl
    have kept : ∀ force, monitor.essential some force ((entered, .enter) :: callsOf scope) =
        (entered, .enter) :: inside := fun force => rfl
    refine ⟨?_, ?_, classifications_alternate false insideScope⟩
    · simp only [callsOf_essential, callsOf_append, essential_append, begins, kept]
    · have told := (tracks.run earlier).tells_run ((entered, .enter) :: scope)
      have before := (tracks.tells_run earlier).attached
      have attached : post.attached = bus.isSome := rfl
      simp only [run_append, told.changes, begins, kept, before, attached]
      rfl

end MonitorPost

end PlanSupervision
