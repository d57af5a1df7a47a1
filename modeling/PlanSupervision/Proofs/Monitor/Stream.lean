import PlanSupervision.Monitor.Post

/-!
What a follower makes of the stream that it receives: a fold up to the first reception that
ends it. The answers of the observers are given to the fold from outside, one for each document
that is relayed. Receptions that do not concern the task make no difference.
-/

namespace PlanSupervision

/-- What a follower calls: the monitor, or the observers with a document. -/
inductive FollowCall where
  | enter
  | progress (progress : Progress)
  | relay (document : Document)
  | exit

abbrev ObserverAnswer := Except DispatchFault Unit

/-- The call that is made for a reception, if any. -/
def FollowCall.for? (taskId : String) (routed : Bool) : Reception RemoteEvent → Option FollowCall
  | .message (.progress notification) =>
      if notification.taskId = taskId then some (.progress notification) else none
  | .message (.document task document) =>
      if routed && task = taskId then some (.relay document) else none
  | .message (.finished _ _) | .lagged _ | .empty | .closed => none

/-- The result that a reception brings by itself, if any. -/
def FollowResult.of? (taskId : String) : Reception RemoteEvent → Option FollowResult
  | .message (.finished task outcome) => if task = taskId then some (.ok outcome) else none
  | .closed => some (.error (.streamClosed taskId))
  | .message (.progress _) | .message (.document _ _) | .lagged _ | .empty => none

/-- What becomes of a stream. Without a result the follower goes on after it. -/
structure Following where
  calls : List FollowCall
  result : Option FollowResult
  /-- The receptions that are not processed. -/
  left : List (Reception RemoteEvent)
  /-- The answers of the observers that are not asked for. -/
  unasked : List ObserverAnswer

namespace Following

def after (following : Following) (calls : List FollowCall) : Following :=
  { following with calls := calls ++ following.calls }

/-- The fold over a stream. A document that finds no answer is left with all that follows it. -/
def along (taskId : String) (routed : Bool) :
    List (Reception RemoteEvent) → List ObserverAnswer → Following
  | [], answers => ⟨[], none, [], answers⟩
  | item :: rest, answers =>
      match FollowCall.for? taskId routed item with
      | some (.relay document) =>
          match answers with
          | [] => ⟨[], none, item :: rest, []⟩
          | .error fault :: later =>
              ⟨[.relay document], some (.error (.dispatch fault)), rest, later⟩
          | .ok () :: later => (along taskId routed rest later).after [.relay document]
      | some call => (along taskId routed rest answers).after [call]
      | none =>
          match FollowResult.of? taskId item with
          | some result => ⟨[], some result, rest, answers⟩
          | none => along taskId routed rest answers

end Following

/-- Does a reception concern the follower of a task? The events of other tasks and the reports
of lost events do not. -/
def Reception.concerns (taskId : String) : Reception RemoteEvent → Bool
  | .message event => event.taskId = taskId
  | .closed => true
  | .empty | .lagged _ => false

theorem Reception.of_not_concerns {taskId : String} {item : Reception RemoteEvent}
    (foreign : item.concerns taskId = false) (routed : Bool) :
    FollowCall.for? taskId routed item = none ∧ FollowResult.of? taskId item = none := by
  cases item with
  | message event =>
      have other : event.taskId ≠ taskId := of_decide_eq_false foreign
      cases event with
      | progress notification => exact ⟨if_neg other, rfl⟩
      | document task document =>
          refine ⟨if_neg ?_, rfl⟩
          simp only [Bool.and_eq_true, decide_eq_true_eq, not_and]
          exact fun _ => other
      | finished task outcome => exact ⟨rfl, if_neg other⟩
  | lagged missed => exact ⟨rfl, rfl⟩
  | empty => exact ⟨rfl, rfl⟩
  | closed => cases foreign

namespace Following

variable {taskId : String} {routed : Bool} {items : List (Reception RemoteEvent)}
  {answers : List ObserverAnswer}

/-- A stream that does not end the follower can be folded apart from what comes after it. -/
theorem along_append (unended : (along taskId routed items answers).result = none)
    (processed : (along taskId routed items answers).left = [])
    (more : List (Reception RemoteEvent)) (later : List ObserverAnswer) :
    along taskId routed (items ++ more) (answers ++ later) =
      (along taskId routed more ((along taskId routed items answers).unasked ++ later)).after
        (along taskId routed items answers).calls := by
  fun_induction along taskId routed items answers with
  | case1 answers => rfl
  | case2 item rest document relays => cases processed
  | case3 item rest document relays fault later => cases unended
  | case4 item rest document relays asked inductionHypothesis =>
      simp only [List.cons_append, along, relays]
      rw [inductionHypothesis unended processed]
      rfl
  | case5 item rest answers call other calls inductionHypothesis =>
      simp only [List.cons_append, along, calls]
      rw [inductionHypothesis unended processed]
      rfl
  | case6 item rest answers uncalled result ends => cases unended
  | case7 item rest answers uncalled unending inductionHypothesis =>
      simp only [List.cons_append, along, uncalled, unending]
      exact inductionHypothesis unended processed

/-- Receptions that do not concern the task change nothing but what is left. -/
theorem along_filter_concerns (taskId : String) (routed : Bool)
    (items : List (Reception RemoteEvent)) (answers : List ObserverAnswer) :
    along taskId routed (items.filter (Reception.concerns taskId)) answers =
      { along taskId routed items answers with
        left := (along taskId routed items answers).left.filter (Reception.concerns taskId) } := by
  -- By the stream and not by the fold: the filter decides before the fold looks at an item.
  induction items generalizing answers with
  | nil => rfl
  | cons item rest inductionHypothesis =>
      cases concerned : item.concerns taskId with
      | false =>
          obtain ⟨uncalled, unending⟩ := Reception.of_not_concerns concerned routed
          simp only [List.filter_cons, concerned, along, uncalled, unending]
          exact inductionHypothesis answers
      | true =>
          simp only [List.filter_cons, concerned, if_true, along]
          split
          · split
            · simp [concerned]
            · rfl
            · rw [inductionHypothesis]
              rfl
          · rw [inductionHypothesis]
            rfl
          · split
            · rfl
            · exact inductionHypothesis answers

/-- If nothing is left, every reception got the call that is for it, and there is no other. -/
theorem calls_along (processed : (along taskId routed items answers).left = []) :
    (along taskId routed items answers).calls =
      items.filterMap (FollowCall.for? taskId routed) := by
  fun_induction along taskId routed items answers with
  | case1 answers => rfl
  | case2 item rest document relays => cases processed
  | case3 item rest document relays fault later =>
      obtain rfl : rest = [] := processed
      simp [relays]
  | case4 item rest document relays asked inductionHypothesis =>
      rw [List.filterMap_cons_some relays, ← inductionHypothesis processed]
      rfl
  | case5 item rest answers call other calls inductionHypothesis =>
      rw [List.filterMap_cons_some calls, ← inductionHypothesis processed]
      rfl
  | case6 item rest answers uncalled result ends =>
      obtain rfl : rest = [] := processed
      simp [uncalled]
  | case7 item rest answers uncalled unending inductionHypothesis =>
      rw [List.filterMap_cons_none uncalled]
      exact inductionHypothesis processed

end Following

end PlanSupervision
