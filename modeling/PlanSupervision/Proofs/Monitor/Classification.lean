import PlanSupervision.Proofs.Monitor.Publication
import PlanSupervision.Proofs.Monitor.Timeline

/-!
The calls of a monitor that matter. Inside a scope a classification is in force, at first that the
task does not wait; a notification matters if it changes it. A post stays as it is at any other
notification, and the changes that it publishes are those that matter, one after the other.
-/

namespace PlanSupervision

namespace MonitorPost

/-- What is called of a monitor from outside. -/
inductive Call where
  | enter
  | progress (progress : Progress)
  | exit

def Move.call? : Move → Option Call
  | enter => some .enter
  | progress notification => some (.progress notification)
  | exit => some .exit
  | turn _ => none

/-- The calls of a history, with the instant of each. -/
def callsOf (history : History) : List (Span × Call) :=
  history.filterMap fun entry => entry.2.call?.map fun call => (entry.1, call)

theorem callsOf_cons {instant : Span} {move : Move} {call : Call} {later : History}
    (called : move.call? = some call) :
    callsOf ((instant, move) :: later) = (instant, call) :: callsOf later := by
  simp only [callsOf, List.filterMap_cons, called, Option.map_some]

theorem callsOf_cons_of_silent {instant : Span} {move : Move} {later : History}
    (silent : move.call? = none) : callsOf ((instant, move) :: later) = callsOf later := by
  simp only [callsOf, List.filterMap_cons, silent, Option.map_none]

end MonitorPost

namespace Monitor

open MonitorPost

/-- The classification in force after a call; outside a scope there is none. -/
def inForce (monitor : Monitor) (force : Option Bool) : Call → Option Bool
  | .enter => some false
  | .progress notification =>
      force.map fun waiting => (monitor.reading? notification).getD waiting
  | .exit => none

/-- Is a call a notification of another task, or one without the status, or outside any scope, or
one that repeats the classification in force? -/
def idles (monitor : Monitor) (force : Option Bool) : Call → Bool
  | .progress notification =>
      notification.taskId ≠ monitor.taskId ||
        (notification.status? monitor.statusName).isNone || force.isNone ||
        (notification.status? monitor.statusName).map StatusView.isPending = force
  | .enter | .exit => false

section Essential

variable {Item : Type} (monitor : Monitor) (call? : Item → Option Call)

/-- What remains when the notifications that idle are deleted. -/
def essential : Option Bool → List (Span × Item) → List (Span × Item)
  | _, [] => []
  | force, (instant, item) :: later =>
      match call? item with
      | none => (instant, item) :: essential force later
      | some call =>
          if monitor.idles force call then essential force later
          else (instant, item) :: essential (monitor.inForce force call) later

/-- The classification in force after a number of items. -/
def forceAfter (force : Option Bool) (items : List (Span × Item)) : Option Bool :=
  (items.filterMap fun entry => call? entry.2).foldl monitor.inForce force

end Essential

/-- The classifications of the notifications among calls. -/
def classifications (monitor : Monitor) (calls : List (Span × Call)) : List (Span × Bool) :=
  calls.filterMap fun entry => match entry.2 with
    | .progress notification => (monitor.reading? notification).map fun waiting =>
        (entry.1, waiting)
    | .enter | .exit => none

variable {monitor : Monitor} {force : Option Bool}

theorem idles_progress_iff (notification : Progress) :
    monitor.idles force (.progress notification) = true ↔
      ∀ reading ∈ monitor.reading? notification, force = none ∨ force = some reading := by
  by_cases own : notification.taskId = monitor.taskId
  · cases status : notification.status? monitor.statusName with
    | none => simp [idles, reading?, own, status]
    | some status => cases force <;> simp [idles, reading?, own, status, eq_comm]
  · simp [idles, reading?, own]

theorem not_idles_progress_iff (notification : Progress) :
    monitor.idles force (.progress notification) = false ↔
      ∃ waiting, force = some waiting ∧ monitor.reading? notification = some (!waiting) := by
  rw [← Bool.not_eq_true, idles_progress_iff]
  cases force with
  | none => simp
  | some waiting =>
      cases monitor.reading? notification with
      | none => simp
      | some reading => cases waiting <;> cases reading <;> simp

/-- A call that idles leaves the classification in force. -/
theorem inForce_of_idles {call : Call} (idle : monitor.idles force call = true) :
    monitor.inForce force call = force := by
  cases call with
  | enter | exit => cases idle
  | progress notification =>
      have repeats := (idles_progress_iff notification).mp idle
      cases force with
      | none => rfl
      | some waiting =>
          cases read : monitor.reading? notification with
          | none => simp [inForce, read]
          | some reading =>
              have same := (repeats reading read).resolve_left nofun
              simp [inForce, read, Option.some.inj same]

section Essential

variable {Item : Type} {call? : Item → Option Call}

theorem essential_append (force : Option Bool) (earlier later : List (Span × Item)) :
    monitor.essential call? force (earlier ++ later) =
      monitor.essential call? force earlier ++
        monitor.essential call? (monitor.forceAfter call? force earlier) later := by
  induction earlier generalizing force with
  | nil => rfl
  | cons entry rest inductionHypothesis =>
      obtain ⟨instant, item⟩ := entry
      cases called : call? item with
      | none =>
          simp only [List.cons_append, essential, called, inductionHypothesis]
          simp [forceAfter, called]
      | some call =>
          by_cases idle : monitor.idles force call = true
          · simp only [List.cons_append, essential, called, inductionHypothesis, idle, if_true]
            simp [forceAfter, called, inForce_of_idles idle]
          · simp only [List.cons_append, essential, called, inductionHypothesis, idle]
            simp [forceAfter, called]

theorem essential_of_call {instant : Span} {item : Item} {call : Call}
    (called : call? item = some call) (force : Option Bool) (later : List (Span × Item)) :
    monitor.essential call? force ((instant, item) :: later) =
      if monitor.idles force call then monitor.essential call? force later
      else (instant, item) :: monitor.essential call? (monitor.inForce force call) later := by
  simp only [essential, called]

theorem essential_of_silent {instant : Span} {item : Item} (silent : call? item = none)
    (force : Option Bool) (later : List (Span × Item)) :
    monitor.essential call? force ((instant, item) :: later) =
      (instant, item) :: monitor.essential call? force later := by
  simp only [essential, silent]

theorem mem_of_mem_essential {entry : Span × Item} {items : List (Span × Item)}
    (member : entry ∈ monitor.essential call? force items) : entry ∈ items := by
  induction items generalizing force with
  | nil => exact member
  | cons head rest inductionHypothesis =>
      obtain ⟨instant, item⟩ := head
      cases called : call? item with
      | none =>
          simp only [essential_of_silent called, List.mem_cons] at member
          exact List.mem_cons.mpr (member.imp_right inductionHypothesis)
      | some call =>
          simp only [essential_of_call called] at member
          split at member
          · exact List.mem_cons_of_mem _ (inductionHypothesis member)
          · exact List.mem_cons.mpr ((List.mem_cons.mp member).imp_right inductionHypothesis)

end Essential

/-- The calls that remain of a history are those that remain of its calls. -/
theorem callsOf_essential (force : Option Bool) (history : History) :
    callsOf (monitor.essential Move.call? force history) =
      monitor.essential some force (callsOf history) := by
  induction history generalizing force with
  | nil => rfl
  | cons entry later inductionHypothesis =>
      obtain ⟨instant, move⟩ := entry
      cases called : move.call? with
      | none =>
          simp only [essential_of_silent called, callsOf_cons_of_silent called]
          exact inductionHypothesis force
      | some call =>
          simp only [essential_of_call called, callsOf_cons called, essential_of_call rfl]
          split
          · exact inductionHypothesis force
          · simp only [callsOf_cons called, inductionHypothesis]

/-- Beginning with one of two classifications, they take turns. -/
def alternating : Bool → Nat → List Bool
  | _, 0 => []
  | waiting, count + 1 => waiting :: alternating (!waiting) count

/-- Of the notifications inside a scope, those remain that contradict the one before. -/
theorem classifications_alternate (waiting : Bool) {calls : List (Span × Call)}
    (inside : ∀ entry ∈ calls, ∃ notification, entry.2 = .progress notification) :
    let remaining := monitor.classifications (monitor.essential some (some waiting) calls)
    remaining.map Prod.snd = alternating (!waiting) remaining.length := by
  induction calls generalizing waiting with
  | nil => rfl
  | cons entry later inductionHypothesis =>
      obtain ⟨instant, call⟩ := entry
      obtain ⟨⟨notification, same⟩, insideLater⟩ := List.forall_mem_cons.mp inside
      obtain rfl : call = .progress notification := same
      simp only [essential_of_call rfl]
      cases idle : monitor.idles (some waiting) (.progress notification) with
      | true =>
          simp only [if_true]
          exact inductionHypothesis waiting insideLater
      | false =>
          obtain ⟨_, inForceNow, read⟩ := (not_idles_progress_iff notification).mp idle
          obtain rfl := Option.some.inj inForceNow
          have onward := inductionHypothesis (!waiting) insideLater
          simp only [Bool.not_not] at onward
          simp only [Bool.false_eq_true, if_false, classifications, List.filterMap_cons, read,
            Option.map_some, inForce, Option.getD_some, List.map_cons, List.length_cons,
            alternating, Bool.not_not]
          exact congrArg (List.cons _) onward

end Monitor

end PlanSupervision
