import PlanSupervision.Proofs.FanOut.Queue

/-!
Runs of a fan-out. Events are emitted and the workers take steps, in any order, and every
subscriber sees of it the acts that concern it alone. What is published on the way is what each
subscriber's acts give rise to, and what a queue holds is accounted for until the fan-out is shut
down.
-/

namespace PlanSupervision

namespace FanOut

open FanOutEffect

inductive Move where
  | emit (event : Event)
  | step (worker : Nat) (now : Span)

namespace Move

/-- What a move is to the subscriber at an index. -/
def act? (index : Nat) : Move → Option Subscriber.Act
  | emit event => some (.offer event)
  | step worker now => if worker = index then some (.step now) else none

def emitted? : Move → Option Event
  | emit event => some event
  | step _ _ => none

end Move

/-- What concerns the subscriber at an index in a course of moves. -/
def actsOf (index : Nat) (moves : List Move) : List Subscriber.Act :=
  moves.filterMap (Move.act? index)

def WorkStep.outcome : WorkStep → Subscriber × List FanOutEffect
  | took _ after effects | failed _ after effects => (after, effects)
  | idle after => (after, [])

/-- One worker takes a step, if there is such a worker. -/
def takeStep (fan : FanOut) (worker : Nat) (now : Span) : FanOut × List FanOutEffect :=
  match fan.subscribers[worker]? with
  | none => (fan, [])
  | some subscriber =>
      let outcome := (step fan.closed now subscriber).outcome
      ({ fan with subscribers := fan.subscribers.set worker outcome.1 }, outcome.2)

def advance (fan : FanOut) : Move → FanOut × List FanOutEffect
  | .emit event => fan.emit event
  | .step worker now => fan.takeStep worker now

def run (fan : FanOut) (moves : List Move) : FanOut :=
  moves.foldl (fun fan move => (fan.advance move).1) fan

/-- All that is published in the course of a run. -/
def published (fan : FanOut) : List Move → List Event
  | [] => []
  | move :: later => publications (fan.advance move).2 ++ (fan.advance move).1.published later

theorem offerAll_eq (closed : Bool) (event : Event) (index : Nat)
    (subscribers : List Subscriber) :
    (offerAll event index subscribers).1 =
        subscribers.map (fun own => (own.act closed (.offer event)).1) ∧
      publications (offerAll event index subscribers).2 =
        subscribers.flatMap fun own =>
          (own.act closed (.offer event)).2.reports own.name := by
  induction subscribers generalizing index with
  | nil => exact ⟨rfl, rfl⟩
  | cons own rest inductionHypothesis =>
      obtain ⟨others, notices⟩ := inductionHypothesis (index + 1)
      simp only [offerAll, List.map_cons, List.flatMap_cons, Subscriber.act]
      cases own.offer event with
      | ok taken =>
          simp only [publications_append, others, notices, Subscriber.act]
          constructor
          · trivial
          · split <;> rfl
      | error refusal =>
          simp only [publications_append, others, notices, Subscriber.act, Subscriber.Deed.reports]
          constructor
          · trivial
          · split <;> rfl

theorem outcome_step (closed : Bool) (now : Span) (own : Subscriber) :
    (step closed now own).outcome.1 = (own.act closed (.step now)).1 ∧
      publications (step closed now own).outcome.2 =
        (own.act closed (.step now)).2.reports own.name := by
  rcases own.free_or_due closed now with free | ⟨due, message, failing, isDue⟩ | ⟨_, idle⟩
  · cases queued : own.queue with
    | nil =>
        simp only [Subscriber.act, Subscriber.step_of_empty free queued]
        exact ⟨rfl, rfl⟩
    | cons event rest =>
        simp only [Subscriber.act, Subscriber.step_of_queued free queued, WorkStep.outcome]
        refine ⟨trivial, ?_⟩
        cases own.answer event <;> rfl
  · simp only [Subscriber.act, Subscriber.step_of_due failing isDue]
    exact ⟨rfl, rfl⟩
  · simp only [Subscriber.act, idle]
    exact ⟨rfl, rfl⟩

theorem publications_emit (fan : FanOut) (event : Event) :
    publications (fan.emit event).2 =
      fan.subscribers.flatMap fun own =>
        (own.act fan.closed (.offer event)).2.reports own.name :=
  (offerAll_eq fan.closed event 0 fan.subscribers).2

theorem takeStep_of_some {fan : FanOut} {worker : Nat} {own : Subscriber}
    (found : fan.subscribers[worker]? = some own) (now : Span) :
    (fan.takeStep worker now).1.subscribers =
        fan.subscribers.set worker (own.act fan.closed (.step now)).1 ∧
      publications (fan.takeStep worker now).2 =
        (own.act fan.closed (.step now)).2.reports own.name := by
  obtain ⟨after, reports⟩ := outcome_step fan.closed now own
  simp only [takeStep, found, after, reports]
  exact ⟨trivial, trivial⟩

theorem takeStep_of_none {fan : FanOut} {worker : Nat} (missing : fan.subscribers[worker]? = none)
    (now : Span) : fan.takeStep worker now = (fan, []) := by
  simp only [takeStep, missing]

theorem closed_advance (fan : FanOut) (move : Move) : (fan.advance move).1.closed = fan.closed := by
  cases move with
  | emit event => rfl
  | step worker now =>
      simp only [advance, takeStep]
      split <;> rfl

/-- A move does to each subscriber what it is to that subscriber. -/
theorem subscribers_advance (fan : FanOut) (move : Move) (index : Nat) :
    (fan.advance move).1.subscribers[index]? =
      fan.subscribers[index]?.map (·.after fan.closed (move.act? index).toList) := by
  cases move with
  | emit event =>
      have others := (offerAll_eq fan.closed event 0 fan.subscribers).1
      simp only [advance, emit, others, List.getElem?_map]
      rfl
  | step worker now =>
      by_cases here : worker = index
      · subst here
        cases found : fan.subscribers[worker]? with
        | none => simp only [advance, takeStep_of_none found, found, Option.map_none]
        | some own =>
            obtain ⟨inside, -⟩ := List.getElem?_eq_some_iff.mp found
            simp only [advance, (takeStep_of_some found now).1, Move.act?, if_true,
              List.getElem?_set_self inside]
            rfl
      · simp only [Move.act?, if_neg here, advance]
        cases found : fan.subscribers[worker]? with
        | none => simp [takeStep_of_none found, Subscriber.after]
        | some own =>
            simp [(takeStep_of_some found now).1, List.getElem?_set_ne here, Subscriber.after]

theorem closed_run (fan : FanOut) (moves : List Move) : (fan.run moves).closed = fan.closed := by
  induction moves generalizing fan with
  | nil => rfl
  | cons move later inductionHypothesis =>
      exact (inductionHypothesis _).trans (closed_advance fan move)

/-- In a run, a subscriber becomes what its own acts make of it. -/
theorem subscribers_run (fan : FanOut) (moves : List Move) (index : Nat) :
    (fan.run moves).subscribers[index]? =
      fan.subscribers[index]?.map (·.after fan.closed (actsOf index moves)) := by
  induction moves generalizing fan with
  | nil => exact Option.map_id'.symm
  | cons move later inductionHypothesis =>
      have onward := inductionHypothesis (fan.advance move).1
      simp only [subscribers_advance, closed_advance] at onward
      cases found : fan.subscribers[index]? with
      | none =>
          simp only [found, Option.map_none] at onward
          exact onward
      | some own =>
          simp only [found, Option.map_some, ← Subscriber.after_append] at onward
          cases concerned : move.act? index with
          | none => simpa [actsOf, run, concerned] using onward
          | some act => simpa [actsOf, run, concerned] using onward

/-- A subscriber is offered every event that is emitted, in order. -/
theorem offered_of_run (closed : Bool) (own : Subscriber) (index : Nat) (moves : List Move) :
    (own.deeds closed (actsOf index moves)).filterMap Subscriber.Deed.offered? =
      moves.filterMap Move.emitted? := by
  induction moves generalizing own with
  | nil => rfl
  | cons move later inductionHypothesis =>
      cases move with
      | emit event =>
          have first : (own.act closed (.offer event)).2.offered? = some event := by
            simp only [Subscriber.act]
            cases own.offer event <;> rfl
          have onward := inductionHypothesis (own.act closed (.offer event)).1
          simp only [actsOf, List.filterMap_cons, Move.act?, Move.emitted?, Subscriber.deeds,
            first] at onward ⊢
          exact congrArg (List.cons event) onward
      | step worker now =>
          by_cases here : worker = index
          · have first : (own.act closed (.step now)).2.offered? = none := by
              simp only [Subscriber.act]
              cases step closed now own <;> rfl
            have onward := inductionHypothesis (own.act closed (.step now)).1
            simp only [actsOf, List.filterMap_cons, Move.act?, if_pos here, Move.emitted?,
              Subscriber.deeds, first] at onward ⊢
            exact onward
          · have onward := inductionHypothesis own
            simp only [actsOf, List.filterMap_cons, Move.act?, if_neg here,
              Move.emitted?] at onward ⊢
            exact onward

section Turn

variable {closed : Bool} {now : Span} {own after : Subscriber}

/-- An idle step leaves a subscriber that stays idle at that instant. -/
theorem idle_again (idle : step closed now own = .idle after) :
    step closed now after = .idle after := by
  rcases own.free_or_due closed now with free | ⟨due, message, failing, isDue⟩ | ⟨_, stays⟩
  · cases queued : own.queue with
    | nil =>
        simp only [Subscriber.step_of_empty free queued, WorkStep.idle.injEq] at idle
        subst idle
        cases closed with
        | false => exact Subscriber.step_of_empty (Or.inl rfl) queued
        | true => rfl
    | cons event rest =>
        simp only [Subscriber.step_of_queued free queued, reduceCtorEq] at idle
  · simp only [Subscriber.step_of_due failing isDue, reduceCtorEq] at idle
  · simp only [stays, WorkStep.idle.injEq] at idle
    subst idle
    exact stays

theorem idle_on (idle : step closed now own = .idle own) (count : Nat) :
    own.after closed (List.replicate count (.step now)) = own ∧
      own.deeds closed (List.replicate count (.step now)) = List.replicate count .idled := by
  have stays : own.act closed (.step now) = (own, .idled) := by
    simp only [Subscriber.act, idle]
  induction count with
  | zero => exact ⟨rfl, rfl⟩
  | succ count inductionHypothesis =>
      simp only [List.replicate_succ, Subscriber.after, List.foldl_cons, Subscriber.deeds, stays]
      exact ⟨inductionHypothesis.1, congrArg _ inductionHypothesis.2⟩

/-- A step that does something is followed by the rest of the turn. -/
theorem steps_of_busy (budget : Nat) (busy : ∀ after, step closed now own ≠ .idle after) :
    let outcome := (step closed now own).outcome
    let later := steps closed now budget outcome.1
    steps closed now (budget + 1) own = (later.1, outcome.2 ++ later.2.1, later.2.2) := by
  cases taken : step closed now own with
  | took event after effects => exact steps_of_took taken
  | failed message after effects => exact steps_of_failed taken
  | idle after => exact absurd taken (busy after)

/-- A turn is a number of steps at one instant. -/
theorem steps_eq (closed : Bool) (now : Span) (budget : Nat) (own : Subscriber) :
    (steps closed now budget own).1 = own.after closed (List.replicate budget (.step now)) ∧
      publications (steps closed now budget own).2.1 =
        (own.deeds closed (List.replicate budget (.step now))).flatMap
          (Subscriber.Deed.reports own.name) := by
  induction budget generalizing own with
  | zero => exact ⟨rfl, rfl⟩
  | succ budget inductionHypothesis =>
      obtain ⟨left, reports⟩ := outcome_step closed now own
      by_cases idles : ∃ after, step closed now own = .idle after
      · obtain ⟨after, taken⟩ := idles
        obtain ⟨last, later⟩ := idle_on (idle_again taken) budget
        simp only [taken, WorkStep.outcome] at left reports
        simp only [steps_of_idle taken, List.replicate_succ, Subscriber.deeds,
          List.flatMap_cons, ← left, later, ← reports]
        constructor
        · simp only [Subscriber.after, List.foldl_cons, ← left]
          exact last.symm
        · have quiet : (List.replicate budget Subscriber.Deed.idled).flatMap
              (Subscriber.Deed.reports own.name) = [] :=
            List.flatMap_eq_nil_iff.mpr fun deed member =>
              congrArg _ (List.eq_of_mem_replicate member)
          exact quiet.symm
      · have goesOn := steps_of_busy budget (not_exists.mp idles)
        obtain ⟨last, later⟩ := inductionHypothesis (step closed now own).outcome.1
        have name := (Subscriber.does_act closed own (.step now)).unchanged.1
        simp only [← left] at name
        simp only [goesOn, List.replicate_succ, Subscriber.deeds, List.flatMap_cons,
          publications_append, reports, later, name, last, ← left]
        refine ⟨?_, trivial⟩
        simp only [Subscriber.after, List.foldl_cons, left]

end Turn

theorem actsOf_replicate (worker : Nat) (now : Span) (count : Nat) (index : Nat) :
    actsOf index (List.replicate count (.step worker now)) =
      if worker = index then List.replicate count (.step now) else [] := by
  by_cases here : worker = index
  · simp [actsOf, Move.act?, here]
  · simp [actsOf, Move.act?, here]

theorem published_steps {fan : FanOut} {worker : Nat} {own : Subscriber}
    (found : fan.subscribers[worker]? = some own) (now : Span) (count : Nat) :
    fan.published (List.replicate count (.step worker now)) =
      (own.deeds fan.closed (List.replicate count (.step now))).flatMap
        (Subscriber.Deed.reports own.name) := by
  induction count generalizing fan own with
  | zero => rfl
  | succ count inductionHypothesis =>
      obtain ⟨inside, -⟩ := List.getElem?_eq_some_iff.mp found
      obtain ⟨left, reports⟩ := takeStep_of_some found now
      have next : (fan.takeStep worker now).1.subscribers[worker]? =
          some (own.act fan.closed (.step now)).1 := by
        simp only [left, List.getElem?_set_self inside]
      have closed : (fan.takeStep worker now).1.closed = fan.closed :=
        closed_advance fan (.step worker now)
      have name := (Subscriber.does_act fan.closed own (.step now)).unchanged.1
      have onward := inductionHypothesis next
      simp only [closed, name] at onward
      simp only [List.replicate_succ, published, advance, Subscriber.deeds, List.flatMap_cons,
        reports, onward]

theorem published_of_none {fan : FanOut} {worker : Nat}
    (missing : fan.subscribers[worker]? = none) (now : Span) (count : Nat) :
    fan.published (List.replicate count (.step worker now)) = [] := by
  induction count with
  | zero => rfl
  | succ count inductionHypothesis =>
      simp only [List.replicate_succ, published, advance, takeStep_of_none missing,
        inductionHypothesis]
      rfl

/-- What a worker does in its turn is a run of its steps. -/
theorem work_eq_run (fan : FanOut) (worker : Nat) (now : Span) :
    let moves := List.replicate turnBudget (.step worker now)
    (fan.work worker now).1.subscribers = (fan.run moves).subscribers ∧
      publications (fan.work worker now).2.1 = fan.published moves := by
  intro moves
  cases found : fan.subscribers[worker]? with
  | none =>
      have turn : fan.work worker now = (fan, [], false) := by simp only [work, found]
      simp only [turn, moves, published_of_none found]
      refine ⟨List.ext_getElem? fun index => ?_, rfl⟩
      simp only [subscribers_run, actsOf_replicate]
      by_cases here : worker = index
      · subst here
        simp only [found, Option.map_none]
      · simp only [if_neg here]
        exact Option.map_id'.symm
  | some own =>
      obtain ⟨left, reports⟩ := steps_eq fan.closed now turnBudget own
      obtain ⟨inside, -⟩ := List.getElem?_eq_some_iff.mp found
      simp only [moves, published_steps found, ← reports]
      have turn : (fan.work worker now).1.subscribers = fan.subscribers.set worker
          (own.after fan.closed (List.replicate turnBudget (.step now))) := by
        simp only [work, found, left]
      refine ⟨List.ext_getElem? fun index => ?_, by simp only [work, found]⟩
      simp only [turn, subscribers_run, actsOf_replicate]
      by_cases here : worker = index
      · subst here
        simp only [List.getElem?_set_self inside, found, if_true, Option.map_some]
      · simp only [List.getElem?_set_ne here, if_neg here]
        exact Option.map_id'.symm

/-- Steps of workers, each named with its instant. -/
def turns (workers : List (Nat × Span)) : List Move :=
  workers.map fun turn => .step turn.1 turn.2

theorem accepted_of_turns (closed : Bool) (own : Subscriber) (index : Nat)
    (workers : List (Nat × Span)) :
    (own.deeds closed (actsOf index (turns workers))).filterMap Subscriber.Deed.accepted? = [] := by
  have offered := offered_of_run closed own index (turns workers)
  have none : (turns workers).filterMap Move.emitted? = [] :=
    List.filterMap_eq_nil_iff.mpr fun move member => by
      obtain ⟨turn, -, rfl⟩ := List.mem_map.mp member
      rfl
  simp only [none, List.filterMap_eq_nil_iff] at offered ⊢
  intro deed member
  have unoffered := offered deed member
  cases deed with
  | accepted event | refused event => cases unoffered
  | handled | failed | idled => rfl

/-- Once every worker has ended after the queues were closed, nothing is queued any more, and all
that was accepted has been handled unless it was lost with the worker. -/
theorem drained {fan : FanOut} {index : Nat} {own : Subscriber}
    (found : fan.subscribers[index]? = some own)
    (drainedSoFar : ¬ own.Alive → own.queue = []) (workers : List (Nat × Span))
    (ended : (fan.close.run (turns workers)).hasEnded = true) :
    ∃ last lost, (fan.close.run (turns workers)).subscribers[index]? = some last ∧
      last.queue = [] ∧ (lost ≠ [] → last.state = .gone) ∧
        own.queue = (own.deeds true (actsOf index (turns workers))).filterMap
          Subscriber.Deed.handled? ++ lost := by
  have last := subscribers_run fan.close (turns workers) index
  simp only [close, found, Option.map_some] at last
  have dead : ¬ (own.after true (actsOf index (turns workers))).Alive := by
    have isOver := List.all_eq_true.mp ended _ (List.mem_of_getElem? last)
    simp only [Bool.or_eq_true, decide_eq_true_eq] at isOver
    exact fun alive => isOver.elim alive.2 alive.1
  have empty := Subscriber.empty_of_dead_after true own _ drainedSoFar dead
  obtain ⟨lost, whole, only⟩ := Subscriber.accounted true own (actsOf index (turns workers))
  simp only [accepted_of_turns, empty, List.append_nil] at whole
  exact ⟨_, lost, last, empty, only, whole⟩

/-- A set of subscribers under any course of emitted events and of steps of the workers. What
happens at one subscriber follows from the events and its own worker's steps alone, and its queue
conserves the events. A worker ends before the set is shut down only when its subscriber breaks off
where no panic is caught; the events that are queued then are lost, and later ones are refused.
Every refusal is reported once, and so is every panic that is caught. Once the set has been shut
down, every queue is empty. -/
theorem queues_conserve (subscribers : List Subscriber) (moves : List Move) :
    let fan := (ofSubscribers (subscribers.map Subscriber.atStart)).run moves
    (∀ index own, subscribers[index]? = some own →
      let acts := actsOf index moves
      let deeds := own.atStart.deeds false acts
      let left := own.atStart.after false acts
      fan.subscribers[index]? = some left ∧
        deeds.filterMap Subscriber.Deed.offered? = moves.filterMap Move.emitted? ∧
        own.Conserves acts ∧
        (own.Sturdy → (∀ event, .refused event .closed ∉ deeds) ∧
          deeds.filterMap Subscriber.Deed.accepted? =
            deeds.filterMap Subscriber.Deed.handled? ++ left.queue) ∧
        ∀ workers, (fan.close.run (turns workers)).hasEnded = true →
          ∃ last lost, (fan.close.run (turns workers)).subscribers[index]? = some last ∧
            last.queue = [] ∧ (lost ≠ [] → last.state = .gone) ∧
              left.queue = (left.deeds true (actsOf index (turns workers))).filterMap
                Subscriber.Deed.handled? ++ lost) ∧
      (∀ event, publications (fan.emit event).2 = fan.subscribers.flatMap fun own =>
        (own.act false (.offer event)).2.reports own.name) ∧
      (∀ worker now own, fan.subscribers[worker]? = some own →
        publications (fan.takeStep worker now).2 =
          (own.act false (.step now)).2.reports own.name) ∧
      ∀ worker now, let turn := List.replicate turnBudget (.step worker now)
        (fan.work worker now).1.subscribers = (fan.run turn).subscribers ∧
          publications (fan.work worker now).2.1 = fan.published turn := by
  intro fan
  have closed : fan.closed = false := closed_run _ moves
  refine ⟨?_, ?_, ?_, work_eq_run fan⟩
  · intro index own found acts deeds left
    have isThere : fan.subscribers[index]? = some left := by
      simp only [fan, subscribers_run, ofSubscribers, List.getElem?_map, found, Option.map_some]
      rfl
    have alive : own.atStart.Alive := ⟨nofun, nofun⟩
    have conserves := own.conserves acts
    refine ⟨isThere, offered_of_run false own.atStart index moves, conserves, ?_, ?_⟩
    · intro (sturdy : own.atStart.Sturdy)
      refine ⟨Subscriber.not_closed_of_sturdy sturdy alive acts, ?_⟩
      obtain ⟨lost, whole, fatal⟩ := conserves.accounts
      have none : lost = [] := by
        by_contra some
        obtain ⟨event, died⟩ := fatal some
        exact Subscriber.not_fatal_of_sturdy false sturdy acts event died
      simp only [none, List.nil_append] at whole
      exact whole
    · intro workers ended
      exact drained isThere
        (Subscriber.empty_of_dead_after false own.atStart acts fun _ => rfl) workers ended
  · intro event
    have reports := publications_emit fan event
    simp only [closed] at reports
    exact reports
  · intro worker now own found
    have reports := (takeStep_of_some found now).2
    simp only [closed] at reports
    exact reports

/-- A subscriber with room in its queue is refused an event because its worker was lost to an
earlier one, and nothing reported that. -/
theorem refused_behind_lost_worker :
    let own := Subscriber.fresh "gone" 1024 fun _ => .dies
    let event := Event.ofKind .planStarting
    let fan := ofSubscribers [own]
    let moves := [.emit event, .step 0 0]
    own.answer event = .dies ∧
      (own.deeds false (actsOf 0 moves)).filterMap Subscriber.Deed.handled? = [event] ∧
      fan.published moves = [] ∧ (fan.run moves).subscribers.map Subscriber.queue = [[]] ∧
      publications ((fan.run moves).emit event).2 = [.overflow "gone" "closed"] := by
  decide

end FanOut

end PlanSupervision
