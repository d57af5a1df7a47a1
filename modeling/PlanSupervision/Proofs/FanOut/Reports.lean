import Mathlib.Algebra.Order.BigOperators.Group.List
import Mathlib.Algebra.Ring.Nat
import PlanSupervision.FanOut

/-!
What the fan-out reports. An event that a subscriber loses or panics on is reported, and the report
goes to the subscribers as well. Every event carries in advance the reports that it may bring about
at each of the subscribers; what a step of the fan-out reports is paid for by that, unless a
subscriber panics on the report of a loss.
-/

namespace PlanSupervision

/-- A report of the fan-out, about an event that was lost or on which a subscriber panicked. -/
def Event.isReport (event : Event) : Bool :=
  event.kind = .subscriberOverflow || event.kind = .subscriberPanicked

/-- The reports that an event may bring about at one of so many subscribers. If it is lost there,
that is one; a panic is one, and may itself be lost everywhere. -/
def Event.share (crowd : Nat) (event : Event) : Nat :=
  match event.kind with
  | .subscriberOverflow => 0
  | .subscriberPanicked => 1
  | _ => crowd + 1

/-- The reports that an event may still bring about once it is in a queue. -/
def Event.queuedShare (crowd : Nat) (event : Event) : Nat :=
  if event.isReport then 0 else crowd + 1

theorem Event.share_of_ordinary (crowd : Nat) {event : Event} (ordinary : event.isReport = false) :
    event.share crowd = crowd + 1 := by
  obtain ⟨notLoss, notPanic⟩ : event.kind ≠ .subscriberOverflow ∧
      event.kind ≠ .subscriberPanicked := by
    simpa [isReport] using ordinary
  unfold share
  split <;> simp_all

theorem Event.queuedShare_le (crowd : Nat) (event : Event) :
    event.queuedShare crowd ≤ event.share crowd := by
  unfold queuedShare
  split
  · exact Nat.zero_le _
  · rename_i ordinary
    exact (event.share_of_ordinary crowd (by simpa using ordinary)).ge

theorem Event.share_le (crowd : Nat) (event : Event) : event.share crowd ≤ crowd + 1 := by
  unfold share
  split <;> omega

namespace Subscriber

/-- How many panics of the subscriber are still to come true. -/
def owed (subscriber : Subscriber) : Nat :=
  match subscriber.state with
  | .failing _ _ => 1
  | .waiting | .busy _ | .gone | .ended => 0

/-- The weight of all that is in the queue of a subscriber, and of a panic that is still to come. -/
def load (crowd : Nat) (subscriber : Subscriber) : Nat :=
  (subscriber.queue.map (Event.queuedShare crowd)).sum + (crowd + 1) * subscriber.owed

/-- What the subscriber does with an event if it takes it next. -/
def answer (subscriber : Subscriber) (event : Event) : Response :=
  subscriber.respond subscriber.taken event

def panicsOn (subscriber : Subscriber) (event : Event) : Bool := (subscriber.answer event).isPanic

end Subscriber

namespace FanOutEffect

def published? : FanOutEffect → Option Event
  | publish event => some event
  | _ => none

/-- The events that are published among effects. -/
def publications (effects : List FanOutEffect) : List Event := effects.filterMap published?

theorem publications_append (earlier later : List FanOutEffect) :
    publications (earlier ++ later) = publications earlier ++ publications later :=
  List.filterMap_append

/-- The events that are published, each with the reports that it may bring about at so many
subscribers. -/
def charge (crowd : Nat) (effects : List FanOutEffect) : Nat :=
  ((publications effects).map fun event => 1 + crowd * event.share crowd).sum

theorem charge_append (crowd : Nat) (earlier later : List FanOutEffect) :
    charge crowd (earlier ++ later) = charge crowd earlier + charge crowd later := by
  rw [charge, publications_append, List.map_append, List.sum_append]
  rfl

end FanOutEffect

namespace FanOut

open FanOutEffect

/-- The weight of all that is in the queues. -/
def load (crowd : Nat) (subscribers : List Subscriber) : Nat :=
  (subscribers.map (Subscriber.load crowd)).sum

/-- What the subscribers do with events. No step of the fan-out changes it. -/
def responses (fan : FanOut) : List (Nat → Event → Response) := fan.subscribers.map Subscriber.respond

theorem offer_cases (subscriber : Subscriber) (event : Event) :
    subscriber.offer event = .ok { subscriber with queue := subscriber.queue ++ [event] } ∨
      ∃ refusal, subscriber.offer event = .error refusal := by
  unfold Subscriber.offer
  split
  · exact Or.inr ⟨_, rfl⟩
  · split
    · exact Or.inr ⟨_, rfl⟩
    · exact Or.inl rfl

theorem load_offer (crowd : Nat) (subscriber : Subscriber) (event : Event) :
    Subscriber.load crowd { subscriber with queue := subscriber.queue ++ [event] } =
      subscriber.load crowd + event.queuedShare crowd := by
  simp only [Subscriber.load, List.map_append, List.map_singleton, List.sum_append,
    List.sum_singleton]
  exact Nat.add_right_comm _ _ _

theorem responds_offerAll (event : Event) (index : Nat) (subscribers : List Subscriber) :
    (offerAll event index subscribers).1.map Subscriber.respond =
      subscribers.map Subscriber.respond := by
  induction subscribers generalizing index with
  | nil => rfl
  | cons subscriber rest inductionHypothesis =>
      unfold offerAll
      dsimp only
      rcases offer_cases subscriber event with taken | ⟨refusal, refused⟩
      · rw [taken, List.map_cons, List.map_cons, inductionHypothesis]
      · rw [refused, List.map_cons, List.map_cons, inductionHypothesis]

theorem isReport_of_mem_offerAll (event : Event) (index : Nat) (subscribers : List Subscriber) :
    ∀ report ∈ publications (offerAll event index subscribers).2, report.isReport = true := by
  induction subscribers generalizing index with
  | nil => exact List.forall_mem_nil _
  | cons subscriber rest inductionHypothesis =>
      have later := inductionHypothesis (index + 1)
      unfold offerAll
      dsimp only
      rcases offer_cases subscriber event with taken | ⟨refusal, refused⟩
      · rw [taken]
        dsimp only
        rw [publications_append]
        split <;> exact later
      · rw [refused]
        dsimp only
        rw [publications_append]
        split
        · exact later
        · exact List.forall_mem_cons.mpr ⟨rfl, later⟩

/-- What comes of passing an event to the subscribers is paid for by its shares at them. -/
theorem charge_offerAll (crowd : Nat) (event : Event) (index : Nat)
    (subscribers : List Subscriber) :
    load crowd (offerAll event index subscribers).1 +
        charge crowd (offerAll event index subscribers).2 ≤
      load crowd subscribers + subscribers.length * event.share crowd := by
  induction subscribers generalizing index with
  | nil => exact Nat.zero_le _
  | cons subscriber rest inductionHypothesis =>
      have later := inductionHypothesis (index + 1)
      have count : (subscriber :: rest).length * event.share crowd =
          rest.length * event.share crowd + event.share crowd := Nat.succ_mul _ _
      have before : load crowd (subscriber :: rest) = subscriber.load crowd + load crowd rest :=
        rfl
      rw [count, before]
      unfold offerAll
      dsimp only
      rcases offer_cases subscriber event with taken | ⟨refusal, refused⟩
      · have queued := event.queuedShare_le crowd
        have free : charge crowd (if subscriber.state = .waiting then [.wake index] else []) =
            0 := by
          split <;> rfl
        rw [taken]
        dsimp only
        rw [charge_append, free]
        change Subscriber.load crowd _ + load crowd _ + _ ≤ _
        rw [load_offer]
        omega
      · have reported : charge crowd (if event.kind = .subscriberOverflow then []
            else [.publish (.overflow subscriber.name refusal.name)]) ≤ event.share crowd := by
          split
          · exact Nat.zero_le _
          · rename_i notLoss
            change 1 + crowd * 0 + 0 ≤ _
            unfold Event.share
            split
            · exact absurd ‹_› notLoss
            · exact Nat.le_refl 1
            · omega
        rw [refused]
        dsimp only
        rw [charge_append]
        change Subscriber.load crowd _ + load crowd _ + _ ≤ _
        omega

/-- Is a report of a loss answered with a panic? -/
def echo (subscriber : Subscriber) (event : Event) : Nat :=
  if event.kind = .subscriberOverflow then (subscriber.panicsOn event).toNat else 0

/-- How often a worker takes the report of a loss to panic on it within so many steps. -/
def echoes (closed : Bool) (now : Span) : Nat → Subscriber → Nat
  | 0, _ => 0
  | budget + 1, subscriber =>
      match step closed now subscriber with
      | .idle _ => 0
      | .took event after _ => echo subscriber event + echoes closed now budget after
      | .failed _ after _ => echoes closed now budget after

structure Idles (subscriber after : Subscriber) : Prop where
  queue : after.queue = subscriber.queue
  respond : after.respond = subscriber.respond
  owed : after.owed = subscriber.owed

/-- What a worker that takes an event leaves: its queue without the event, or empty, and a panic of
the subscriber reported or still to come. -/
structure Takes (subscriber : Subscriber) (event : Event) (after : Subscriber)
    (effects : List FanOutEffect) : Prop where
  queue : ∃ rest, subscriber.queue = event :: rest ∧ (after.queue = rest ∨ after.queue = [])
  respond : after.respond = subscriber.respond
  reports : publications effects = [] ∨
    ∃ message, publications effects = [.panicked subscriber.name message]
  panics : (publications effects).length + after.owed = (subscriber.panicsOn event).toNat

/-- A panic that was still to come is reported. -/
structure Fails (subscriber : Subscriber) (message : String) (after : Subscriber)
    (effects : List FanOutEffect) : Prop where
  queue : after.queue = subscriber.queue
  respond : after.respond = subscriber.respond
  reports : publications effects = [.panicked subscriber.name message]
  panics : subscriber.owed = 1 ∧ after.owed = 0

theorem take_cases (closed : Bool) (now : Span) {subscriber : Subscriber}
    (free : subscriber.owed = 0) :
    (∃ after, take closed now subscriber = .idle after ∧ Idles subscriber after) ∨
      ∃ event after effects, take closed now subscriber = .took event after effects ∧
        Takes subscriber event after effects := by
  unfold take
  split
  · refine Or.inl ⟨_, rfl, rfl, rfl, ?_⟩
    cases closed <;> exact free.symm
  · rename_i event rest queued
    have panics : ∀ {response}, subscriber.respond subscriber.taken event = response →
        response.isPanic.toNat = (subscriber.panicsOn event).toNat := by
      rintro _ rfl
      rfl
    dsimp only
    cases response : subscriber.respond subscriber.taken event with
    | done | busy _ | panicLater _ _ =>
        exact Or.inr ⟨event, _, _, rfl, ⟨rest, queued, Or.inl rfl⟩, rfl, Or.inl rfl,
          panics response⟩
    | panic message =>
        exact Or.inr ⟨event, _, _, rfl, ⟨rest, queued, Or.inl rfl⟩, rfl,
          Or.inr ⟨message, rfl⟩, panics response⟩
    | dies =>
        exact Or.inr ⟨event, _, _, rfl, ⟨rest, queued, Or.inr rfl⟩, rfl, Or.inl rfl,
          panics response⟩

theorem step_cases (closed : Bool) (now : Span) (subscriber : Subscriber) :
    (∃ after, step closed now subscriber = .idle after ∧ Idles subscriber after) ∨
      (∃ event after effects, step closed now subscriber = .took event after effects ∧
        Takes subscriber event after effects) ∨
      ∃ message after effects, step closed now subscriber = .failed message after effects ∧
        Fails subscriber message after effects := by
  have rests : Idles subscriber subscriber := ⟨rfl, rfl, rfl⟩
  unfold step
  cases state : subscriber.state with
  | waiting =>
      have free : subscriber.owed = 0 := by rw [Subscriber.owed, state]
      exact (take_cases closed now free).imp_right Or.inl
  | busy ready =>
      have free : subscriber.owed = 0 := by rw [Subscriber.owed, state]
      dsimp only
      split
      · exact (take_cases closed now free).imp_right Or.inl
      · exact Or.inl ⟨subscriber, rfl, rests⟩
  | failing due message =>
      have owes : subscriber.owed = 1 := by rw [Subscriber.owed, state]
      dsimp only
      split
      · exact Or.inr (Or.inr ⟨message, _, _, rfl, rfl, rfl, rfl, owes, rfl⟩)
      · exact Or.inl ⟨subscriber, rfl, rests⟩
  | gone | ended => exact Or.inl ⟨subscriber, rfl, rests⟩

/-- No subscriber panics on the report of a panic. -/
def Composed (respond : Nat → Event → Response) : Prop :=
  ∀ taken event, event.kind = .subscriberPanicked → (respond taken event).isPanic = false

/-- No subscriber panics on the report of a loss. -/
def Calm (respond : Nat → Event → Response) : Prop :=
  ∀ taken event, event.kind = .subscriberOverflow → (respond taken event).isPanic = false

/-- Reports of panics weigh as much as the panics that are still to come. -/
theorem charge_of_panics (crowd : Nat) {effects : List FanOutEffect} {name : String}
    (reports : publications effects = [] ∨
      ∃ message, publications effects = [.panicked name message]) :
    charge crowd effects = (crowd + 1) * (publications effects).length := by
  rcases reports with quiet | ⟨message, report⟩
  · rw [charge, quiet]
    rfl
  · rw [charge, report]
    change 1 + crowd * 1 + 0 = (crowd + 1) * 1
    omega

theorem Takes.charge_le {subscriber after : Subscriber} {event : Event}
    {effects : List FanOutEffect} (takes : Takes subscriber event after effects)
    (composed : Composed subscriber.respond) (crowd : Nat) :
    after.load crowd + charge crowd effects ≤
      subscriber.load crowd + (crowd + 1) * echo subscriber event := by
  obtain ⟨⟨rest, queued, left⟩, _, reports, panics⟩ := takes
  have whole : (subscriber.queue.map (Event.queuedShare crowd)).sum =
      event.queuedShare crowd + (rest.map (Event.queuedShare crowd)).sum := by
    rw [queued]
    rfl
  have lighter : (after.queue.map (Event.queuedShare crowd)).sum ≤
      (rest.map (Event.queuedShare crowd)).sum := by
    rcases left with same | empty
    · rw [same]
    · rw [empty]
      exact Nat.zero_le _
  have paid : (crowd + 1) * (subscriber.panicsOn event).toNat ≤
      event.queuedShare crowd + (crowd + 1) * echo subscriber event := by
    by_cases loss : event.kind = .subscriberOverflow
    · rw [echo, if_pos loss]
      exact Nat.le_add_left _ _
    · cases startled : subscriber.panicsOn event with
      | false => exact Nat.zero_le _
      | true =>
          have ordinary : event.isReport = false := by
            have notPanic : event.kind ≠ .subscriberPanicked := by
              intro isPanic
              have calm := composed subscriber.taken event isPanic
              rw [Subscriber.panicsOn, Subscriber.answer, calm] at startled
              cases startled
            simp [Event.isReport, loss, notPanic]
          rw [Event.queuedShare, ordinary]
          change (crowd + 1) * 1 ≤ crowd + 1 + _
          omega
  rw [← panics, Nat.mul_add] at paid
  rw [charge_of_panics crowd reports, Subscriber.load, Subscriber.load, whole]
  omega

theorem Fails.charge_eq {subscriber after : Subscriber} {message : String}
    {effects : List FanOutEffect} (fails : Fails subscriber message after effects) (crowd : Nat) :
    after.load crowd + charge crowd effects = subscriber.load crowd := by
  obtain ⟨queue, _, report, owes, settled⟩ := fails
  rw [charge_of_panics crowd (Or.inr ⟨message, report⟩), Subscriber.load, Subscriber.load, queue,
    owes, settled, report]
  rfl

section Steps

variable {closed : Bool} {now : Span} {budget : Nat} {subscriber after : Subscriber}
  {effects : List FanOutEffect}

theorem steps_of_took {event : Event}
    (took : step closed now subscriber = .took event after effects) :
    steps closed now (budget + 1) subscriber =
      ((steps closed now budget after).1, effects ++ (steps closed now budget after).2.1,
        (steps closed now budget after).2.2) := by
  rw [steps, took]

theorem steps_of_failed {message : String}
    (failed : step closed now subscriber = .failed message after effects) :
    steps closed now (budget + 1) subscriber =
      ((steps closed now budget after).1, effects ++ (steps closed now budget after).2.1,
        (steps closed now budget after).2.2) := by
  rw [steps, failed]

theorem steps_of_idle (idle : step closed now subscriber = .idle after) :
    steps closed now (budget + 1) subscriber = (after, [], false) := by
  rw [steps, idle]

end Steps

/-- What a worker reports in its turn is paid for by the events that it takes from its queue. -/
theorem charge_steps (crowd : Nat) (closed : Bool) (now : Span) (budget : Nat)
    {subscriber : Subscriber} (composed : Composed subscriber.respond) :
    (steps closed now budget subscriber).1.load crowd +
        charge crowd (steps closed now budget subscriber).2.1 ≤
      subscriber.load crowd + (crowd + 1) * echoes closed now budget subscriber := by
  induction budget generalizing subscriber with
  | zero => exact Nat.le_refl _
  | succ budget inductionHypothesis =>
      rcases step_cases closed now subscriber with
        ⟨after, idle, idles⟩ | ⟨event, after, effects, took, takes⟩ |
        ⟨message, after, effects, failed, fails⟩
      · have same : after.load crowd = subscriber.load crowd := by
          rw [Subscriber.load, Subscriber.load, idles.queue, idles.owed]
        rw [steps_of_idle idle]
        exact Nat.le_add_right_of_le same.le
      · have first := takes.charge_le composed crowd
        have later := inductionHypothesis (takes.respond ▸ composed)
        rw [steps_of_took took, echoes, took]
        dsimp only
        rw [charge_append, Nat.mul_add]
        omega
      · have first := fails.charge_eq crowd
        have later := inductionHypothesis (fails.respond ▸ composed)
        rw [steps_of_failed failed, echoes, failed]
        dsimp only
        rw [charge_append]
        omega

theorem respond_steps (closed : Bool) (now : Span) (budget : Nat) (subscriber : Subscriber) :
    (steps closed now budget subscriber).1.respond = subscriber.respond := by
  induction budget generalizing subscriber with
  | zero => rfl
  | succ budget inductionHypothesis =>
      rcases step_cases closed now subscriber with
        ⟨after, idle, idles⟩ | ⟨event, after, effects, took, takes⟩ |
        ⟨message, after, effects, failed, fails⟩
      · rw [steps_of_idle idle]
        exact idles.respond
      · rw [steps_of_took took]
        exact (inductionHypothesis after).trans takes.respond
      · rw [steps_of_failed failed]
        exact (inductionHypothesis after).trans fails.respond

theorem isReport_of_mem_steps (closed : Bool) (now : Span) (budget : Nat)
    (subscriber : Subscriber) :
    ∀ report ∈ publications (steps closed now budget subscriber).2.1, report.isReport = true := by
  induction budget generalizing subscriber with
  | zero => exact List.forall_mem_nil _
  | succ budget inductionHypothesis =>
      rcases step_cases closed now subscriber with
        ⟨after, idle, _⟩ | ⟨event, after, effects, took, takes⟩ |
        ⟨message, after, effects, failed, fails⟩
      · rw [steps_of_idle idle]
        exact List.forall_mem_nil _
      · rw [steps_of_took took]
        dsimp only
        rw [publications_append]
        rcases takes.reports with quiet | ⟨message, report⟩
        · rw [quiet]
          exact inductionHypothesis after
        · rw [report]
          exact List.forall_mem_cons.mpr ⟨rfl, inductionHypothesis after⟩
      · rw [steps_of_failed failed]
        dsimp only
        rw [publications_append, fails.reports]
        exact List.forall_mem_cons.mpr ⟨rfl, inductionHypothesis after⟩

/-- Without a subscriber that panics on reports of losses there is no echo. -/
theorem echoes_of_calm (closed : Bool) (now : Span) (budget : Nat) {subscriber : Subscriber}
    (calm : Calm subscriber.respond) : echoes closed now budget subscriber = 0 := by
  induction budget generalizing subscriber with
  | zero => rfl
  | succ budget inductionHypothesis =>
      rw [echoes]
      rcases step_cases closed now subscriber with
        ⟨after, idle, _⟩ | ⟨event, after, effects, took, takes⟩ |
        ⟨message, after, effects, failed, fails⟩
      · rw [idle]
      · have silent : echo subscriber event = 0 := by
          rw [echo]
          split
          · rename_i loss
            rw [Subscriber.panicsOn, Subscriber.answer, calm subscriber.taken event loss]
            rfl
          · rfl
        rw [took]
        dsimp only
        rw [silent, inductionHypothesis (takes.respond ▸ calm)]
      · rw [failed]
        exact inductionHypothesis (fails.respond ▸ calm)

theorem responses_emit (fan : FanOut) (event : Event) :
    (fan.emit event).1.responses = fan.responses :=
  responds_offerAll event 0 fan.subscribers

theorem charge_emit (crowd : Nat) (fan : FanOut) (event : Event) :
    load crowd (fan.emit event).1.subscribers + charge crowd (fan.emit event).2 ≤
      load crowd fan.subscribers + fan.responses.length * event.share crowd := by
  rw [responses, List.length_map]
  exact charge_offerAll crowd event 0 fan.subscribers

/-- How often a worker takes the report of a loss to panic on it in its turn. -/
def echoesOf (fan : FanOut) (worker : Nat) (now : Span) : Nat :=
  match fan.subscribers[worker]? with
  | none => 0
  | some subscriber => echoes fan.closed now turnBudget subscriber

theorem isReport_of_mem_work (fan : FanOut) (worker : Nat) (now : Span) :
    ∀ report ∈ publications (fan.work worker now).2.1, report.isReport = true := by
  unfold work
  split
  · exact List.forall_mem_nil _
  · exact isReport_of_mem_steps fan.closed now turnBudget _

theorem respond_of_getElem? {fan : FanOut} {worker : Nat} {subscriber : Subscriber}
    (found : fan.subscribers[worker]? = some subscriber) :
    subscriber.respond ∈ fan.responses :=
  List.mem_map_of_mem (List.mem_of_getElem? found)

theorem responses_work (fan : FanOut) (worker : Nat) (now : Span) :
    (fan.work worker now).1.responses = fan.responses := by
  unfold work
  split
  · rfl
  · rename_i subscriber found
    have same := respond_steps fan.closed now turnBudget subscriber
    obtain ⟨inside, isThere⟩ := List.getElem?_eq_some_iff.mp found
    change ((fan.subscribers.set worker _).map Subscriber.respond) = _
    rw [List.map_set, same, responses]
    apply List.ext_getElem
    · simp
    · intro index _ _
      rw [List.getElem_set]
      split
      · rename_i here
        subst here
        rw [List.getElem_map, isThere]
      · rfl

theorem load_set (crowd : Nat) {subscribers : List Subscriber} {worker : Nat}
    {subscriber : Subscriber} (found : subscribers[worker]? = some subscriber)
    (after : Subscriber) :
    load crowd (subscribers.set worker after) + subscriber.load crowd =
      load crowd subscribers + after.load crowd := by
  induction subscribers generalizing worker with
  | nil => cases found
  | cons first rest inductionHypothesis =>
      cases worker with
      | zero =>
          obtain rfl := Option.some.inj found
          simp only [List.set_cons_zero, load, List.map_cons, List.sum_cons]
          omega
      | succ worker =>
          have later := inductionHypothesis found
          simp only [load] at later
          simp only [List.set_cons_succ, load, List.map_cons, List.sum_cons]
          omega

/-- What a worker reports in its turn is paid for, panics on reports of losses excepted. -/
theorem charge_work (crowd : Nat) {fan : FanOut}
    (composed : ∀ respond ∈ fan.responses, Composed respond) (worker : Nat) (now : Span) :
    load crowd (fan.work worker now).1.subscribers + charge crowd (fan.work worker now).2.1 ≤
      load crowd fan.subscribers + (crowd + 1) * fan.echoesOf worker now := by
  unfold work echoesOf
  cases found : fan.subscribers[worker]? with
  | none => exact Nat.le_add_right _ _
  | some subscriber =>
      have turn := charge_steps crowd fan.closed now turnBudget
        (composed _ (respond_of_getElem? found))
      have moved := load_set crowd found (steps fan.closed now turnBudget subscriber).1
      change load crowd (fan.subscribers.set worker
        (steps fan.closed now turnBudget subscriber).1) +
          charge crowd (steps fan.closed now turnBudget subscriber).2.1 ≤
        load crowd fan.subscribers + (crowd + 1) * echoes fan.closed now turnBudget subscriber
      omega

theorem echoesOf_of_calm {fan : FanOut} (calm : ∀ respond ∈ fan.responses, Calm respond)
    (worker : Nat) (now : Span) : fan.echoesOf worker now = 0 := by
  unfold echoesOf
  split
  · rfl
  · rename_i subscriber found
    exact echoes_of_calm fan.closed now turnBudget (calm _ (respond_of_getElem? found))

end FanOut

end PlanSupervision
