import PlanSupervision.Proofs.FanOut.Reports

/-!
The queue of one subscriber. It is offered events, and its worker takes them one after the other;
what the subscriber is given depends on nothing else. Every event that was accepted is handled or
still queued, in order, unless the worker was lost with the events that were queued then.
-/

namespace PlanSupervision

namespace Subscriber

/-- The subscriber before its worker has begun. -/
def atStart (subscriber : Subscriber) : Subscriber :=
  { subscriber with queue := [], state := .waiting }

/-- What concerns a single subscriber. -/
inductive Act where
  | offer (event : Event)
  | step (now : Span)

/-- What comes of an act. -/
inductive Deed where
  | accepted (event : Event)
  | refused (event : Event) (refusal : Refusal)
  | handled (event : Event) (response : Response)
  /-- A panic came true that was underway since an event was handled. -/
  | failed (message : String)
  | idled
deriving DecidableEq

namespace Deed

def accepted? : Deed → Option Event
  | accepted event => some event
  | _ => none

def handled? : Deed → Option Event
  | handled event _ => some event
  | _ => none

def offered? : Deed → Option Event
  | accepted event | refused event _ => some event
  | _ => none

/-- An event that was offered, or the point at which the worker took one. -/
def beat? : Deed → Option (Option Event)
  | accepted event | refused event _ => some (some event)
  | handled _ _ => some none
  | failed _ | idled => none

/-- A panic that is underway from then on. -/
def begun? : Deed → Option String
  | handled _ (.panicLater _ message) => some message
  | _ => none

def failed? : Deed → Option String
  | failed message => some message
  | _ => none

/-- The events that are published on account of a deed. The loss of a report of a loss is not
reported. -/
def reports (name : String) : Deed → List Event
  | refused event refusal =>
      if event.kind = .subscriberOverflow then [] else [.overflow name refusal.name]
  | handled _ (.panic message) | failed message => [.panicked name message]
  | _ => []

end Deed

def act (closed : Bool) (subscriber : Subscriber) : Act → Subscriber × Deed
  | .offer event =>
      match subscriber.offer event with
      | .ok taken => (taken, .accepted event)
      | .error refusal => (subscriber, .refused event refusal)
  | .step now =>
      match FanOut.step closed now subscriber with
      | .took event after _ => (after, .handled event (subscriber.answer event))
      | .failed message after _ => (after, .failed message)
      | .idle after => (after, .idled)

def after (closed : Bool) (subscriber : Subscriber) (acts : List Act) : Subscriber :=
  acts.foldl (fun subscriber act => (subscriber.act closed act).1) subscriber

/-- What comes of each of the acts, in order. -/
def deeds (closed : Bool) (subscriber : Subscriber) : List Act → List Deed
  | [] => []
  | act :: later =>
      (subscriber.act closed act).2 :: (subscriber.act closed act).1.deeds closed later

/-- What a queue with so many slots passes on, given the events that it is offered and the points
at which one is taken. -/
def received (slots : Nat) : List Event → List (Option Event) → List Event
  | _, [] => []
  | queue, some event :: later =>
      received slots (if slots ≤ queue.length then queue else queue ++ [event]) later
  | [], none :: later => received slots [] later
  | event :: rest, none :: later => event :: received slots rest later

/-- The worker has neither ended nor been lost. -/
def Alive (subscriber : Subscriber) : Prop :=
  subscriber.state ≠ .gone ∧ subscriber.state ≠ .ended

/-- The worker can take an event. -/
def Free (now : Span) (subscriber : Subscriber) : Prop :=
  subscriber.state = .waiting ∨ ∃ ready ≤ now, subscriber.state = .busy ready

/-- The panic that is to come true before the next event is taken. -/
def underway (subscriber : Subscriber) : List String :=
  match subscriber.state with
  | .failing _ message => [message]
  | _ => []

theorem Free.alive {now : Span} {subscriber : Subscriber} (free : subscriber.Free now) :
    subscriber.Alive := by
  rcases free with waiting | ⟨ready, _, busy⟩
  · simp [Alive, waiting]
  · simp [Alive, busy]

theorem Free.underway {now : Span} {subscriber : Subscriber} (free : subscriber.Free now) :
    subscriber.underway = [] := by
  rcases free with waiting | ⟨ready, _, busy⟩
  · simp [Subscriber.underway, waiting]
  · simp [Subscriber.underway, busy]

end Subscriber

namespace Response

/-- How a worker stands when the subscriber has been given an event. -/
def standing (now : Span) : Response → WorkerState
  | done | panic _ => .waiting
  | busy duration => .busy (now + duration)
  | panicLater duration message => .failing (now + duration) message
  | dies => .gone

/-- What is left of a queue. A worker that is lost takes it along. -/
def remainder (behind : List Event) : Response → List Event
  | dies => []
  | _ => behind

theorem standing_ne_gone {response : Response} (survives : response ≠ .dies) (now : Span) :
    response.standing now ≠ .gone := by
  cases response with
  | dies => exact absurd rfl survives
  | _ => simp [standing]

theorem standing_ne_ended (response : Response) (now : Span) : response.standing now ≠ .ended := by
  cases response <;> simp [standing]

theorem remainder_eq {response : Response} (survives : response ≠ .dies) (behind : List Event) :
    response.remainder behind = behind := by
  cases response with
  | dies => exact absurd rfl survives
  | _ => rfl

end Response

namespace Subscriber

/-- All that an act can do. -/
inductive Does (closed : Bool) (before : Subscriber) : Act → Subscriber → Deed → Prop where
  | accepts (event : Event) (alive : before.Alive)
      (room : before.queue.length < before.slots) :
      Does closed before (.offer event) { before with queue := before.queue ++ [event] }
        (.accepted event)
  | overflows (event : Event) (alive : before.Alive)
      (full : before.slots ≤ before.queue.length) :
      Does closed before (.offer event) before (.refused event .full)
  | bounces (event : Event) (dead : ¬ before.Alive) :
      Does closed before (.offer event) before (.refused event .closed)
  | waits (now : Span) (notFree : before.state ≠ .waiting) :
      Does closed before (.step now) before .idled
  | rests (now : Span) (free : before.Free now) (idle : before.queue = []) :
      Does closed before (.step now)
        { before with state := if closed then .ended else .waiting } .idled
  | handles (now : Span) {event : Event} {rest : List Event} (free : before.Free now)
      (queued : before.queue = event :: rest) (survives : before.answer event ≠ .dies) :
      Does closed before (.step now)
        { before with
          taken := before.taken + 1, queue := rest, state := (before.answer event).standing now }
        (.handled event (before.answer event))
  | dies (now : Span) {event : Event} {rest : List Event} (free : before.Free now)
      (queued : before.queue = event :: rest) (fatal : before.answer event = .dies) :
      Does closed before (.step now)
        { before with taken := before.taken + 1, queue := [], state := .gone }
        (.handled event .dies)
  | fails (now : Span) {due : Span} {message : String}
      (failing : before.state = .failing due message) (isDue : due ≤ now) :
      Does closed before (.step now) { before with state := .waiting } (.failed message)

theorem does_offer (closed : Bool) (subscriber : Subscriber) (event : Event) :
    Does closed subscriber (.offer event) (subscriber.act closed (.offer event)).1
      (subscriber.act closed (.offer event)).2 := by
  by_cases dead : subscriber.state = .gone ∨ subscriber.state = .ended
  · simp only [act, offer, if_pos dead]
    apply Does.bounces
    exact fun alive => dead.elim alive.1 alive.2
  · have alive : subscriber.Alive := not_or.mp dead
    by_cases full : subscriber.slots ≤ subscriber.queue.length
    · simp only [act, offer, if_neg dead, if_pos full]
      exact .overflows event alive full
    · simp only [act, offer, if_neg dead, if_neg full]
      exact .accepts event alive (Nat.not_le.mp full)

section Step

variable {closed : Bool} {now : Span} {subscriber : Subscriber} {event : Event} {rest : List Event}

theorem step_of_free (free : subscriber.Free now) :
    FanOut.step closed now subscriber = FanOut.take closed now subscriber := by
  unfold FanOut.step
  rcases free with waiting | ⟨ready, due, busy⟩
  · rw [waiting]
  · rw [busy]
    exact if_pos due

theorem step_of_empty (free : subscriber.Free now) (empty : subscriber.queue = []) :
    FanOut.step closed now subscriber =
      .idle { subscriber with state := if closed then .ended else .waiting } := by
  rw [step_of_free free, FanOut.take, empty]

theorem step_of_queued (free : subscriber.Free now) (queued : subscriber.queue = event :: rest) :
    FanOut.step closed now subscriber =
      .took event
        { subscriber with
          taken := subscriber.taken + 1
          queue := (subscriber.answer event).remainder rest
          state := (subscriber.answer event).standing now }
        (.write (subscriber.entry event) :: ((Deed.handled event (subscriber.answer event)).reports
          subscriber.name).map .publish) := by
  rw [step_of_free free, FanOut.take, queued, answer]
  dsimp only
  cases subscriber.respond subscriber.taken event <;> rfl

theorem step_of_due {due : Span} {message : String}
    (failing : subscriber.state = .failing due message) (isDue : due ≤ now) :
    FanOut.step closed now subscriber = .failed message { subscriber with state := .waiting }
      [.publish (.panicked subscriber.name message)] := by
  rw [FanOut.step, failing]
  exact if_pos isDue

/-- A worker takes an event, a panic comes true, or the time of the worker has not come, if it ever
will. -/
theorem free_or_due (closed : Bool) (now : Span) (subscriber : Subscriber) :
    subscriber.Free now ∨
      (∃ due message, subscriber.state = .failing due message ∧ due ≤ now) ∨
      subscriber.state ≠ .waiting ∧ FanOut.step closed now subscriber = .idle subscriber := by
  unfold FanOut.step
  cases state : subscriber.state with
  | waiting => exact Or.inl (Or.inl state)
  | busy ready =>
      by_cases due : ready ≤ now
      · exact Or.inl (Or.inr ⟨ready, due, state⟩)
      · exact Or.inr (Or.inr ⟨nofun, if_neg due⟩)
  | failing due message =>
      by_cases isDue : due ≤ now
      · exact Or.inr (Or.inl ⟨due, message, rfl, isDue⟩)
      · exact Or.inr (Or.inr ⟨nofun, if_neg isDue⟩)
  | gone | ended => exact Or.inr (Or.inr ⟨nofun, rfl⟩)

end Step

theorem does_step (closed : Bool) (subscriber : Subscriber) (now : Span) :
    Does closed subscriber (.step now) (subscriber.act closed (.step now)).1
      (subscriber.act closed (.step now)).2 := by
  rcases subscriber.free_or_due closed now with
    free | ⟨due, message, failing, isDue⟩ | ⟨busy, idle⟩
  · cases queued : subscriber.queue with
    | nil =>
        simp only [act, step_of_empty free queued]
        exact .rests now free queued
    | cons event rest =>
        simp only [act, step_of_queued free queued]
        by_cases fatal : subscriber.answer event = .dies
        · simp only [fatal]
          exact .dies now free queued fatal
        · rw [Response.remainder_eq fatal]
          exact .handles now free queued fatal
  · simp only [act, step_of_due failing isDue]
    exact .fails now failing isDue
  · simp only [act, idle]
    exact .waits now busy

theorem does_act (closed : Bool) (subscriber : Subscriber) (act : Act) :
    Does closed subscriber act (subscriber.act closed act).1 (subscriber.act closed act).2 := by
  cases act with
  | offer event => exact does_offer closed subscriber event
  | step now => exact does_step closed subscriber now

/-- A panic that is about to come true does so in the life of the worker. -/
theorem alive_of_failing {subscriber : Subscriber} {due : Span} {message : String}
    (failing : subscriber.state = .failing due message) : subscriber.Alive := by
  simp [Alive, failing]

namespace Does

variable {closed : Bool} {before after : Subscriber} {act : Act} {deed : Deed}

/-- An act changes only the queue, the state of the worker and the count of the events taken. -/
theorem unchanged (does : Does closed before act after deed) :
    after.name = before.name ∧ after.respond = before.respond ∧ after.slots = before.slots := by
  cases does <;> exact ⟨rfl, rfl, rfl⟩

theorem taken_eq (does : Does closed before act after deed) :
    after.taken = before.taken + deed.handled?.toList.length := by
  cases does <;> rfl

theorem gone_iff (does : Does closed before act after deed) :
    after.state = .gone ↔ before.state = .gone ∨ ∃ event, deed = .handled event .dies := by
  cases does with
  | accepts | overflows | bounces | waits => simp
  | rests _ free => cases closed <;> simp [free.alive.1]
  | handles now free _ survives =>
      simp [free.alive.1, Response.standing_ne_gone survives now, survives]
  | dies => simp
  | fails _ failing => simp [failing]

/-- While more events may come, no worker ends. -/
theorem not_ended (does : Does false before act after deed) (lasts : before.state ≠ .ended) :
    after.state ≠ .ended := by
  cases does with
  | accepts | overflows | bounces | waits => exact lasts
  | handles now => exact Response.standing_ne_ended _ now
  | rests | dies | fails => simp

theorem empty_of_dead (does : Does closed before act after deed)
    (drained : ¬ before.Alive → before.queue = []) : ¬ after.Alive → after.queue = [] := by
  cases does with
  | accepts event alive => exact fun dead => absurd alive dead
  | overflows | bounces | waits => exact drained
  | rests _ _ idle => exact fun _ => idle
  | handles now _ _ survives =>
      refine fun dead => absurd ?_ dead
      exact ⟨Response.standing_ne_gone survives now, Response.standing_ne_ended _ now⟩
  | dies => exact fun _ => rfl
  | fails => exact fun dead => absurd ⟨nofun, nofun⟩ dead

theorem dead_stays (does : Does closed before act after deed) (dead : ¬ before.Alive) :
    after = before ∧ deed.handled? = none ∧ deed.beat? ≠ some none := by
  cases does with
  | accepts _ alive | overflows _ alive => exact absurd alive dead
  | rests _ free | handles _ free | dies _ free => exact absurd free.alive dead
  | fails _ failing => exact absurd (alive_of_failing failing) dead
  | bounces | waits => exact ⟨rfl, rfl, by simp [Deed.beat?]⟩

/-- An event enters the queue at its end and leaves it at its head; the others are lost only with
the worker. -/
theorem account (does : Does closed before act after deed) :
    ∃ lost, before.queue ++ deed.accepted?.toList =
        deed.handled?.toList ++ (lost ++ after.queue) ∧
      (lost ≠ [] → after.state = .gone) := by
  cases does with
  | accepts | overflows | bounces | waits | rests | fails =>
      exact ⟨[], by simp [Deed.accepted?, Deed.handled?], absurd rfl⟩
  | handles _ _ queued => exact ⟨[], by simp [Deed.accepted?, Deed.handled?, queued], absurd rfl⟩
  | @dies _ _ rest _ queued =>
      exact ⟨rest, by simp [Deed.accepted?, Deed.handled?, queued], fun _ => rfl⟩

/-- A panic that is underway comes true before the worker does anything else. -/
theorem comes_true (does : Does closed before act after deed) :
    before.underway ++ deed.begun?.toList = deed.failed?.toList ++ after.underway := by
  cases does with
  | accepts | overflows | bounces | waits => exact List.append_nil _
  | rests _ free =>
      rw [free.underway]
      cases closed <;> rfl
  | @handles _ event _ free =>
      rw [free.underway]
      cases before.answer event <;> rfl
  | dies _ free =>
      rw [free.underway]
      rfl
  | fails _ failing =>
      rw [Subscriber.underway, failing]
      rfl

end Does

section Runs

variable (closed : Bool)

theorem unchanged_after (subscriber : Subscriber) (acts : List Act) :
    (subscriber.after closed acts).name = subscriber.name ∧
      (subscriber.after closed acts).respond = subscriber.respond ∧
      (subscriber.after closed acts).slots = subscriber.slots := by
  induction acts generalizing subscriber with
  | nil => exact ⟨rfl, rfl, rfl⟩
  | cons act later inductionHypothesis =>
      obtain ⟨name, respond, slots⟩ := (does_act closed subscriber act).unchanged
      have onward := inductionHypothesis (subscriber.act closed act).1
      simp only [name, respond, slots] at onward
      exact onward

theorem after_append (subscriber : Subscriber) (earlier later : List Act) :
    subscriber.after closed (earlier ++ later) =
      (subscriber.after closed earlier).after closed later :=
  List.foldl_append

/-- What is shown of the deeds is shown of the first one and of the rest. -/
theorem filterMap_deeds {Shown : Type} (shown? : Deed → Option Shown) (subscriber : Subscriber)
    (act : Act) (later : List Act) :
    (subscriber.deeds closed (act :: later)).filterMap shown? =
      (shown? (subscriber.act closed act).2).toList ++
        ((subscriber.act closed act).1.deeds closed later).filterMap shown? := by
  cases shown : shown? (subscriber.act closed act).2 <;> simp [deeds, shown]

theorem taken_after (subscriber : Subscriber) (acts : List Act) :
    (subscriber.after closed acts).taken =
      subscriber.taken + ((subscriber.deeds closed acts).filterMap Deed.handled?).length := by
  induction acts generalizing subscriber with
  | nil => rfl
  | cons act later inductionHypothesis =>
      have first := (does_act closed subscriber act).taken_eq
      have onward := inductionHypothesis (subscriber.act closed act).1
      rw [filterMap_deeds, List.length_append, ← Nat.add_assoc, ← first]
      exact onward

/-- The panics that were begun are those that came true, in order, and the one underway. -/
theorem panics_after (subscriber : Subscriber) (acts : List Act) :
    subscriber.underway ++ (subscriber.deeds closed acts).filterMap Deed.begun? =
      (subscriber.deeds closed acts).filterMap Deed.failed? ++
        (subscriber.after closed acts).underway := by
  induction acts generalizing subscriber with
  | nil => exact List.append_nil _
  | cons act later inductionHypothesis =>
      have first := (does_act closed subscriber act).comes_true
      have onward := inductionHypothesis (subscriber.act closed act).1
      rw [filterMap_deeds, filterMap_deeds, ← List.append_assoc, first, List.append_assoc,
        List.append_assoc, onward]
      rfl

/-- The worker is lost when it takes an event that is fatal to it, and only then. -/
theorem gone_after_iff (subscriber : Subscriber) (acts : List Act) :
    (subscriber.after closed acts).state = .gone ↔
      subscriber.state = .gone ∨ ∃ event, .handled event .dies ∈ subscriber.deeds closed acts := by
  induction acts generalizing subscriber with
  | nil => simp [after, deeds]
  | cons act later inductionHypothesis =>
      have first := (does_act closed subscriber act).gone_iff
      have onward := inductionHypothesis (subscriber.act closed act).1
      simp only [first] at onward
      simp only [deeds, List.mem_cons, exists_or, ← or_assoc, eq_comm (a := Deed.handled _ _)]
      exact onward

theorem not_ended_after (subscriber : Subscriber) (acts : List Act)
    (lasts : subscriber.state ≠ .ended) : (subscriber.after false acts).state ≠ .ended := by
  induction acts generalizing subscriber with
  | nil => exact lasts
  | cons act later inductionHypothesis =>
      exact inductionHypothesis _ ((does_act false subscriber act).not_ended lasts)

theorem empty_of_dead_after (subscriber : Subscriber) (acts : List Act)
    (drained : ¬ subscriber.Alive → subscriber.queue = []) :
    ¬ (subscriber.after closed acts).Alive → (subscriber.after closed acts).queue = [] := by
  induction acts generalizing subscriber with
  | nil => exact drained
  | cons act later inductionHypothesis =>
      exact inductionHypothesis _ ((does_act closed subscriber act).empty_of_dead drained)

/-- Without a worker nothing is handled, and nothing is taken from a queue. -/
theorem deeds_of_dead (subscriber : Subscriber) (acts : List Act) (dead : ¬ subscriber.Alive) :
    (subscriber.deeds closed acts).filterMap Deed.handled? = [] ∧
      ∀ beat ∈ (subscriber.deeds closed acts).filterMap Deed.beat?, beat ≠ none := by
  induction acts generalizing subscriber with
  | nil => exact ⟨rfl, List.forall_mem_nil _⟩
  | cons act later inductionHypothesis =>
      obtain ⟨same, unhandled, untaken⟩ := (does_act closed subscriber act).dead_stays dead
      obtain ⟨restUnhandled, restUntaken⟩ :=
        inductionHypothesis (subscriber.act closed act).1 (by simpa only [same] using dead)
      constructor
      · simp only [deeds, List.filterMap_cons, unhandled, restUnhandled]
      · intro beat among
        rcases List.mem_filterMap.mp among with ⟨deed, member, counts⟩
        rcases List.mem_cons.mp member with rfl | inLater
        · rintro rfl
          exact untaken counts
        · exact restUntaken beat (List.mem_filterMap.mpr ⟨deed, inLater, counts⟩)

/-- The accepted events are the handled ones, those that were lost with the worker, and those that
are still queued, in order. -/
theorem accounted (subscriber : Subscriber) (acts : List Act) :
    ∃ lost, subscriber.queue ++ (subscriber.deeds closed acts).filterMap Deed.accepted? =
        (subscriber.deeds closed acts).filterMap Deed.handled? ++
          (lost ++ (subscriber.after closed acts).queue) ∧
      (lost ≠ [] → (subscriber.after closed acts).state = .gone) := by
  induction acts generalizing subscriber with
  | nil => exact ⟨[], by simp [deeds, after], absurd rfl⟩
  | cons act later inductionHypothesis =>
      have does := does_act closed subscriber act
      obtain ⟨now, entering, gone⟩ := does.account
      obtain ⟨then_, onward, goneThen⟩ := inductionHypothesis (subscriber.act closed act).1
      -- Events are lost at one act only: with the worker gone, nothing is handled after them.
      have stays : now ≠ [] →
          ((subscriber.act closed act).1.deeds closed later).filterMap Deed.handled? = [] :=
        fun some => (deeds_of_dead closed _ later fun alive => alive.1 (gone some)).1
      refine ⟨now ++ then_, ?_, ?_⟩
      · rw [filterMap_deeds, filterMap_deeds, ← List.append_assoc, entering]
        by_cases none : now = []
        · simp only [none, List.nil_append, List.append_assoc, onward]
          rfl
        · simp only [List.append_assoc, onward, stays none, List.nil_append]
          rfl
      · intro some
        by_cases noneThen : then_ = []
        · apply (gone_after_iff closed _ later).mpr
          exact Or.inl (gone fun none => some (by simp [none, noneThen]))
        · exact goneThen noneThen

theorem received_of_offers (slots : Nat) (queue : List Event) (beats : List (Option Event))
    (untaken : ∀ beat ∈ beats, beat ≠ none) : received slots queue beats = [] := by
  induction beats generalizing queue with
  | nil => rfl
  | cons beat later inductionHypothesis =>
      obtain ⟨first, rest⟩ := List.forall_mem_cons.mp untaken
      cases beat with
      | none => exact absurd rfl first
      | some event => exact inductionHypothesis _ rest

theorem handled_eq_received_of_dead (subscriber : Subscriber) (acts : List Act)
    (dead : ¬ subscriber.Alive) (slots : Nat) (queue : List Event) :
    (subscriber.deeds closed acts).filterMap Deed.handled? =
      received slots queue ((subscriber.deeds closed acts).filterMap Deed.beat?) := by
  obtain ⟨unhandled, untaken⟩ := deeds_of_dead closed subscriber acts dead
  exact unhandled.trans (received_of_offers slots queue _ untaken).symm

/-- The subscriber is given what a queue with its slots passes on. -/
theorem handled_eq_received (subscriber : Subscriber) (acts : List Act)
    (alive : subscriber.Alive) :
    (subscriber.deeds closed acts).filterMap Deed.handled? =
      received subscriber.slots subscriber.queue
        ((subscriber.deeds closed acts).filterMap Deed.beat?) := by
  induction acts generalizing subscriber with
  | nil => rfl
  | cons act later inductionHypothesis =>
      have does := does_act closed subscriber act
      simp only [deeds, List.filterMap_cons]
      generalize (subscriber.act closed act).1 = next at does ⊢
      generalize (subscriber.act closed act).2 = deed at does ⊢
      cases does with
      | accepts event _ room =>
          simp only [Deed.handled?, Deed.beat?, received, if_neg (Nat.not_le.mpr room)]
          exact inductionHypothesis _ alive
      | overflows event _ full =>
          simp only [Deed.handled?, Deed.beat?, received, if_pos full]
          exact inductionHypothesis _ alive
      | bounces event dead => exact absurd alive dead
      | waits now => exact inductionHypothesis _ alive
      | rests now _ idle =>
          simp only [Deed.handled?, Deed.beat?]
          cases closed with
          | false => exact inductionHypothesis _ ⟨nofun, nofun⟩
          | true => exact handled_eq_received_of_dead true _ later (fun alive => alive.2 rfl) _ _
      | handles now _ queued survives =>
          simp only [Deed.handled?, Deed.beat?, queued, received]
          apply congrArg (List.cons _)
          exact inductionHypothesis _
            ⟨Response.standing_ne_gone survives now, Response.standing_ne_ended _ now⟩
      | dies now _ queued =>
          simp only [Deed.handled?, Deed.beat?, queued, received]
          apply congrArg (List.cons _)
          exact handled_eq_received_of_dead closed _ later (fun alive => alive.1 rfl) _ _
      | fails now => exact inductionHypothesis _ ⟨nofun, nofun⟩

/-- In a set that has not been shut down, a subscriber is given the events that its queue passes on;
those that were accepted are accounted for; and whether one is accepted depends on the room in the
queue as long as none was fatal to the worker. What it does with an event may depend on how many it
was given before. A panic comes true at once or when its time has come, and the worker goes on with
the next event. -/
structure Conserves (subscriber : Subscriber) (acts : List Act) : Prop where
  passesOn : ((subscriber.atStart.deeds false acts).filterMap Deed.handled?) =
    received subscriber.slots [] ((subscriber.atStart.deeds false acts).filterMap Deed.beat?)
  accounts : ∃ lost, (subscriber.atStart.deeds false acts).filterMap Deed.accepted? =
      (subscriber.atStart.deeds false acts).filterMap Deed.handled? ++
        (lost ++ (subscriber.atStart.after false acts).queue) ∧
    (lost ≠ [] → ∃ event, .handled event .dies ∈ subscriber.atStart.deeds false acts)
  accepts : (∀ event, .handled event .dies ∉ subscriber.atStart.deeds false acts) → ∀ event,
    ((subscriber.atStart.after false acts).act false (.offer event)).2 =
      if subscriber.slots ≤ (subscriber.atStart.after false acts).queue.length
      then .refused event .full else .accepted event
  refuses : (∃ event, .handled event .dies ∈ subscriber.atStart.deeds false acts) → ∀ event,
    ((subscriber.atStart.after false acts).act false (.offer event)).2 = .refused event .closed
  takes : ∀ now event rest, (subscriber.atStart.after false acts).Free now →
    (subscriber.atStart.after false acts).queue = event :: rest →
    ((subscriber.atStart.after false acts).act false (.step now)).2 =
      .handled event (subscriber.respond (subscriber.taken +
        ((subscriber.atStart.deeds false acts).filterMap Deed.handled?).length) event)
  goesOn : ∀ now event message,
    ((subscriber.atStart.after false acts).act false (.step now)).2 =
        .handled event (.panic message) →
      ((subscriber.atStart.after false acts).act false (.step now)).1 =
        { subscriber.atStart.after false acts with
          taken := (subscriber.atStart.after false acts).taken + 1
          queue := (subscriber.atStart.after false acts).queue.tail, state := .waiting }
  panics : (subscriber.atStart.deeds false acts).filterMap Deed.begun? =
    (subscriber.atStart.deeds false acts).filterMap Deed.failed? ++
      (subscriber.atStart.after false acts).underway
  comesTrue : ∀ now due message,
    (subscriber.atStart.after false acts).state = .failing due message →
      (subscriber.atStart.after false acts).act false (.step now) =
        if due ≤ now then
          ({ subscriber.atStart.after false acts with state := .waiting }, .failed message)
        else (subscriber.atStart.after false acts, .idled)

/-- The subscriber panics, if it does, where the panic is caught. -/
def Sturdy (subscriber : Subscriber) : Prop :=
  ∀ taken event, subscriber.respond taken event ≠ .dies

theorem not_fatal_of_sturdy {subscriber : Subscriber} (sturdy : subscriber.Sturdy)
    (acts : List Act) (event : Event) :
    .handled event .dies ∉ subscriber.deeds closed acts := by
  induction acts generalizing subscriber with
  | nil => exact List.not_mem_nil
  | cons act later inductionHypothesis =>
      have does := does_act closed subscriber act
      have next : (subscriber.act closed act).1.Sturdy := by
        simp only [Sturdy, does.unchanged.2.1]
        exact sturdy
      intro among
      rcases List.mem_cons.mp among with first | inLater
      · have survives : (subscriber.act closed act).2 ≠ .handled event .dies := by
          generalize (subscriber.act closed act).1 = after at does
          generalize (subscriber.act closed act).2 = deed at does ⊢
          cases does with
          | accepts | overflows | bounces | waits | rests | fails => nofun
          | handles _ _ _ survives => exact fun same => survives (Deed.handled.inj same).2
          | dies _ _ _ fatal => exact fun _ => sturdy _ _ fatal
        exact survives first.symm
      · exact inductionHypothesis next inLater

/-- While the set lives, no event is refused to such a subscriber because its queue is closed. -/
theorem not_closed_of_sturdy {subscriber : Subscriber} (sturdy : subscriber.Sturdy)
    (alive : subscriber.Alive) (acts : List Act) (event : Event) :
    .refused event .closed ∉ subscriber.deeds false acts := by
  induction acts generalizing subscriber with
  | nil => exact List.not_mem_nil
  | cons act later inductionHypothesis =>
      have does := does_act false subscriber act
      have next : (subscriber.act false act).1.Sturdy := by
        simp only [Sturdy, does.unchanged.2.1]
        exact sturdy
      have spared := not_fatal_of_sturdy false sturdy [act]
      have still : (subscriber.act false act).1.Alive := by
        refine ⟨fun gone => ?_, does.not_ended alive.2⟩
        obtain ⟨fatal, dies⟩ := (does.gone_iff.mp gone).resolve_left alive.1
        exact spared fatal (List.mem_singleton.mpr dies.symm)
      intro among
      rcases List.mem_cons.mp among with first | inLater
      · generalize (subscriber.act false act).1 = after at does
        generalize (subscriber.act false act).2 = deed at does first
        cases does with
        | accepts | overflows | waits | rests | handles | dies | fails => cases first
        | bounces _ dead => exact dead alive
      · exact inductionHypothesis next still inLater

theorem offer_of_alive {subscriber : Subscriber} (alive : subscriber.Alive) (event : Event) :
    (subscriber.act false (.offer event)).2 =
      if subscriber.slots ≤ subscriber.queue.length then .refused event .full
      else .accepted event := by
  have does := does_act false subscriber (.offer event)
  generalize (subscriber.act false (.offer event)).1 = next at does
  generalize (subscriber.act false (.offer event)).2 = deed at does ⊢
  cases does with
  | accepts _ _ room => exact (if_neg (Nat.not_le.mpr room)).symm
  | overflows _ _ full => exact (if_pos full).symm
  | bounces _ dead => exact absurd alive dead

theorem offer_of_dead {subscriber : Subscriber} (dead : ¬ subscriber.Alive) (event : Event) :
    (subscriber.act false (.offer event)).2 = .refused event .closed := by
  have does := does_act false subscriber (.offer event)
  generalize (subscriber.act false (.offer event)).1 = next at does
  generalize (subscriber.act false (.offer event)).2 = deed at does ⊢
  cases does with
  | accepts _ alive | overflows _ alive => exact absurd alive dead
  | bounces => rfl

/-- After a panic the worker is free for the next event. -/
theorem step_of_panic {subscriber : Subscriber} {now : Span} {event : Event} {message : String}
    (panics : (subscriber.act closed (.step now)).2 = .handled event (.panic message)) :
    (subscriber.act closed (.step now)).1 =
      { subscriber with
        taken := subscriber.taken + 1, queue := subscriber.queue.tail, state := .waiting } := by
  have does := does_act closed subscriber (.step now)
  generalize (subscriber.act closed (.step now)).1 = next at does ⊢
  generalize (subscriber.act closed (.step now)).2 = deed at does panics
  cases does with
  | waits | rests | dies | fails => cases panics
  | handles _ _ queued =>
      obtain ⟨-, response⟩ := Deed.handled.inj panics
      simp only [response, Response.standing, queued, List.tail_cons]

theorem step_of_failing {subscriber : Subscriber} {due : Span} {message : String}
    (failing : subscriber.state = .failing due message) (now : Span) :
    subscriber.act closed (.step now) =
      if due ≤ now then ({ subscriber with state := .waiting }, .failed message)
      else (subscriber, .idled) := by
  split
  · rename_i isDue
    simp only [act, step_of_due failing isDue]
  · rename_i early
    have idle : FanOut.step closed now subscriber = .idle subscriber := by
      rw [FanOut.step, failing]
      exact if_neg early
    simp only [act, idle]

theorem conserves (subscriber : Subscriber) (acts : List Act) : subscriber.Conserves acts := by
  have alive : subscriber.atStart.Alive := ⟨nofun, nofun⟩
  have gone := gone_after_iff false subscriber.atStart acts
  have lasts := not_ended_after subscriber.atStart acts alive.2
  have fatal : (subscriber.atStart.after false acts).state = .gone ↔
      ∃ event, .handled event .dies ∈ subscriber.atStart.deeds false acts :=
    gone.trans (or_iff_right alive.1)
  obtain ⟨-, respond, slots⟩ := unchanged_after false subscriber.atStart acts
  constructor
  · exact handled_eq_received false subscriber.atStart acts alive
  · obtain ⟨lost, whole, only⟩ := accounted false subscriber.atStart acts
    exact ⟨lost, whole, fun some => fatal.mp (only some)⟩
  · intro spared event
    have still : (subscriber.atStart.after false acts).Alive :=
      ⟨fun isGone => (fatal.mp isGone).elim spared, lasts⟩
    have answer := offer_of_alive still event
    simp only [slots] at answer
    exact answer
  · intro died
    exact offer_of_dead fun still => still.1 (fatal.mpr died)
  · intro now event rest free queued
    simp only [act, step_of_queued free queued, answer, respond, taken_after]
    rfl
  · intro now event message panics
    exact step_of_panic false panics
  · exact panics_after false subscriber.atStart acts
  · intro now due message failing
    exact step_of_failing false failing now

end Runs

end Subscriber

end PlanSupervision
