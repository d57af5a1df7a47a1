import PlanSupervision.Agenda
import PlanSupervision.Journal

/-!
The fan-out of events to subscribers. Every subscriber has a bounded queue and a worker of
its own; an event that finds a queue full is lost for that subscriber alone, and the loss
is an event itself unless it was such an event that was lost.
-/

namespace PlanSupervision

/-- What a subscriber does with an event. -/
inductive Response where
  | done
  | busy (duration : Span)
  | panic (message : String)
  /-- It panics only after a while. -/
  | panicLater (duration : Span) (message : String)
  | dies
deriving DecidableEq, Inhabited

/-- Is it a panic that is caught? -/
def Response.isPanic : Response → Bool
  | panic _ | panicLater _ _ => true
  | done | busy _ | dies => false

inductive WorkerState where
  | waiting
  | busy (ready : Span)
  /-- The subscriber will have panicked on the event that was taken last. -/
  | failing (due : Span) (message : String)
  | gone
  | ended
deriving DecidableEq, Inhabited

structure Subscriber where
  name : String
  capacity : Nat
  writesLog : Bool
  /-- What it does with an event, given how many it took before. -/
  respond : Nat → Event → Response
  taken : Nat
  queue : List Event
  state : WorkerState
deriving Inhabited

namespace Subscriber

def defaultCapacity : Nat := 1024

/-- A subscriber that has taken no event, and responds to them alike at any time. -/
def fresh (name : String) (capacity : Nat) (respond : Event → Response) : Subscriber :=
  { name, capacity, writesLog := false, respond := fun _ => respond, taken := 0, queue := []
    state := .waiting }

def logWriter : Subscriber :=
  { fresh "LogWriter" defaultCapacity fun _ => .done with writesLog := true }

def slots (subscriber : Subscriber) : Nat := max subscriber.capacity 1

inductive Refusal where
  | full
  | closed
deriving DecidableEq, Inhabited

def Refusal.name : Refusal → String
  | full => "full"
  | closed => "closed"

/-- Put an event into the queue, unless the worker is gone or the queue is full. -/
def offer (subscriber : Subscriber) (event : Event) : Except Refusal Subscriber :=
  if subscriber.state = .gone ∨ subscriber.state = .ended then .error .closed
  else if subscriber.slots ≤ subscriber.queue.length then .error .full
  else .ok { subscriber with queue := subscriber.queue ++ [event] }

def entry (subscriber : Subscriber) (event : Event) : Entry :=
  if subscriber.writesLog then .logged (.ofEvent event) else .received subscriber.name event

end Subscriber

/-- What follows from a step of the fan-out, for others to carry out in order. -/
inductive FanOutEffect where
  | wake (worker : Nat)
  | publish (event : Event)
  | write (entry : Entry)

structure FanOut where
  subscribers : List Subscriber
  closed : Bool
deriving Inhabited

namespace FanOut

def ofSubscribers (subscribers : List Subscriber) : FanOut := ⟨subscribers, false⟩

def offerAll (event : Event) (index : Nat) :
    List Subscriber → List Subscriber × List FanOutEffect
  | [] => ([], [])
  | subscriber :: rest =>
      let (others, effects) := offerAll event (index + 1) rest
      match subscriber.offer event with
      | .ok taken =>
          let notice := if subscriber.state = .waiting then [FanOutEffect.wake index] else []
          (taken :: others, notice ++ effects)
      | .error refusal =>
          let report := if event.kind = .subscriberOverflow then []
            else [.publish (.overflow subscriber.name refusal.name)]
          (subscriber :: others, report ++ effects)

def emit (fan : FanOut) (event : Event) : FanOut × List FanOutEffect :=
  let (subscribers, effects) := offerAll event 0 fan.subscribers
  ({ fan with subscribers }, effects)

inductive WorkStep where
  | took (event : Event) (subscriber : Subscriber) (effects : List FanOutEffect)
  /-- The subscriber has panicked on an event that was taken before. -/
  | failed (message : String) (subscriber : Subscriber) (effects : List FanOutEffect)
  | idle (subscriber : Subscriber)

/-- A worker that is free takes the next event, or ends if none will come. -/
def take (closed : Bool) (now : Span) (subscriber : Subscriber) : WorkStep :=
  match subscriber.queue with
  | [] => .idle { subscriber with state := if closed then .ended else .waiting }
  | event :: queue =>
      let entry := FanOutEffect.write (subscriber.entry event)
      let taken := subscriber.taken + 1
      match subscriber.respond subscriber.taken event with
      | .done => .took event { subscriber with taken, queue, state := .waiting } [entry]
      | .busy duration =>
          .took event { subscriber with taken, queue, state := .busy (now + duration) } [entry]
      | .panic message =>
          .took event { subscriber with taken, queue, state := .waiting }
            [entry, .publish (.panicked subscriber.name message)]
      | .panicLater duration message =>
          .took event { subscriber with taken, queue, state := .failing (now + duration) message }
            [entry]
      | .dies => .took event { subscriber with taken, queue := [], state := .gone } [entry]

/-- One step of a worker, if its time has come. -/
def step (closed : Bool) (now : Span) (subscriber : Subscriber) : WorkStep :=
  match subscriber.state with
  | .waiting => take closed now subscriber
  | .busy ready => if ready ≤ now then take closed now subscriber else .idle subscriber
  | .failing due message =>
      if due ≤ now then
        .failed message { subscriber with state := .waiting }
          [.publish (.panicked subscriber.name message)]
      else .idle subscriber
  | .gone | .ended => .idle subscriber

def steps (closed : Bool) (now : Span) :
    Nat → Subscriber → Subscriber × List FanOutEffect × Bool
  | 0, subscriber => (subscriber, [], true)
  | budget + 1, subscriber =>
      match step closed now subscriber with
      | .idle subscriber => (subscriber, [], false)
      | .took _ subscriber effects | .failed _ subscriber effects =>
          let (subscriber, later, short) := steps closed now budget subscriber
          (subscriber, effects ++ later, short)

def work (fan : FanOut) (worker : Nat) (now : Span) : FanOut × List FanOutEffect × Bool :=
  match fan.subscribers[worker]? with
  | none => (fan, [], false)
  | some subscriber =>
      let (subscriber, effects, short) := steps fan.closed now turnBudget subscriber
      ({ fan with subscribers := fan.subscribers.set worker subscriber }, effects, short)

def deadlines (fan : FanOut) (worker : Nat) : List Span :=
  match fan.subscribers[worker]?.map Subscriber.state with
  | some (.busy ready) | some (.failing ready _) => [ready]
  | _ => []

/-- Close every queue; the workers end once theirs are empty. -/
def close (fan : FanOut) : FanOut := { fan with closed := true }

def hasEnded (fan : FanOut) : Bool :=
  fan.subscribers.all fun subscriber => subscriber.state = .ended || subscriber.state = .gone

end FanOut

end PlanSupervision
