import PlanSupervision.Gate
import PlanSupervision.Journal
import PlanSupervision.Router

/-!
Listeners and the delivery of documents to them. A dispatch goes to the listeners that are
subscribed when it begins, in order, and ends at the first fault; a listener may subscribe
and unsubscribe others while it is given a document.
-/

namespace PlanSupervision

/-- What a handler answers to its first, second and later documents: a fault or nothing. -/
abbrev Verdict := Nat → Document → Option String

inductive SubscriptionChange (Member : Type) where
  | subscribe (listener : Member)
  | unsubscribe (number : Nat)

inductive Listener where
  /-- A handler behind a gate. A silent handler leaves no trace of what it is given. -/
  | gated (gate : Gate) (silent : Bool) (calls : Nat) (verdict : Verdict)
  | plain (name : String) (calls : Nat)
      (changes : Nat → Document → List (SubscriptionChange Listener)) (verdict : Verdict)

instance : Inhabited Listener := ⟨.plain "" 0 (fun _ _ => []) (fun _ _ => none)⟩

namespace Listener

def name : Listener → String
  | gated gate _ _ _ => gate.name
  | plain name _ _ _ => name

def gate? : Listener → Option Gate
  | gated gate _ _ _ => some gate
  | plain .. => none

/-- What follows from giving a document to a listener. -/
structure Reaction where
  listener : Listener
  handled : Bool
  entries : List Entry
  changes : List (SubscriptionChange Listener)
  outcome : Except DispatchFault Unit

def outcome (name : String) (document : Document) : Option String → Except DispatchFault Unit
  | none => .ok ()
  | some source => .error ⟨name, document.kind, source⟩

def faultLine (name : String) (document : Document) (source : String) : LogLine :=
  ⟨.error, "gated handler failed",
    [("document", document.kind.name), ("error", source), ("listener", name)]⟩

def receive (listener : Listener) (document : Document) : Reaction :=
  match listener with
  | gated gate silent calls verdict =>
      let (gate, passes) := gate.receive document
      if passes then
        let answer := verdict calls document
        let trace := if silent then [] else [Entry.delivered gate.name document]
        let line := answer.toList.map fun source => .logged (faultLine gate.name document source)
        ⟨gated gate silent (calls + 1) verdict, true, trace ++ line, [],
          outcome gate.name document answer⟩
      else ⟨gated gate silent calls verdict, false, [], [], .ok ()⟩
  | plain name calls changes verdict =>
      ⟨plain name (calls + 1) changes verdict, true, [.delivered name document],
        changes calls document, outcome name document (verdict calls document)⟩

end Listener

/-- An entry that tells what a listener did with a document. -/
def Entry.isReaction : Entry → Bool
  | .delivered _ _ | .logged _ => true
  | _ => false

/-- A listener leaves a trace of what it is given and notes its fault, and nothing else. -/
theorem Listener.mem_receive {listener : Listener} {document : Document} {entry : Entry}
    (member : entry ∈ (listener.receive document).entries) :
    (∃ name, entry = .delivered name document) ∨
      ∃ name source, entry = .logged (faultLine name document source) := by
  cases listener with
  | gated gate silent calls verdict =>
      cases passes : (gate.receive document).2 with
      | false => simp [receive, passes] at member
      | true =>
          simp only [receive, passes, if_true] at member
          rcases List.mem_append.mp member with trace | line
          · cases silent with
            | true => simp at trace
            | false => exact Or.inl ⟨_, List.mem_singleton.mp trace⟩
          · obtain ⟨source, _, rfl⟩ := List.mem_map.mp line
            exact Or.inr ⟨_, source, rfl⟩
  | plain name calls changes verdict => exact Or.inl ⟨name, List.mem_singleton.mp member⟩

theorem Listener.isReaction_of_mem_receive (listener : Listener) (document : Document) :
    ∀ entry ∈ (listener.receive document).entries, entry.isReaction = true := by
  intro entry member
  rcases mem_receive member with ⟨_, rfl⟩ | ⟨_, _, rfl⟩ <;> rfl

/-- All listeners ever made, and their subscriptions. The subscriptions made while the
observers were put together come before the numbered ones. -/
structure Observers where
  listeners : List Listener
  router : Router
  unnumbered : Nat
deriving Inhabited

namespace Observers

def empty : Observers := ⟨[], .empty, 0⟩

def subscribe (observers : Observers) (listener : Listener) : Observers :=
  { observers with
    listeners := observers.listeners ++ [listener]
    router := observers.router.subscribe observers.listeners.length }

def ofUnnumbered (listeners : List Listener) : Observers :=
  { listeners.foldl subscribe empty with unnumbered := listeners.length }

def nextNumber (observers : Observers) : Nat := observers.router.nextId - observers.unnumbered

def unsubscribe (observers : Observers) (number : Nat) : Observers :=
  { observers with router := (observers.router.unsubscribe (observers.unnumbered + number)).1 }

/-- Whether unsubscribing would find the subscription. -/
def isSubscribed (observers : Observers) (number : Nat) : Bool :=
  (observers.router.unsubscribe (observers.unnumbered + number)).2

def change (observers : Observers) : SubscriptionChange Listener → Observers
  | .subscribe listener => observers.subscribe listener
  | .unsubscribe number => observers.unsubscribe number

def gates (observers : Observers) : List Gate := observers.listeners.filterMap Listener.gate?

/-- What follows from a dispatch. -/
structure Dispatch where
  observers : Observers
  entries : List Entry
  outcome : Except DispatchFault Unit

/-- Give a document to listeners in order, up to the first fault. -/
def deliver (observers : Observers) (document : Document) : List Nat → Dispatch
  | [] => ⟨observers, [], .ok ()⟩
  | index :: rest =>
      match observers.listeners[index]? with
      | none => observers.deliver document rest
      | some listener =>
          let reaction := listener.receive document
          let kept := { observers with listeners := observers.listeners.set index reaction.listener }
          let changed := reaction.changes.foldl change kept
          match reaction.outcome with
          | .error fault => ⟨changed, reaction.entries, .error fault⟩
          | .ok () =>
              let later := changed.deliver document rest
              { later with entries := reaction.entries ++ later.entries }

/-- What holds of every entry that a listener leaves holds of those of a delivery. -/
theorem forall_mem_deliver {property : Entry → Prop} {document : Document}
    (received : ∀ (listener : Listener), ∀ entry ∈ (listener.receive document).entries,
      property entry)
    (observers : Observers) (order : List Nat) :
    ∀ entry ∈ (observers.deliver document order).entries, property entry := by
  induction order generalizing observers with
  | nil => simp [deliver]
  | cons index rest inductionHypothesis =>
      intro entry member
      unfold deliver at member
      split at member
      · exact inductionHypothesis observers entry member
      · rename_i listener _
        dsimp only at member
        split at member
        · exact received listener entry member
        · rcases List.mem_append.mp member with first | later
          · exact received listener entry first
          · exact inductionHypothesis _ entry later

theorem isReaction_of_mem_deliver (observers : Observers) (document : Document)
    (order : List Nat) :
    ∀ entry ∈ (observers.deliver document order).entries, entry.isReaction = true :=
  observers.forall_mem_deliver (fun listener => listener.isReaction_of_mem_receive document) order

/-- Dispatch a document to all listeners that are subscribed now. -/
def dispatch (observers : Observers) (document : Document) : Dispatch :=
  observers.deliver document observers.router.snapshot

end Observers

end PlanSupervision
