/-!
A channel that every receiver reads in full, as long as it keeps up: only the newest
messages can still be received, and a receiver that fell behind is told how many it missed.
-/

namespace PlanSupervision

/-- A broadcast channel. It holds every message ever sent, of which the newest `capacity` can
still be received. -/
structure Broadcast (Message : Type) where
  capacity : Nat
  sent : List Message
  closed : Bool
deriving Inhabited

inductive Reception (Message : Type) where
  | message (content : Message)
  | lagged (missed : Nat)
  | empty
  | closed
deriving DecidableEq, Inhabited

namespace Reception

variable {Message : Type}

def message? : Reception Message → Option Message
  | message content => some content
  | _ => none

def missed? : Reception Message → Option Nat
  | lagged missed => some missed
  | _ => none

/-- The messages among the receptions. -/
def messages (receptions : List (Reception Message)) : List Message :=
  receptions.filterMap message?

/-- How many messages were missed each time. -/
def missed (receptions : List (Reception Message)) : List Nat := receptions.filterMap missed?

theorem messages_append (earlier later : List (Reception Message)) :
    messages (earlier ++ later) = messages earlier ++ messages later :=
  List.filterMap_append

theorem missed_append (earlier later : List (Reception Message)) :
    missed (earlier ++ later) = missed earlier ++ missed later :=
  List.filterMap_append

end Reception

namespace Broadcast

variable {Message : Type}

def powerAbove (slots : Nat) : Nat :=
  if slots ≤ 1 then 1 else Nat.pow 2 (Nat.log2 (slots - 1) + 1)

def ofCapacity (slots : Nat) : Broadcast Message := ⟨powerAbove slots, [], false⟩

def send (channel : Broadcast Message) (message : Message) : Broadcast Message :=
  { channel with sent := channel.sent ++ [message] }

def close (channel : Broadcast Message) : Broadcast Message := { channel with closed := true }

def position (channel : Broadcast Message) : Nat := channel.sent.length

/-- The position of the oldest message that can still be received. -/
def oldest (channel : Broadcast Message) : Nat := channel.sent.length - channel.capacity

/-- What a receiver that has passed `position` messages is given next, and its position then. -/
def receive (channel : Broadcast Message) (position : Nat) : Reception Message × Nat :=
  if position < channel.oldest then (.lagged (channel.oldest - position), channel.oldest)
  else match channel.sent[position]? with
    | some message => (.message message, position + 1)
    | none => (if channel.closed then .closed else .empty, position)

/-- Receive until nothing is left; the end of a closed channel is received too. -/
def drain (channel : Broadcast Message) (position : Nat) : List (Reception Message) × Nat :=
  let lag := if position < channel.oldest then [.lagged (channel.oldest - position)] else []
  let messages := (channel.sent.drop (max position channel.oldest)).map .message
  (lag ++ messages ++ (if channel.closed then [.closed] else []),
    max position channel.sent.length)

end Broadcast

end PlanSupervision
