/-!
A lock with one holder. Whoever asks while it is held waits, and is handed the lock in the
order of asking.
-/

namespace PlanSupervision

structure Lock (Owner : Type) where
  holder : Option Owner
  queue : List Owner
deriving DecidableEq, Inhabited

namespace Lock

variable {Owner : Type} [DecidableEq Owner]

def free : Lock Owner := ⟨none, []⟩

def ask (lock : Lock Owner) (owner : Owner) : Lock Owner :=
  match lock.holder with
  | none => { lock with holder := some owner }
  | some _ => { lock with queue := lock.queue ++ [owner] }

/-- The holder gives the lock to the one that waits longest. -/
def release (lock : Lock Owner) : Lock Owner :=
  match lock.queue with
  | [] => free
  | next :: rest => ⟨some next, rest⟩

def leave (lock : Lock Owner) (owner : Owner) : Lock Owner :=
  { lock with queue := lock.queue.filter (· != owner) }

end Lock

end PlanSupervision
