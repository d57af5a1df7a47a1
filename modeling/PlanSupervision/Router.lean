/-!
The order in which listeners are given documents. Each subscription has an identifier of
its own, larger than all before it.
-/

namespace PlanSupervision

/-- Subscriptions in order: the identifier of each, and which listener it is of. -/
structure Router where
  entries : List (Nat × Nat)
  nextId : Nat
deriving DecidableEq, Inhabited

namespace Router

def empty : Router := ⟨[], 0⟩

/-- Subscribe a listener behind all others, under the next identifier. -/
def subscribe (router : Router) (listener : Nat) : Router :=
  ⟨router.entries ++ [(router.nextId, listener)], router.nextId + 1⟩

/-- Take out the subscription of an identifier, and tell whether there was one. -/
def unsubscribe (router : Router) (id : Nat) : Router × Bool :=
  let remaining := router.entries.filter (·.1 != id)
  ({ router with entries := remaining }, remaining.length != router.entries.length)

/-- The listeners of a dispatch that begins now. -/
def snapshot (router : Router) : List Nat := router.entries.map (·.2)

end Router

end PlanSupervision
