import PlanSupervision.Proofs.Gate.Latch

/-!
The delivery of documents while subscriptions come and go. A listener may subscribe and unsubscribe
others as it is given a document, but a dispatch keeps to those that were subscribed when it began:
each of them is called once, as it then was, up to the first that answers with a fault.
-/

namespace PlanSupervision

namespace Router

/-- The identifiers of the subscriptions, in the order of delivery. -/
def ids (router : Router) : List Nat := router.entries.map Prod.fst

/-- Identifiers are in order, and those that are still to be given are larger. -/
structure Sound (router : Router) : Prop where
  increasing : router.ids.Pairwise (· < ·)
  given : ∀ id ∈ router.ids, id < router.nextId

/-- The answer is read off the number of subscriptions that remain, and it is right. -/
theorem unsubscribe_answer_iff (router : Router) (id : Nat) :
    (router.unsubscribe id).2 = true ↔ id ∈ router.ids := by
  have same : (router.entries.filter (·.1 != id)).length = router.entries.length ↔
      id ∉ router.ids := by
    simp only [List.length_filter_eq_length_iff, bne_iff_ne, ids, List.mem_map, not_exists, not_and]
  rw [unsubscribe, bne_iff_ne, ne_eq, same, Classical.not_not]

theorem unsubscribe_eq_self {router : Router} {id : Nat} (unknown : id ∉ router.ids) :
    (router.unsubscribe id).1 = router := by
  have kept : router.entries.filter (·.1 != id) = router.entries := by
    apply List.filter_eq_self.mpr
    intro entry member
    apply bne_iff_ne.mpr
    rintro rfl
    exact unknown (List.mem_map_of_mem member)
  simp only [unsubscribe, kept]

namespace Sound

variable {router : Router}

theorem subscribe (sound : router.Sound) (listener : Nat) : (router.subscribe listener).Sound := by
  have longer : (router.subscribe listener).ids = router.ids ++ [router.nextId] := by
    simp [Router.subscribe, ids]
  constructor
  · rw [longer, List.pairwise_append]
    refine ⟨sound.increasing, List.pairwise_singleton _ _, ?_⟩
    intro id member next isNext
    rw [List.mem_singleton.mp isNext]
    exact sound.given id member
  · intro id member
    rw [longer] at member
    rcases List.mem_append.mp member with old | new
    · exact Nat.lt_succ_of_lt (sound.given id old)
    · rw [List.mem_singleton.mp new]
      exact Nat.lt_succ_self _

theorem unsubscribe (sound : router.Sound) (id : Nat) : (router.unsubscribe id).1.Sound := by
  have fewer : (router.unsubscribe id).1.ids.Sublist router.ids := List.filter_sublist.map _
  constructor
  · exact sound.increasing.sublist fewer
  · intro other member
    exact sound.given other (fewer.subset member)

/-- Unsubscribing takes out the one entry of the identifier, with the others left in order. -/
theorem exists_unsubscribe (sound : router.Sound) {id : Nat} (known : id ∈ router.ids) :
    ∃ earlier listener later, router.entries = earlier ++ (id, listener) :: later ∧
      (router.unsubscribe id).1.entries = earlier ++ later := by
  obtain ⟨⟨id, listener⟩, member, rfl⟩ := List.mem_map.mp known
  obtain ⟨earlier, later, split⟩ := List.append_of_mem member
  have increasing := sound.increasing
  simp only [ids, split, List.map_append, List.map_cons, List.pairwise_append,
    List.pairwise_cons] at increasing
  obtain ⟨_, ⟨behind, _⟩, ahead⟩ := increasing
  have keeps : ∀ entries : List (Nat × Nat), (∀ entry ∈ entries, entry.1 ≠ id) →
      entries.filter (·.1 != id) = entries := by
    intro entries others
    apply List.filter_eq_self.mpr
    intro entry isThere
    exact bne_iff_ne.mpr (others entry isThere)
  refine ⟨earlier, listener, later, split, ?_⟩
  simp only [Router.unsubscribe, split, List.filter_append]
  rw [keeps earlier, List.filter_cons_of_neg (by simp), keeps later]
  · intro entry isThere
    exact Nat.ne_of_gt (behind _ (List.mem_map_of_mem isThere))
  · intro entry isThere
    exact Nat.ne_of_lt (ahead _ (List.mem_map_of_mem isThere) _ List.mem_cons_self)

end Sound

end Router

/-- The listener that a change subscribes, if it does. -/
def SubscriptionChange.added? {Member : Type} : SubscriptionChange Member → Option Member
  | subscribe listener => some listener
  | unsubscribe _ => none

namespace Observers

/-- The identifiers that are given out in the course of changes. -/
def givenIds (observers : Observers) : List (SubscriptionChange Listener) → List Nat
  | [] => []
  | .subscribe listener :: later =>
      observers.router.nextId :: (observers.subscribe listener).givenIds later
  | .unsubscribe number :: later => (observers.unsubscribe number).givenIds later

theorem sound_change {observers : Observers} (sound : observers.router.Sound)
    (change : SubscriptionChange Listener) : (observers.change change).router.Sound := by
  cases change with
  | subscribe listener => exact sound.subscribe _
  | unsubscribe number => exact sound.unsubscribe _

theorem sound_changes {observers : Observers} (sound : observers.router.Sound)
    (changes : List (SubscriptionChange Listener)) :
    (changes.foldl change observers).router.Sound := by
  induction changes generalizing observers with
  | nil => exact sound
  | cons first rest inductionHypothesis => exact inductionHypothesis (sound_change sound first)

/-- The listeners that are subscribed anew are put behind the others, as they are. -/
theorem listeners_changes (observers : Observers) (changes : List (SubscriptionChange Listener)) :
    (changes.foldl change observers).listeners =
      observers.listeners ++ changes.filterMap SubscriptionChange.added? := by
  induction changes generalizing observers with
  | nil => simp
  | cons first rest inductionHypothesis =>
      rw [List.foldl_cons, inductionHypothesis]
      cases first with
      | subscribe listener =>
          simp only [change, subscribe, List.append_assoc, List.filterMap_cons]
          rfl
      | unsubscribe number => rfl

/-- Identifiers are given out one after the other. -/
theorem givenIds_eq (observers : Observers) (changes : List (SubscriptionChange Listener)) :
    observers.givenIds changes =
      List.range' observers.router.nextId (observers.givenIds changes).length := by
  induction changes generalizing observers with
  | nil => rfl
  | cons first rest inductionHypothesis =>
      cases first with
      | subscribe listener => exact congrArg _ (inductionHypothesis (observers.subscribe listener))
      | unsubscribe number => exact inductionHypothesis (observers.unsubscribe number)

/-- Observers with the same subscriptions, in whatever state their listeners are. -/
structure Alike (left right : Observers) : Prop where
  router : left.router = right.router
  unnumbered : left.unnumbered = right.unnumbered
  count : left.listeners.length = right.listeners.length

theorem Alike.trans {first second third : Observers} (earlier : Alike first second)
    (later : Alike second third) : Alike first third :=
  ⟨earlier.router.trans later.router, earlier.unnumbered.trans later.unnumbered,
    earlier.count.trans later.count⟩

theorem Alike.change {left right : Observers} (alike : Alike left right)
    (change : SubscriptionChange Listener) : Alike (left.change change) (right.change change) := by
  obtain ⟨router, unnumbered, count⟩ := alike
  cases change with
  | subscribe listener =>
      constructor
      · simp only [Observers.change, subscribe, router, count]
      · exact unnumbered
      · simp only [Observers.change, subscribe, List.length_append, count]
  | unsubscribe number =>
      constructor
      · simp only [Observers.change, unsubscribe, router, unnumbered]
      · exact unnumbered
      · exact count

theorem Alike.changes {left right : Observers} (alike : Alike left right)
    (changes : List (SubscriptionChange Listener)) :
    Alike (changes.foldl Observers.change left) (changes.foldl Observers.change right) := by
  induction changes generalizing left right with
  | nil => exact alike
  | cons first rest inductionHypothesis => exact inductionHypothesis (alike.change first)

/-- What listeners make of a document one after the other, up to the first that answers with a
fault. All of them are as they are now. -/
def reactions (observers : Observers) (document : Document) : List Nat → List Listener.Reaction
  | [] => []
  | index :: rest =>
      match observers.listeners[index]? with
      | none => observers.reactions document rest
      | some listener =>
          let reaction := listener.receive document
          match reaction.outcome with
          | .error _ => [reaction]
          | .ok () => reaction :: observers.reactions document rest

/-- The listeners once those of `called` have been given a document. -/
def told (document : Document) (called : List Nat) (listeners : List Listener) : List Listener :=
  listeners.mapIdx fun index listener =>
    if index ∈ called then (listener.receive document).listener else listener

/-- A delivery to some of those that it is meant for. The listeners of `called` are given the
document and make these reactions; those of `spared` come after a fault. -/
structure Delivers (before : Observers) (document : Document) (called spared : List Nat)
    (reactions : List Listener.Reaction) (after : Dispatch) : Prop where
  /-- Each is called once, as it was when the delivery began. -/
  once : called.map (fun index => before.listeners[index]?.map (·.receive document)) =
    reactions.map some
  goesOn : ∀ reaction ∈ reactions.dropLast, reaction.outcome = .ok ()
  stops : spared ≠ [] → ∃ last ∈ reactions.getLast?, ∃ fault, last.outcome = .error fault
  outcome : after.outcome = (reactions.getLast?.map Listener.Reaction.outcome).getD (.ok ())
  entries : after.entries = reactions.flatMap Listener.Reaction.entries
  /-- Nobody else is called; a listener that is subscribed meanwhile stays as it was made. -/
  heard : after.observers.listeners = told document called before.listeners ++
    (reactions.flatMap Listener.Reaction.changes).filterMap SubscriptionChange.added?
  changed : Alike after.observers
    ((reactions.flatMap Listener.Reaction.changes).foldl change before)

section Delivery

variable {observers : Observers} {document : Document} {head : Nat} {rest : List Nat}
  {ahead : Listener}

theorem alike_afterFirst (observers : Observers) (document : Document) (head : Nat)
    (ahead : Listener) :
    Alike (observers.afterFirst document head ahead)
      ((ahead.receive document).changes.foldl change observers) := by
  apply Alike.changes
  exact ⟨rfl, rfl, List.length_set⟩

theorem listeners_afterFirst (observers : Observers) (document : Document) (head : Nat)
    (ahead : Listener) :
    (observers.afterFirst document head ahead).listeners =
      observers.listeners.set head (ahead.receive document).listener ++
        (ahead.receive document).changes.filterMap SubscriptionChange.added? :=
  listeners_changes _ _

theorem told_nil (document : Document) (listeners : List Listener) :
    told document [] listeners = listeners := by
  simp [told, List.mapIdx_eq_iff]

/-- Listeners behind all that are called stay as they are. -/
theorem told_append {called : List Nat} {listeners : List Listener}
    (inside : ∀ index ∈ called, index < listeners.length) (added : List Listener) :
    told document called (listeners ++ added) = told document called listeners ++ added := by
  have beyond : ∀ index, index + listeners.length ∉ called := by
    intro index member
    exact absurd (inside _ member) (Nat.not_lt.mpr (Nat.le_add_left _ _))
  simp [told, List.mapIdx_append, beyond, List.mapIdx_eq_iff]

theorem told_cons {called : List Nat} {listeners : List Listener}
    (known : listeners[head]? = some ahead) (once : head ∉ called) :
    told document (head :: called) listeners =
      told document called (listeners.set head (ahead.receive document).listener) := by
  apply List.ext_getElem?
  intro index
  simp only [told, List.getElem?_mapIdx]
  by_cases here : index = head
  · subst here
    have inside := (List.getElem?_eq_some_iff.mp known).1
    simp [known, List.getElem?_set_self inside, once]
  · simp [List.getElem?_set_ne (Ne.symm here), here]

theorem reactions_congr {left right : Observers}
    (same : ∀ index ∈ rest, left.listeners[index]? = right.listeners[index]?) :
    left.reactions document rest = right.reactions document rest := by
  induction rest with
  | nil => rfl
  | cons index rest inductionHypothesis =>
      have later := inductionHypothesis fun other member =>
        same other (List.mem_cons_of_mem _ member)
      simp only [reactions, same index List.mem_cons_self, later]

theorem delivers_nil (observers : Observers) (document : Document) :
    Delivers observers document [] [] [] (observers.deliver document []) := by
  constructor
  · rfl
  · simp
  · exact fun some => absurd rfl some
  · rfl
  · rfl
  · simp [told_nil, deliver]
  · exact ⟨rfl, rfl, rfl⟩

/-- The first listener answers with a fault, and the others are spared. -/
theorem delivers_of_error (known : observers.listeners[head]? = some ahead)
    {fault : DispatchFault} (faults : (ahead.receive document).outcome = .error fault) :
    Delivers observers document [head] rest [ahead.receive document]
      (observers.deliver document (head :: rest)) := by
  have unfolded : observers.deliver document (head :: rest) =
      ⟨observers.afterFirst document head ahead, (ahead.receive document).entries,
        .error fault⟩ := by
    simp only [deliver, known, faults, afterFirst]
  rw [unfolded]
  constructor
  · simp [known]
  · simp
  · exact fun _ => ⟨_, rfl, fault, faults⟩
  · exact faults.symm
  · exact (List.flatMap_singleton _ _).symm
  · rw [told_cons known List.not_mem_nil, told_nil]
    simpa using listeners_afterFirst observers document head ahead
  · simpa using alike_afterFirst observers document head ahead

/-- The first listener takes the document, and the others are given it in turn. None of them is
the first one again, so each is still as it was. -/
theorem delivers_of_ok {called spared : List Nat} {reactions : List Listener.Reaction}
    (known : observers.listeners[head]? = some ahead)
    (takes : (ahead.receive document).outcome = .ok ())
    (untouched : ∀ index ∈ called, head ≠ index ∧ index < observers.listeners.length)
    (later : Delivers (observers.afterFirst document head ahead) document called spared reactions
      ((observers.afterFirst document head ahead).deliver document rest)) :
    Delivers observers document (head :: called) spared (ahead.receive document :: reactions)
      (observers.deliver document (head :: rest)) := by
  have unfolded : observers.deliver document (head :: rest) =
      { (observers.afterFirst document head ahead).deliver document rest with
        entries := (ahead.receive document).entries ++
          ((observers.afterFirst document head ahead).deliver document rest).entries } := by
    simp only [deliver, known, takes, afterFirst]
  rw [unfolded]
  constructor
  · simp only [List.map_cons, known, Option.map_some, ← later.once]
    congr 1
    apply List.map_congr_left
    intro index member
    obtain ⟨different, inside⟩ := untouched index member
    have inPlace := List.getElem?_eq_getElem inside
    rw [getElem?_afterFirst_of_ne document ahead (Ne.symm different) inPlace, inPlace]
  · intro reaction member
    cases reactions with
    | nil => simp at member
    | cons first others =>
        rw [List.dropLast_cons_of_ne_nil (List.cons_ne_nil _ _)] at member
        rcases List.mem_cons.mp member with rfl | isLater
        · exact takes
        · exact later.goesOn reaction isLater
  · intro some
    obtain ⟨last, isLast, fault, faults⟩ := later.stops some
    have nonempty : reactions ≠ [] := by
      rintro rfl
      simp at isLast
    refine ⟨last, ?_, fault, faults⟩
    rwa [List.getLast?_cons_of_ne_nil nonempty]
  · refine later.outcome.trans ?_
    cases reactions with
    | nil => exact takes.symm
    | cons first others =>
        rw [List.getLast?_cons_of_ne_nil (List.cons_ne_nil _ _)]
  · simp only [List.flatMap_cons, later.entries]
  · have inside : ∀ index ∈ called,
        index < (observers.listeners.set head (ahead.receive document).listener).length := by
      intro index member
      rw [List.length_set]
      exact (untouched index member).2
    have once : head ∉ called := fun member => (untouched head member).1 rfl
    simp only [later.heard, listeners_afterFirst, told_append inside, told_cons known once,
      List.flatMap_cons, List.filterMap_append, List.append_assoc]
  · apply later.changed.trans
    rw [List.flatMap_cons, List.foldl_append]
    exact (alike_afterFirst observers document head ahead).changes _

theorem exists_delivers {order : List Nat} (increasing : order.Pairwise (· < ·))
    (known : ∀ index ∈ order, index < observers.listeners.length) (document : Document) :
    ∃ called spared, order = called ++ spared ∧
      Delivers observers document called spared (observers.reactions document order)
        (observers.deliver document order) := by
  induction order generalizing observers with
  | nil => exact ⟨[], [], rfl, delivers_nil observers document⟩
  | cons head rest inductionHypothesis =>
      obtain ⟨behind, later⟩ := List.pairwise_cons.mp increasing
      have inside := known head List.mem_cons_self
      have found := List.getElem?_eq_getElem inside
      cases answer : (observers.listeners[head].receive document).outcome with
      | error fault =>
          refine ⟨[head], rest, rfl, ?_⟩
          simp only [reactions, found, answer]
          exact delivers_of_error found answer
      | ok value =>
          have same : (observers.afterFirst document head observers.listeners[head]).reactions
              document rest = observers.reactions document rest := by
            apply reactions_congr
            intro index member
            have inPlace := List.getElem?_eq_getElem (known index (List.mem_cons_of_mem _ member))
            rw [inPlace]
            exact getElem?_afterFirst_of_ne document _ (Nat.ne_of_gt (behind index member)) inPlace
          have count : observers.listeners.length ≤
              (observers.afterFirst document head observers.listeners[head]).listeners.length := by
            rw [listeners_afterFirst, List.length_append, List.length_set]
            exact Nat.le_add_right _ _
          obtain ⟨called, spared, split, delivers⟩ := inductionHypothesis later fun index member =>
            Nat.lt_of_lt_of_le (known index (List.mem_cons_of_mem _ member)) count
          refine ⟨head :: called, spared, congrArg _ split, ?_⟩
          simp only [reactions, found, answer]
          rw [same] at delivers
          refine delivers_of_ok found answer ?_ delivers
          intro index member
          have isBehind : index ∈ rest := split ▸ List.mem_append_left spared member
          exact ⟨Nat.ne_of_lt (behind index isBehind),
            known index (List.mem_cons_of_mem _ isBehind)⟩

end Delivery

/-- What can be done with observers from outside. -/
inductive Operation where
  | change (change : SubscriptionChange Listener)
  | dispatch (document : Document)

def operate (observers : Observers) : Operation → Observers
  | .change change => observers.change change
  | .dispatch document => (observers.dispatch document).observers

def perform (observers : Observers) (operations : List Operation) : Observers :=
  operations.foldl operate observers

/-- The changes of subscriptions in an operation, those that listeners make included. -/
def changesIn (observers : Observers) : Operation → List (SubscriptionChange Listener)
  | .change change => [change]
  | .dispatch document =>
      (observers.reactions document observers.router.snapshot).flatMap Listener.Reaction.changes

/-- All changes of subscriptions in a course of operations, one after the other. -/
def changesAlong (observers : Observers) : List Operation → List (SubscriptionChange Listener)
  | [] => []
  | operation :: later =>
      observers.changesIn operation ++ (observers.operate operation).changesAlong later

theorem evolves_operate (observers : Observers) (operation : Operation) :
    Evolves observers (observers.operate operation) := by
  cases operation with
  | change change => exact .change observers change
  | dispatch document => exact .deliver observers document _

theorem evolves_perform (observers : Observers) (operations : List Operation) :
    Evolves observers (observers.perform operations) := by
  induction operations generalizing observers with
  | nil => exact .refl observers
  | cons operation later inductionHypothesis =>
      exact (evolves_operate observers operation).trans (inductionHypothesis _)

theorem dispatch_delivers {observers : Observers} (inOrder : observers.InOrder)
    (document : Document) :
    ∃ called spared : List (Nat × Nat), observers.router.entries = called ++ spared ∧
      Delivers observers document (called.map Prod.snd) (spared.map Prod.snd)
        (observers.reactions document observers.router.snapshot)
        (observers.dispatch document) := by
  obtain ⟨called, spared, split, delivers⟩ :=
    exists_delivers inOrder.increasing inOrder.known document
  obtain ⟨calledEntries, sparedEntries, entries, rfl, rfl⟩ := List.map_eq_append_iff.mp split
  exact ⟨calledEntries, sparedEntries, entries, delivers⟩

theorem alike_operate {observers : Observers} (inOrder : observers.InOrder)
    (operation : Operation) :
    Alike (observers.operate operation)
      ((observers.changesIn operation).foldl change observers) := by
  cases operation with
  | change change => exact ⟨rfl, rfl, rfl⟩
  | dispatch document =>
      obtain ⟨_, _, _, delivers⟩ := dispatch_delivers inOrder document
      exact delivers.changed

/-- Nothing but the changes, one after the other, makes the subscriptions what they are. -/
theorem alike_perform {observers : Observers} (inOrder : observers.InOrder)
    (operations : List Operation) :
    Alike (observers.perform operations)
      ((observers.changesAlong operations).foldl change observers) := by
  induction operations generalizing observers with
  | nil => exact ⟨rfl, rfl, rfl⟩
  | cons operation later inductionHypothesis =>
      have stillInOrder := (evolves_operate observers operation).inOrder inOrder
      apply (inductionHypothesis stillInOrder).trans
      rw [changesAlong, List.foldl_append]
      exact (alike_operate inOrder operation).changes _

theorem router_foldl_subscribe (observers : Observers) (listeners : List Listener) :
    (listeners.foldl subscribe observers).router.ids =
        observers.router.ids ++ List.range' observers.router.nextId listeners.length ∧
      (listeners.foldl subscribe observers).router.nextId =
        observers.router.nextId + listeners.length := by
  induction listeners generalizing observers with
  | nil => simp
  | cons listener rest inductionHypothesis =>
      obtain ⟨ids, nextId⟩ := inductionHypothesis (observers.subscribe listener)
      have longer : (observers.subscribe listener).router.ids =
          observers.router.ids ++ [observers.router.nextId] := by
        simp [subscribe, Router.subscribe, Router.ids]
      have moved : (observers.subscribe listener).router.nextId = observers.router.nextId + 1 := rfl
      rw [longer, moved, List.append_assoc] at ids
      rw [moved] at nextId
      refine ⟨ids, nextId.trans ?_⟩
      rw [List.length_cons]
      omega

theorem router_ofUnnumbered (listeners : List Listener) :
    (ofUnnumbered listeners).router.ids = List.range listeners.length ∧
      (ofUnnumbered listeners).router.nextId = listeners.length := by
  obtain ⟨ids, nextId⟩ := router_foldl_subscribe empty listeners
  rw [List.range_eq_range']
  exact ⟨ids, nextId.trans (Nat.zero_add _)⟩

theorem sound_ofUnnumbered (listeners : List Listener) :
    (ofUnnumbered listeners).router.Sound := by
  obtain ⟨ids, nextId⟩ := router_ofUnnumbered listeners
  constructor
  · rw [ids]
    exact List.pairwise_lt_range
  · intro id member
    rw [ids] at member
    rw [nextId]
    exact List.mem_range.mp member

/-- The identifiers of the first subscriptions and those that are given out later, in order. -/
theorem given_eq_range (listeners : List Listener)
    (changes : List (SubscriptionChange Listener)) :
    let start := ofUnnumbered listeners
    start.router.ids ++ start.givenIds changes =
      List.range (start.router.ids ++ start.givenIds changes).length := by
  intro start
  obtain ⟨ids, nextId⟩ := router_ofUnnumbered listeners
  have joined : ∀ count, List.range listeners.length ++ List.range' listeners.length count =
      List.range (listeners.length + count) := by
    intro count
    rw [List.range_eq_range', List.range_eq_range', ← List.range'_append_1, Nat.zero_add]
  rw [givenIds_eq, ids, nextId, joined, List.length_range]

theorem changesAlong_append (observers : Observers) (earlier later : List Operation) :
    observers.changesAlong (earlier ++ later) =
      observers.changesAlong earlier ++ (observers.perform earlier).changesAlong later := by
  induction earlier generalizing observers with
  | nil => rfl
  | cons operation rest inductionHypothesis =>
      simp only [List.cons_append, changesAlong, inductionHypothesis, List.append_assoc]
      rfl

/-- A router under any course of operations, with listeners that subscribe and unsubscribe each
other as they are given documents. The identifiers are given out one after the other, each once.
At every moment the subscriptions are in the order of their identifiers, and unsubscribing succeeds
exactly for those that are subscribed at that moment and takes out that one entry. A dispatch calls
the listeners that are subscribed when it begins, each once and in order, up to the first fault,
and answers with that fault. -/
theorem dispatches_to_the_subscribed (listeners : List Listener) (operations : List Operation) :
    let start := ofUnnumbered listeners
    let changes := start.changesAlong operations
    let given := start.router.ids ++ start.givenIds changes
    given = List.range given.length ∧
      (given.length ≤ UInt64.size → (given.map UInt64.ofNat).Pairwise (· < ·)) ∧
      (∀ made, made <+: changes →
        let router := (made.foldl change start).router
        router.ids.Pairwise (· < ·) ∧
          ∀ id, ((router.unsubscribe id).2 = true ↔ id ∈ router.ids) ∧
            (id ∉ router.ids → (router.unsubscribe id).1 = router) ∧
            (id ∈ router.ids → ∃ earlier listener later,
              router.entries = earlier ++ (id, listener) :: later ∧
              (router.unsubscribe id).1.entries = earlier ++ later)) ∧
      ∀ earlier document later, operations = earlier ++ .dispatch document :: later →
        let before := start.perform earlier
        let made := start.changesAlong earlier
        made <+: changes ∧ before.router = (made.foldl change start).router ∧
          ∃ (called spared : List (Nat × Nat)) (reactions : List Listener.Reaction),
            before.router.entries = called ++ spared ∧
              Delivers before document (called.map Prod.snd) (spared.map Prod.snd) reactions
                (before.dispatch document) := by
  intro start changes given
  have counted : given = List.range given.length := given_eq_range listeners changes
  have inOrder : start.InOrder := inOrder_ofUnnumbered listeners
  refine ⟨counted, ?_, ?_, ?_⟩
  · intro fits
    rw [counted, List.pairwise_map]
    apply List.pairwise_lt_range.imp_of_mem
    intro lower upper lowerMember upperMember less
    have lowerFits := Nat.lt_of_lt_of_le (List.mem_range.mp lowerMember) fits
    have upperFits := Nat.lt_of_lt_of_le (List.mem_range.mp upperMember) fits
    apply UInt64.lt_iff_toNat_lt.mpr
    rwa [UInt64.toNat_ofNat_of_lt' lowerFits, UInt64.toNat_ofNat_of_lt' upperFits]
  · intro made _ router
    have sound : router.Sound := sound_changes (sound_ofUnnumbered listeners) made
    refine ⟨sound.increasing, fun id => ⟨router.unsubscribe_answer_iff id, ?_, ?_⟩⟩
    · exact Router.unsubscribe_eq_self
    · exact sound.exists_unsubscribe
  · intro earlier document later split before made
    refine ⟨?_, (alike_perform inOrder earlier).router, ?_⟩
    · simp only [changes, split, changesAlong_append]
      exact List.prefix_append _ _
    · obtain ⟨called, spared, entries, delivers⟩ :=
        dispatch_delivers ((evolves_perform start earlier).inOrder inOrder) document
      exact ⟨called, spared, _, entries, delivers⟩

end Observers

end PlanSupervision
