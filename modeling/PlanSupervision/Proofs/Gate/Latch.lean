import PlanSupervision.Proofs.Plan.Passage

/-!
What holds a gate open. A gate may miss documents, since a fault of a listener ahead ends their
delivery, but as long as it misses no stop it is open only for a run that is still open.
-/

namespace PlanSupervision

namespace Document

theorem mem_started_concat {documents : List Document} {document : Document} {runUid : String} :
    runUid ∈ started (documents ++ [document]) ↔
      runUid ∈ started documents ∨ ∃ run, document = .start run ∧ run.runUid = runUid := by
  have split : started (documents ++ [document]) = started documents ++ started [document] :=
    List.filterMap_append
  rw [split, List.mem_append]
  cases document <;> simp [started, eq_comm]

theorem mem_track_start (run : RunStart) (openRuns : List String) :
    run.runUid ∈ (start run).track openRuns :=
  List.mem_append_right openRuns (List.mem_singleton.mpr rfl)

theorem mem_track {openRuns : List String} {document : Document} {runUid : String}
    (isOpen : runUid ∈ openRuns)
    (other : ∀ closing, document = .stop closing → closing.runStart ≠ runUid) :
    runUid ∈ document.track openRuns := by
  cases document with
  | start run => exact List.mem_append_left _ isOpen
  | stop closing =>
      have different : runUid ≠ closing.runStart := Ne.symm (other closing rfl)
      rw [track, List.mem_reverse, List.mem_erase_of_ne different, List.mem_reverse]
      exact isOpen
  | descriptor | event => exact isOpen

end Document

namespace Gate

/-- A gate is active if and only if it remembers the run that activated it. -/
def Sound (gate : Gate) : Prop := gate.active = gate.activation.isSome

/-- The gate after it was given these documents, some of which it may have missed. It misses no
stop. -/
inductive Follows (gate : Gate) : List Document → Gate → Prop where
  | start : Follows gate [] gate
  | hears {documents : List Document} {later : Gate} (follows : Follows gate documents later)
      (document : Document) : Follows gate (documents ++ [document]) (later.receive document).1
  | misses {documents : List Document} {later : Gate} (follows : Follows gate documents later)
      {document : Document} (noStop : ∀ closing, document ≠ .stop closing) :
      Follows gate (documents ++ [document]) later

/-- What a document makes of the run that holds a gate open. -/
theorem activation_receive {gate : Gate} {document : Document} {runUid : String}
    (holds : (gate.receive document).1.activation = some runUid) :
    (gate.activation = some runUid ∧ ∀ closing, document = .stop closing →
      closing.runStart ≠ runUid) ∨ ∃ run, document = .start run ∧ run.runUid = runUid := by
  cases document with
  | start run =>
      simp only [receive, onStart] at holds
      split at holds
      · exact Or.inr ⟨run, rfl, Option.some.inj holds⟩
      · exact Or.inl ⟨holds, nofun⟩
  | stop closing =>
      simp only [receive, onStop] at holds
      split at holds
      · cases holds
      · rename_i other
        refine Or.inl ⟨holds, ?_⟩
        rintro _ ⟨rfl⟩ same
        exact other (holds.trans (congrArg some same.symm))
  | descriptor | event => exact Or.inl ⟨holds, nofun⟩

theorem sound_receive {gate : Gate} (sound : gate.Sound) (document : Document) :
    (gate.receive document).1.Sound := by
  cases document with
  | start run =>
      simp only [receive, onStart]
      split
      · rfl
      · exact sound
  | stop closing =>
      simp only [receive, onStop]
      split
      · rfl
      · exact sound
  | descriptor | event => exact sound

namespace Follows

variable {gate later : Gate} {documents : List Document}

theorem sound (follows : Follows gate documents later) (sound : gate.Sound) : later.Sound := by
  induction follows with
  | start => exact sound
  | hears _ document inductionHypothesis => exact sound_receive inductionHypothesis document
  | misses _ noStop inductionHypothesis => exact inductionHypothesis

/-- A run that was started and holds the gate open is still open. -/
theorem still_open (follows : Follows gate documents later) (openRuns : List String)
    {runUid : String} (holds : later.activation = some runUid)
    (started : runUid ∈ Document.started documents) :
    runUid ∈ documents.foldl Document.track openRuns := by
  induction follows with
  | start => cases started
  | hears _ document inductionHypothesis =>
      rw [List.foldl_append]
      rcases activation_receive holds with ⟨held, other⟩ | ⟨run, rfl, rfl⟩
      · rcases Document.mem_started_concat.mp started with before | ⟨run, rfl, rfl⟩
        · exact Document.mem_track (inductionHypothesis held before) other
        · exact Document.mem_track_start run _
      · exact Document.mem_track_start run _
  | misses _ noStop inductionHypothesis =>
      rw [List.foldl_append]
      rcases Document.mem_started_concat.mp started with before | ⟨run, rfl, rfl⟩
      · exact Document.mem_track (inductionHypothesis holds before) fun closing isStop =>
          absurd isStop (noStop closing)
      · exact Document.mem_track_start run _

/-- A gate that was closed is held open only by a run that was started since. -/
theorem started (follows : Follows gate documents later) (closed : gate.activation = none)
    {runUid : String} (holds : later.activation = some runUid) :
    runUid ∈ Document.started documents := by
  induction follows with
  | start =>
      rw [closed] at holds
      cases holds
  | hears _ document inductionHypothesis =>
      apply Document.mem_started_concat.mpr
      rcases activation_receive holds with ⟨held, _⟩ | opens
      · exact Or.inl (inductionHypothesis held)
      · exact Or.inr opens
  | misses _ noStop inductionHypothesis =>
      exact Document.mem_started_concat.mpr (Or.inl (inductionHypothesis holds))

end Follows

end Gate

namespace Listener

def verdict : Listener → Verdict
  | gated _ _ _ verdict => verdict
  | plain _ _ _ verdict => verdict

/-- The listener answers no stop with a fault. -/
def SparesStops (listener : Listener) : Prop :=
  ∀ calls closing, listener.verdict calls (.stop closing) = none

theorem verdict_receive (listener : Listener) (document : Document) :
    (listener.receive document).listener.verdict = listener.verdict := by
  cases listener with
  | gated gate silent calls verdict =>
      simp only [receive]
      split <;> rfl
  | plain name calls changes verdict => rfl

theorem outcome_of_sparesStops {listener : Listener} (spares : listener.SparesStops)
    (closing : RunStop) : (listener.receive (.stop closing)).outcome = .ok () := by
  cases listener with
  | gated gate silent calls verdict =>
      simp only [receive]
      split
      · have noFault : verdict calls (.stop closing) = none := spares calls closing
        rw [noFault]
        rfl
      · rfl
  | plain name calls changes verdict =>
      have noFault : verdict calls (.stop closing) = none := spares calls closing
      simp only [receive, noFault]
      rfl

theorem receive_gated (gate : Gate) (silent : Bool) (calls : Nat) (verdict : Verdict)
    (document : Document) : ∃ later,
      ((gated gate silent calls verdict).receive document).listener =
        gated (gate.receive document).1 silent later verdict := by
  simp only [receive]
  split
  · exact ⟨calls + 1, rfl⟩
  · exact ⟨calls, rfl⟩

end Listener

namespace Observers

/-- The subscriptions are in the order of the listeners, and only of listeners that exist. -/
structure InOrder (observers : Observers) : Prop where
  increasing : observers.router.snapshot.Pairwise (· < ·)
  known : ∀ index ∈ observers.router.snapshot, index < observers.listeners.length

/-- Observers as they may become: no listener is forgotten or changes what it answers, and a
subscription that has ended does not come back. -/
structure Evolves (before after : Observers) : Prop where
  listeners : ∀ (index : Nat) (listener : Listener), before.listeners[index]? = some listener →
    ∃ later : Listener, after.listeners[index]? = some later ∧ later.verdict = listener.verdict
  subscribed : ∀ index < before.listeners.length, index ∈ after.router.snapshot →
    index ∈ before.router.snapshot
  inOrder : before.InOrder → after.InOrder

namespace Evolves

variable {before after last : Observers}

theorem refl (observers : Observers) : Evolves observers observers :=
  ⟨fun _ listener found => ⟨listener, found, rfl⟩, fun _ _ member => member, id⟩

theorem trans (first : Evolves before after) (second : Evolves after last) :
    Evolves before last := by
  refine ⟨fun index listener found => ?_, fun index known member => ?_, second.inOrder ∘ first.inOrder⟩
  · obtain ⟨later, foundLater, verdict⟩ := first.listeners index listener found
    obtain ⟨latest, foundLatest, verdictLater⟩ := second.listeners index later foundLater
    exact ⟨latest, foundLatest, verdictLater.trans verdict⟩
  · have still : index < after.listeners.length := by
      obtain ⟨later, found, _⟩ := first.listeners index _ (List.getElem?_eq_getElem known)
      exact (List.getElem?_eq_some_iff.mp found).1
    exact first.subscribed index known (second.subscribed index still member)

theorem subscribe (observers : Observers) (listener : Listener) :
    Evolves observers (observers.subscribe listener) := by
  have snapshot : (observers.subscribe listener).router.snapshot =
      observers.router.snapshot ++ [observers.listeners.length] := by
    simp [Observers.subscribe, Router.subscribe, Router.snapshot]
  refine ⟨fun index other found => ⟨other, ?_, rfl⟩, fun index known member => ?_, fun inOrder => ?_⟩
  · have inside := (List.getElem?_eq_some_iff.mp found).1
    exact (List.getElem?_append_left inside).trans found
  · rw [snapshot] at member
    rcases List.mem_append.mp member with old | new
    · exact old
    · exact absurd (List.mem_singleton.mp new) (Nat.ne_of_lt known)
  · obtain ⟨increasing, known⟩ := inOrder
    have longer : (observers.subscribe listener).listeners.length =
        observers.listeners.length + 1 := List.length_append
    refine ⟨?_, fun index member => ?_⟩
    · rw [snapshot, List.pairwise_append]
      refine ⟨increasing, List.pairwise_singleton _ _, fun index member other here => ?_⟩
      obtain rfl := List.mem_singleton.mp here
      exact known index member
    · rw [longer]
      rw [snapshot] at member
      rcases List.mem_append.mp member with old | new
      · exact Nat.lt_succ_of_lt (known index old)
      · rw [List.mem_singleton.mp new]
        exact Nat.lt_succ_self _

theorem unsubscribe (observers : Observers) (number : Nat) :
    Evolves observers (observers.unsubscribe number) := by
  have fewer : (observers.unsubscribe number).router.snapshot.Sublist observers.router.snapshot :=
    List.filter_sublist.map _
  exact ⟨fun _ listener found => ⟨listener, found, rfl⟩, fun _ _ member => fewer.subset member,
    fun ⟨increasing, known⟩ => ⟨increasing.sublist fewer, fun index member =>
      known index (fewer.subset member)⟩⟩

theorem change (observers : Observers) (change : SubscriptionChange Listener) :
    Evolves observers (observers.change change) := by
  cases change with
  | subscribe listener => exact subscribe observers listener
  | unsubscribe number => exact unsubscribe observers number

theorem changes (observers : Observers) (changes : List (SubscriptionChange Listener)) :
    Evolves observers (changes.foldl Observers.change observers) := by
  induction changes generalizing observers with
  | nil => exact refl observers
  | cons first rest inductionHypothesis =>
      exact (change observers first).trans (inductionHypothesis _)

theorem set (observers : Observers) {index : Nat} {listener : Listener}
    (found : observers.listeners[index]? = some listener) (document : Document) :
    Evolves observers { observers with
      listeners := observers.listeners.set index (listener.receive document).listener } := by
  refine ⟨fun other former known => ?_, fun _ _ member => member,
    fun ⟨increasing, known⟩ => ⟨increasing, fun other member => ?_⟩⟩
  · by_cases same : other = index
    · subst same
      obtain rfl := Option.some.inj (found.symm.trans known)
      have inside := (List.getElem?_eq_some_iff.mp found).1
      exact ⟨_, List.getElem?_set_self inside, listener.verdict_receive document⟩
    · exact ⟨former, (List.getElem?_set_ne (Ne.symm same)).trans known, rfl⟩
  · rw [List.length_set]
    exact known other member

theorem deliver (observers : Observers) (document : Document) (order : List Nat) :
    Evolves observers (observers.deliver document order).observers := by
  induction order generalizing observers with
  | nil => exact refl observers
  | cons index rest inductionHypothesis =>
      unfold Observers.deliver
      split
      · exact inductionHypothesis observers
      · rename_i listener found
        have received := (set observers found document).trans (changes _ (listener.receive document).changes)
        dsimp only
        split
        · exact received
        · exact received.trans (inductionHypothesis _)

end Evolves

theorem getElem?_changes {observers : Observers} {index : Nat} {listener : Listener}
    (found : observers.listeners[index]? = some listener)
    (changes : List (SubscriptionChange Listener)) :
    (changes.foldl change observers).listeners[index]? = some listener := by
  induction changes generalizing observers with
  | nil => exact found
  | cons first rest inductionHypothesis =>
      apply inductionHypothesis
      cases first with
      | subscribe other =>
          exact (List.getElem?_append_left (List.getElem?_eq_some_iff.mp found).1).trans found
      | unsubscribe number => exact found

/-- The observers once the first listener of a delivery has been given the document. -/
def afterFirst (observers : Observers) (document : Document) (index : Nat) (listener : Listener) :
    Observers :=
  (listener.receive document).changes.foldl change { observers with
    listeners := observers.listeners.set index (listener.receive document).listener }

section Delivery

variable {observers : Observers} {document : Document} {index head : Nat} {rest : List Nat}
  {listener ahead : Listener}

theorem deliver_of_none (unknown : observers.listeners[head]? = none) :
    observers.deliver document (head :: rest) = observers.deliver document rest := by
  simp only [deliver, unknown]

theorem deliver_of_error (known : observers.listeners[head]? = some ahead) {fault : DispatchFault}
    (faults : (ahead.receive document).outcome = .error fault) :
    (observers.deliver document (head :: rest)).observers =
      observers.afterFirst document head ahead := by
  simp only [deliver, known, faults, afterFirst]

theorem deliver_of_ok (known : observers.listeners[head]? = some ahead)
    (goesOn : (ahead.receive document).outcome = .ok ()) :
    (observers.deliver document (head :: rest)).observers =
      ((observers.afterFirst document head ahead).deliver document rest).observers := by
  simp only [deliver, known, goesOn, afterFirst]

theorem getElem?_afterFirst_self (document : Document)
    (known : observers.listeners[head]? = some ahead) :
    (observers.afterFirst document head ahead).listeners[head]? =
      some (ahead.receive document).listener :=
  getElem?_changes (List.getElem?_set_self (List.getElem?_eq_some_iff.mp known).1) _

theorem getElem?_afterFirst_of_ne (document : Document) (ahead : Listener)
    (different : index ≠ head) (found : observers.listeners[index]? = some listener) :
    (observers.afterFirst document head ahead).listeners[index]? = some listener :=
  getElem?_changes ((List.getElem?_set_ne (Ne.symm different)).trans found) _

end Delivery

/-- One of these listeners, ahead of a certain one, answers a document with a fault. -/
def FaultAhead (observers : Observers) (document : Document) (order : List Nat) (index : Nat) :
    Prop :=
  ∃ other ∈ order, other < index ∧ ∃ ahead, observers.listeners[other]? = some ahead ∧
    (ahead.receive document).outcome ≠ .ok ()

theorem FaultAhead.of_rest {observers : Observers} {document : Document} {rest : List Nat}
    {index : Nat} (ahead : observers.FaultAhead document rest index) (head : Nat) :
    observers.FaultAhead document (head :: rest) index := by
  obtain ⟨other, member, fault⟩ := ahead
  exact ⟨other, List.mem_cons_of_mem _ member, fault⟩

theorem FaultAhead.of_afterFirst {observers : Observers} {document : Document} {rest : List Nat}
    {head index : Nat} {first : Listener} (behind : ∀ other ∈ rest, head < other)
    (inside : index < observers.listeners.length)
    (ahead : (observers.afterFirst document head first).FaultAhead document rest index) :
    observers.FaultAhead document (head :: rest) index := by
  obtain ⟨other, member, before, former, isFormer, faults⟩ := ahead
  have inPlace := List.getElem?_eq_getElem (Nat.lt_trans before inside)
  have same := getElem?_afterFirst_of_ne document first
    (Nat.ne_of_gt (behind other member)) inPlace
  obtain rfl := Option.some.inj (isFormer.symm.trans same)
  exact ⟨other, List.mem_cons_of_mem _ member, before, _, inPlace, faults⟩

/-- What a delivery makes of one listener: it is given the document once, or stays as it is since it
is not among those that are given it or since one ahead of it answered with a fault. -/
theorem deliver_cases {observers : Observers} {order : List Nat}
    (increasing : order.Pairwise (· < ·)) {index : Nat} {listener : Listener}
    (found : observers.listeners[index]? = some listener) (document : Document) :
    let after := (observers.deliver document order).observers
    (index ∈ order ∧ after.listeners[index]? = some (listener.receive document).listener) ∨
      after.listeners[index]? = some listener ∧
        (index ∈ order → observers.FaultAhead document order index) := by
  induction order generalizing observers listener with
  | nil => exact Or.inr ⟨found, fun member => nomatch member⟩
  | cons head rest inductionHypothesis =>
      intro after
      obtain ⟨behind, later⟩ := List.pairwise_cons.mp increasing
      have inside := (List.getElem?_eq_some_iff.mp found).1
      cases known : observers.listeners[head]? with
      | none =>
          have among : index ∈ head :: rest → index ∈ rest := by
            intro member
            rcases List.mem_cons.mp member with rfl | member
            · rw [found] at known
              cases known
            · exact member
          simp only [after, deliver_of_none known]
          rcases inductionHypothesis later found with ⟨member, heard⟩ | ⟨same, missed⟩
          · exact Or.inl ⟨List.mem_cons_of_mem _ member, heard⟩
          · exact Or.inr ⟨same, fun member => (missed (among member)).of_rest head⟩
      | some ahead =>
          by_cases here : index = head
          · subst here
            obtain rfl := Option.some.inj (found.symm.trans known)
            have heard := getElem?_afterFirst_self document known
            cases outcome : (listener.receive document).outcome with
            | error fault =>
                simp only [after, deliver_of_error known outcome]
                exact Or.inl ⟨List.mem_cons_self, heard⟩
            | ok value =>
                simp only [after, deliver_of_ok known outcome]
                rcases inductionHypothesis later heard with ⟨again, _⟩ | ⟨same, _⟩
                · exact absurd (behind index again) (Nat.lt_irrefl index)
                · exact Or.inl ⟨List.mem_cons_self, same⟩
          · have waits := getElem?_afterFirst_of_ne document ahead here found
            cases outcome : (ahead.receive document).outcome with
            | error fault =>
                simp only [after, deliver_of_error known outcome]
                refine Or.inr ⟨waits, fun member => ?_⟩
                have isBehind := behind index ((List.mem_cons.mp member).resolve_left here)
                have faults : (ahead.receive document).outcome ≠ .ok () := by
                  rw [outcome]
                  exact nofun
                exact ⟨head, List.mem_cons_self, isBehind, ahead, known, faults⟩
            | ok value =>
                simp only [after, deliver_of_ok known outcome]
                rcases inductionHypothesis later waits with ⟨member, heard⟩ | ⟨same, missed⟩
                · exact Or.inl ⟨List.mem_cons_of_mem _ member, heard⟩
                · refine Or.inr ⟨same, fun member => ?_⟩
                  have isBehind := (List.mem_cons.mp member).resolve_left here
                  exact (missed isBehind).of_afterFirst behind inside

theorem inOrder_ofUnnumbered (listeners : List Listener) : (ofUnnumbered listeners).InOrder := by
  have evolves : ∀ observers : Observers, Evolves observers (listeners.foldl subscribe observers) := by
    induction listeners with
    | nil => exact .refl
    | cons listener rest inductionHypothesis =>
        exact fun observers => (Evolves.subscribe observers listener).trans (inductionHypothesis _)
  have fresh : InOrder empty := ⟨List.Pairwise.nil, List.forall_mem_nil _⟩
  obtain ⟨increasing, known⟩ := (evolves empty).inOrder fresh
  exact ⟨increasing, known⟩

/-- No listener that is subscribed ahead of a certain one answers a stop with a fault. -/
def SparedAhead (observers : Observers) (index : Nat) : Prop :=
  ∀ other ∈ observers.router.snapshot, other < index → ∀ listener,
    observers.listeners[other]? = some listener → listener.SparesStops

section Gate

variable {observers : Observers} {index : Nat} {gate : Gate} {silent : Bool} {calls : Nat}
  {verdict : Verdict}

theorem SparedAhead.evolves {after : Observers} (spared : observers.SparedAhead index)
    (inOrder : observers.InOrder) (inside : index < observers.listeners.length)
    (evolves : Evolves observers after) : after.SparedAhead index := by
  intro other member before listener found
  have known := evolves.subscribed other (Nat.lt_trans before inside) member
  have inPlace := List.getElem?_eq_getElem (inOrder.known other known)
  obtain ⟨later, isLater, verdict⟩ := evolves.listeners other _ inPlace
  obtain rfl := Option.some.inj (found.symm.trans isLater)
  intro calls closing
  rw [verdict]
  exact spared other known before _ inPlace calls closing

/-- A gate that is subscribed hears a document or misses it, and it misses no stop. -/
theorem gate_of_dispatch (inOrder : observers.InOrder)
    (found : observers.listeners[index]? = some (.gated gate silent calls verdict))
    (subscribed : index ∈ observers.router.snapshot) (spared : observers.SparedAhead index)
    (document : Document) :
    ∃ later count, (observers.dispatch document).observers.listeners[index]? =
        some (.gated later silent count verdict) ∧
      (later = (gate.receive document).1 ∨
        later = gate ∧ ∀ closing, document ≠ .stop closing) := by
  rcases deliver_cases inOrder.increasing found document with ⟨_, heard⟩ | ⟨same, missed⟩
  · obtain ⟨count, received⟩ := Listener.receive_gated gate silent calls verdict document
    rw [received] at heard
    exact ⟨_, count, heard, Or.inl rfl⟩
  · refine ⟨gate, calls, same, Or.inr ⟨rfl, ?_⟩⟩
    rintro closing rfl
    obtain ⟨other, member, before, ahead, known, faults⟩ := missed subscribed
    exact faults (Listener.outcome_of_sparesStops (spared other member before ahead known) closing)

end Gate

end Observers

namespace Station.Passes

variable {allowed : Entry → Prop} {origin station : Station} {documents : List Document}

theorem evolves (passes : Passes allowed origin documents station) :
    origin.observers.Evolves station.observers := by
  induction passes with
  | stay => exact .refl _
  | dispatch _ now document inductionHypothesis =>
      exact inductionHypothesis.trans (.deliver _ document _)
  | change _ change inductionHypothesis => exact inductionHypothesis.trans (.change _ change)
  | write | publish | watch | count => assumption

/-- A gate that stays subscribed follows the documents that are handed over. -/
theorem gate_follows (passes : Passes allowed origin documents station)
    (inOrder : origin.observers.InOrder) {index : Nat} {gate : Gate} {silent : Bool} {calls : Nat}
    {verdict : Verdict}
    (found : origin.observers.listeners[index]? = some (.gated gate silent calls verdict))
    (subscribed : index ∈ station.observers.router.snapshot)
    (spared : origin.observers.SparedAhead index) :
    ∃ later count, station.observers.listeners[index]? = some (.gated later silent count verdict) ∧
      gate.Follows documents later := by
  have inside := (List.getElem?_eq_some_iff.mp found).1
  induction passes with
  | stay => exact ⟨gate, calls, found, .start⟩
  | dispatch passes now document inductionHypothesis =>
      rename_i station
      have evolved := passes.evolves
      obtain ⟨_, isThere, _⟩ := evolved.listeners index _ found
      have still := (Observers.Evolves.deliver station.observers document _).subscribed index
        (List.getElem?_eq_some_iff.mp isThere).1 subscribed
      obtain ⟨later, count, foundLater, follows⟩ := inductionHypothesis still
      obtain ⟨last, count, foundLast, heard | ⟨missed, noStop⟩⟩ :=
        Observers.gate_of_dispatch (evolved.inOrder inOrder) foundLater still
          (spared.evolves inOrder inside evolved) document
      · rw [heard] at foundLast
        exact ⟨_, count, foundLast, follows.hears document⟩
      · rw [missed] at foundLast
        exact ⟨_, count, foundLast, follows.misses noStop⟩
  | change passes change inductionHypothesis =>
      rename_i station
      obtain ⟨_, isThere, _⟩ := passes.evolves.listeners index _ found
      have still := (Observers.Evolves.change station.observers change).subscribed index
        (List.getElem?_eq_some_iff.mp isThere).1 subscribed
      obtain ⟨later, count, foundLater, follows⟩ := inductionHypothesis still
      exact ⟨later, count, Observers.getElem?_changes foundLater [change], follows⟩
  | write | publish | watch | count =>
      rename_i inductionHypothesis
      exact inductionHypothesis subscribed

end Station.Passes

end PlanSupervision
