import Mathlib.Algebra.Ring.Nat
import PlanSupervision.Proofs.Supervisor.Incident

/-!
The account of the events on the bus. The relay passes them to the subscribers in order, and
notes how many it missed: at any time the events that it emitted and those that it noted as
missed are together as many as it has passed. When it waits or ends, nothing is left that it has
not passed.
-/

namespace PlanSupervision

namespace Reception

variable {Message : Type}

section Snoc

variable (receptions : List (Reception Message))

@[simp]
theorem messages_snoc_message (content : Message) :
    messages (receptions ++ [message content]) = messages receptions ++ [content] :=
  messages_append _ _

@[simp]
theorem messages_snoc_lagged (count : Nat) :
    messages (receptions ++ [lagged count]) = messages receptions :=
  (messages_append _ _).trans (List.append_nil _)

@[simp]
theorem missed_snoc_message (content : Message) :
    missed (receptions ++ [message content]) = missed receptions :=
  (missed_append _ _).trans (List.append_nil _)

@[simp]
theorem missed_snoc_lagged (count : Nat) :
    missed (receptions ++ [lagged count]) = missed receptions ++ [count] :=
  missed_append _ _

end Snoc

end Reception

/-- The line by which the relay notes that it fell behind. -/
def Entry.lag? : Entry → Option LogLine
  | logged line => if line.message = "supervision event listener lagged" then some line else none
  | _ => none

namespace Journal

def lags (journal : Journal) : List LogLine := journal.filterMap fun entry => entry.2.lag?

theorem lags_append (earlier later : Journal) :
    lags (earlier ++ later) = lags earlier ++ lags later :=
  List.filterMap_append

end Journal

theorem LogLine.message_ofEvent (event : Event) :
    (ofEvent event).message ≠ "supervision event listener lagged" := by
  unfold ofEvent
  cases event.kind <;> simp

theorem Entry.lag?_of_ordinary {entry : Entry} (ordinary : entry.Ordinary) : entry.lag? = none := by
  cases entry with
  | logged line =>
      have other : line.message ≠ "supervision event listener lagged" := by
        rcases ordinary with (grace | ⟨event, rfl⟩) | closing
        · intro same
          simp [same] at grace
        · exact LogLine.message_ofEvent event
        · intro same
          simp [OfPlan, same] at closing
      exact if_neg other
  | _ => rfl

theorem Entry.lag?_of_call {stopping : Bool} {entry : Entry} (ofCall : entry.OfCall stopping) :
    entry.lag? = none := by
  rcases ofCall with ordinary | ⟨_, plan, rfl⟩
  · exact lag?_of_ordinary ordinary
  · rfl

theorem Entry.lag?_of_delivery {entry : Entry} (delivery : entry.OfDelivery) :
    entry.lag? = none := by
  cases entry with
  | logged line =>
      have message : line.message = "gated handler failed" := delivery
      simp [lag?, message]
  | _ => rfl

/-- What a receiver of an open channel is given next: a message, the number of those that it
missed, or nothing if it has passed all. -/
theorem Broadcast.receive_cases {Message : Type} {channel : Broadcast Message}
    (isOpen : channel.closed = false) (position : Nat) :
    (∃ message, channel.sent[position]? = some message ∧
      channel.receive position = (.message message, position + 1)) ∨
    (∃ missed, position + missed ≤ channel.sent.length ∧
      channel.receive position = (.lagged missed, position + missed)) ∨
    channel.sent.length ≤ position ∧ channel.receive position = (.empty, position) := by
  unfold receive
  split
  · rename_i behind
    have reached : position + (channel.oldest - position) = channel.oldest := by omega
    have inside : channel.oldest ≤ channel.sent.length := Nat.sub_le _ _
    refine Or.inr (Or.inl ⟨channel.oldest - position, ?_, ?_⟩)
    · rw [reached]
      exact inside
    · rw [reached]
  · split
    · rename_i message next
      exact Or.inl ⟨message, next, rfl⟩
    · rename_i nothing
      refine Or.inr (Or.inr ⟨List.getElem?_eq_none_iff.mp nothing, ?_⟩)
      rw [isOpen, if_neg Bool.false_ne_true]

namespace Supervisor

/-- What the relay receives within so many steps. -/
def receivedWithin (now : Span) : Nat → Supervisor → List (Reception Event)
  | 0, _ => []
  | budget + 1, supervisor =>
      match supervisor.relay with
      | none => []
      | some relay =>
          match supervisor.relayStep now relay.position with
          | (.message event, after) => .message event :: receivedWithin now budget after
          | (.lagged missed, after) => .lagged missed :: receivedWithin now budget after
          | (.empty, _) | (.closed, _) => []

/-- What the relay receives in an incident. -/
def receivedIn (supervisor : Supervisor) (now : Span) (incident : Incident) :
    List (Reception Event) :=
  match incident.budget?, supervisor.relay with
  | some budget, some relay =>
      if relay.state = .ended then []
      else receivedWithin now budget
        (supervisor.setRelay fun relay => { relay with state := .ready })
  | _, _ => []

def received (supervisor : Supervisor) : Chronicle → List (Reception Event)
  | [] => []
  | (now, incident) :: later =>
      supervisor.receivedIn now incident ++ received (supervisor.occur now incident) later

/-- Events are sent behind all others, and the relay neither goes on nor notes anything. If it
waits, none was sent. -/
structure Feeds (before after : Supervisor) : Prop where
  bus : ∃ events, after.station.bus =
    ⟨before.station.bus.capacity, before.station.bus.sent ++ events, before.station.bus.closed⟩
  lags : after.station.journal.lags = before.station.journal.lags
  relay : after.relay.map Relay.progress = before.relay.map Relay.progress
  waits : after.relay.map Relay.state = some .waiting →
    before.relay.map Relay.state = some .waiting ∧
      after.station.bus.position = before.station.bus.position

namespace Feeds

variable {before after last : Supervisor}

theorem of_same (station : after.station = before.station) (relay : after.relay = before.relay) :
    Feeds before after := by
  refine ⟨⟨[], ?_⟩, ?_, ?_, fun waiting => ?_⟩
  · rw [station, List.append_nil]
  · rw [station]
  · rw [relay]
  · rw [relay] at waiting
    exact ⟨waiting, by rw [station]⟩

theorem trans (first : Feeds before after) (second : Feeds after last) : Feeds before last := by
  obtain ⟨events, bus⟩ := first.bus
  obtain ⟨more, later⟩ := second.bus
  refine ⟨⟨events ++ more, ?_⟩, second.lags.trans first.lags, second.relay.trans first.relay,
    fun waiting => ?_⟩
  · rw [later, bus, List.append_assoc]
  · obtain ⟨waited, quiet⟩ := second.waits waiting
    obtain ⟨waitedBefore, quietBefore⟩ := first.waits waited
    exact ⟨waitedBefore, quiet.trans quietBefore⟩

theorem of_spares {allowed : Entry → Prop} {documents : List Document} {caller : Option Nat}
    (noLag : ∀ entry, allowed entry → entry.lag? = none)
    (spares : Spares allowed documents caller before after) : Feeds before after := by
  obtain ⟨events, bus, _⟩ := spares.station.sent
  obtain ⟨written, journal, _, fine⟩ := spares.station.written
  refine ⟨⟨events, bus⟩, ?_, spares.relay, spares.waits⟩
  have nothing : Journal.lags written = [] := by
    rw [Journal.lags, List.filterMap_eq_nil_iff]
    intro entry member
    rcases fine entry member with permitted | delivery
    · exact noLag entry.2 permitted
    · exact Entry.lag?_of_delivery delivery
  rw [journal, Journal.lags_append, nothing, List.append_nil]

theorem of_chores (chores : Chores before after) : Feeds before after :=
  of_spares (fun _ => Entry.lag?_of_ordinary) chores.spares

theorem request (supervisor : Supervisor) (now : Span) (reason : String) :
    Feeds supervisor (supervisor.request now reason) := by
  cases stopping : supervisor.stopping with
  | true =>
      rw [supervisor.request_of_stopping now stopping]
      exact of_same rfl rfl
  | false =>
      have sent : Spares (fun entry => ∃ event, entry = .published event) [] none supervisor
          (supervisor.publish now (requestEvent reason)) :=
        supervisor.spares_publish now none ⟨_, rfl⟩
      have told := of_spares (fun _ ⟨_, isEvent⟩ => isEvent ▸ rfl) sent
      have stops : ∀ other : Supervisor, Feeds other { other with stopping := true } :=
        fun _ => of_same rfl rfl
      exact (told.trans (stops _)).trans (of_chores (supervisor.chores_request now stopping reason))

theorem occur {supervisor : Supervisor} (now : Span) {incident : Incident}
    (still : incident.budget? = none) : Feeds supervisor (supervisor.occur now incident) := by
  cases supervisor.occur_outcome now incident with
  | spares unheard still others spares =>
      refine of_spares (fun entry permitted => ?_) spares
      rcases permitted with ordinary | ⟨event, _, rfl⟩
      · exact Entry.lag?_of_ordinary ordinary
      · rfl
  | acts unheard still actor found acts =>
      exact of_spares (fun _ => Entry.lag?_of_call) acts.spares
  | besides unheard still actor found besides =>
      exact of_spares (fun _ => Entry.lag?_of_call) besides.spares
  | enters unheard still spares entered => exact of_spares (fun _ => Entry.lag?_of_ordinary) spares
  | requests heard still spares =>
      exact (request supervisor now _).trans (of_spares (fun _ => Entry.lag?_of_ordinary) spares)
  | relays unheard turn same =>
      rw [still] at turn
      cases turn

end Feeds

/-- What was received accounts for how far the relay has come: each event that it passed was
emitted or noted as missed. A relay that waits has passed all. -/
structure Balanced (supervisor : Supervisor) (relay : Relay)
    (receptions : List (Reception Event)) : Prop where
  known : supervisor.relay = some relay
  emitted : (Reception.messages receptions).Sublist (supervisor.station.bus.sent.take relay.position)
  passed : relay.position ≤ supervisor.station.bus.sent.length
  counted : (Reception.messages receptions).length + (Reception.missed receptions).sum =
    relay.position
  noted : supervisor.station.journal.lags = (Reception.missed receptions).map lagLine
  isOpen : supervisor.station.bus.closed = false
  caughtUp : relay.state = .waiting → relay.position = supervisor.station.bus.sent.length

namespace Balanced

variable {supervisor after : Supervisor} {relay : Relay} {receptions : List (Reception Event)}

theorem feeds (balanced : Balanced supervisor relay receptions) (feeds : Feeds supervisor after) :
    ∃ later, Balanced after later receptions ∧ later.progress = relay.progress ∧
      (later.state = .waiting → relay.state = .waiting) := by
  obtain ⟨events, bus⟩ := feeds.bus
  have progress := feeds.relay
  rw [balanced.known, Option.map_some] at progress
  obtain ⟨later, known, same⟩ := Option.map_eq_some_iff.mp progress
  have position : later.position = relay.position := congrArg Prod.fst same
  have waits : later.state = .waiting → relay.state = .waiting ∧
      after.station.bus.position = supervisor.station.bus.position := by
    intro waiting
    obtain ⟨waited, quiet⟩ := feeds.waits (by rw [known, Option.map_some, waiting])
    rw [balanced.known, Option.map_some] at waited
    exact ⟨Option.some.inj waited, quiet⟩
  refine ⟨later, ⟨known, ?_, ?_, ?_, ?_, ?_, fun waiting => ?_⟩, same,
    fun waiting => (waits waiting).1⟩
  · rw [bus, position, List.take_append_of_le_length balanced.passed]
    exact balanced.emitted
  · rw [bus, position, List.length_append]
    exact Nat.le_add_right_of_le balanced.passed
  · rw [position]
    exact balanced.counted
  · rw [feeds.lags]
    exact balanced.noted
  · rw [bus]
    exact balanced.isOpen
  · obtain ⟨waited, quiet⟩ := waits waiting
    rw [position, balanced.caughtUp waited]
    exact quiet.symm

theorem setRelay (balanced : Balanced supervisor relay receptions) (change : Relay → Relay)
    (position : (change relay).position = relay.position)
    (caughtUp : (change relay).state = .waiting →
      relay.position = supervisor.station.bus.sent.length) :
    Balanced (supervisor.setRelay change) (change relay) receptions := by
  obtain ⟨known, emitted, passed, counted, noted, isOpen, _⟩ := balanced
  rw [← position] at emitted passed counted caughtUp
  exact ⟨by rw [Supervisor.setRelay, known, Option.map_some], emitted, passed, counted, noted,
    isOpen, caughtUp⟩

/-- The next event that can still be received is emitted. -/
theorem emit (balanced : Balanced supervisor relay receptions) (ready : relay.state = .ready)
    (now : Span) {event : Event}
    (next : supervisor.station.bus.sent[relay.position]? = some event) :
    ∃ later,
      Balanced ((supervisor.setRelay fun former =>
          { former with position := relay.position + 1 }).emit now event) later
        (receptions ++ [.message event]) ∧
      later.state = .ready := by
  obtain ⟨known, emitted, passed, counted, noted, isOpen, _⟩ := balanced
  obtain ⟨inside, isNext⟩ := List.getElem?_eq_some_iff.mp next
  have moved : Balanced (supervisor.setRelay fun former =>
        { former with position := relay.position + 1 })
      { relay with position := relay.position + 1 } (receptions ++ [.message event]) := by
    refine ⟨?_, ?_, inside, ?_, ?_, isOpen, fun waiting => ?_⟩
    · rw [Supervisor.setRelay, known, Option.map_some]
    · have reached : supervisor.station.bus.sent.take (relay.position + 1) =
          supervisor.station.bus.sent.take relay.position ++ [event] := by
        rw [← List.take_append_getElem inside, isNext]
      rw [Reception.messages_snoc_message]
      change List.Sublist _ (supervisor.station.bus.sent.take (relay.position + 1))
      rw [reached]
      exact emitted.append (.refl [event])
    · simp only [Reception.messages_snoc_message, Reception.missed_snoc_message,
        List.length_append, List.length_singleton]
      omega
    · rw [Reception.missed_snoc_message]
      exact noted
    · have waits := ready.symm.trans waiting
      cases waits
  obtain ⟨later, balancedLater, progress, waits⟩ :=
    moved.feeds (.of_chores (chores_emit _ now event))
  refine ⟨later, balancedLater, ?_⟩
  have goesOn := congrArg Prod.snd progress
  cases state : later.state with
  | ready => rfl
  | waiting =>
      have waiting := ready.symm.trans (waits state)
      cases waiting
  | ended => simp [Relay.progress, state, ready] at goesOn

/-- The events that can no longer be received are noted as missed. -/
theorem note (balanced : Balanced supervisor relay receptions) (ready : relay.state = .ready)
    (now : Span) {missed : Nat}
    (inside : relay.position + missed ≤ supervisor.station.bus.sent.length) :
    Balanced ((supervisor.setRelay fun former =>
        { former with position := relay.position + missed }).write now (.logged (lagLine missed)))
      { relay with position := relay.position + missed } (receptions ++ [.lagged missed]) := by
  obtain ⟨known, emitted, passed, counted, noted, isOpen, _⟩ := balanced
  refine ⟨?_, ?_, inside, ?_, ?_, isOpen, fun waiting => nomatch ready.symm.trans waiting⟩
  · change supervisor.relay.map _ = _
    rw [known, Option.map_some]
  · rw [Reception.messages_snoc_lagged]
    have further : (supervisor.station.bus.sent.take relay.position).Sublist
        (supervisor.station.bus.sent.take (relay.position + missed)) :=
      (List.take_prefix_take_left (Nat.le_add_right _ _)).sublist
    exact emitted.trans further
  · simp only [Reception.messages_snoc_lagged, Reception.missed_snoc_lagged, List.sum_append,
      List.sum_singleton]
    omega
  · have written : (supervisor.station.journal.write now [.logged (lagLine missed)]).lags =
        supervisor.station.journal.lags ++ [lagLine missed] := Journal.lags_append _ _
    rw [Reception.missed_snoc_lagged, List.map_append, ← noted]
    exact written

theorem station_relayIdle (supervisor : Supervisor) :
    supervisor.relayIdle.station = supervisor.station := by
  unfold relayIdle
  split <;> rfl

/-- Nothing is left to receive: the relay ends if it is to stop. -/
theorem idle (balanced : Balanced supervisor relay receptions)
    (all : relay.position = supervisor.station.bus.sent.length) :
    ∃ later, Balanced supervisor.relayIdle later receptions ∧ later.position = relay.position ∧
      (later.state = .ended → later.stopping = true) := by
  unfold relayIdle
  split
  · rename_i stops
    rw [balanced.known] at stops
    have ended := balanced.setRelay (fun relay => { relay with state := .ended }) rfl nofun
    obtain ⟨known, emitted, passed, counted, noted, isOpen, caughtUp⟩ := ended
    exact ⟨_, ⟨known, emitted, passed, counted, noted, isOpen, caughtUp⟩, rfl, fun _ => stops⟩
  · have waiting := balanced.setRelay (fun relay => { relay with state := .waiting }) rfl
      fun _ => all
    exact ⟨_, waiting, rfl, nofun⟩

/-- The relay is to stop and has passed all events. -/
structure Drained (supervisor : Supervisor) (relay : Relay) : Prop where
  stopping : relay.stopping = true
  position : relay.position = supervisor.station.bus.sent.length

/-- However many steps the relay takes, what it receives accounts for how far it comes, and when it
ends, nothing is left. -/
theorem within (balanced : Balanced supervisor relay receptions) (ready : relay.state = .ready)
    (now : Span) (budget : Nat) :
    ∃ later,
      Balanced (relayWithin now budget supervisor) later
        (receptions ++ receivedWithin now budget supervisor) ∧
      (later.state = .ended → Drained (relayWithin now budget supervisor) later) := by
  induction budget generalizing supervisor relay receptions with
  | zero =>
      obtain ⟨known, emitted, passed, counted, noted, isOpen, caughtUp⟩ := balanced
      refine ⟨relay, ?_, fun ended => nomatch ready.symm.trans ended⟩
      rw [receivedWithin, List.append_nil]
      exact ⟨known, emitted, passed, counted, noted, isOpen, caughtUp⟩
  | succ budget inductionHypothesis =>
      rcases Broadcast.receive_cases balanced.isOpen relay.position with
        ⟨event, next, receives⟩ | ⟨missed, inside, receives⟩ | ⟨all, receives⟩
      · obtain ⟨later, emits, stillReady⟩ := balanced.emit ready now next
        obtain ⟨last, balancedLast, drained⟩ := inductionHypothesis emits stillReady
        rw [List.append_assoc] at balancedLast
        refine ⟨last, ?_, ?_⟩
        · simpa [relayWithin, receivedWithin, balanced.known, relayStep, receives, passOn] using
            balancedLast
        · simpa [relayWithin, balanced.known, relayStep, receives, passOn] using drained
      · have notes := balanced.note ready now inside
        obtain ⟨last, balancedLast, drained⟩ := inductionHypothesis notes ready
        rw [List.append_assoc] at balancedLast
        refine ⟨last, ?_, ?_⟩
        · simpa [relayWithin, receivedWithin, balanced.known, relayStep, receives, passOn] using
            balancedLast
        · simpa [relayWithin, balanced.known, relayStep, receives, passOn] using drained
      · have caughtUp := Nat.le_antisymm balanced.passed all
        have stays := balanced.setRelay
          (fun former => { former with position := relay.position }) rfl fun _ => caughtUp
        obtain ⟨later, rests, position, stops⟩ := stays.idle caughtUp
        have after : relayWithin now (budget + 1) supervisor = (supervisor.setRelay fun former =>
            { former with position := relay.position }).relayIdle := by
          simp [relayWithin, balanced.known, relayStep, receives, passOn]
        have nothing : receivedWithin now (budget + 1) supervisor = [] := by
          simp [receivedWithin, balanced.known, relayStep, receives, passOn]
        rw [after, nothing, List.append_nil]
        refine ⟨later, rests, fun ended => ⟨stops ended, ?_⟩⟩
        apply Nat.le_antisymm rests.passed
        rw [position, station_relayIdle]
        exact all

/-- What an incident makes of the balance. A relay that ends has passed all events, and one that
has ended receives nothing more. -/
theorem occur (balanced : Balanced supervisor relay receptions) (now : Span)
    (incident : Incident) :
    ∃ later,
      Balanced (supervisor.occur now incident) later
        (receptions ++ supervisor.receivedIn now incident) ∧
      (relay.state ≠ .ended → later.state = .ended →
        Drained (supervisor.occur now incident) later) ∧
      (relay.state = .ended → later.state = .ended ∧ supervisor.receivedIn now incident = []) := by
  cases turn : incident.budget? with
  | none =>
      have nothing : supervisor.receivedIn now incident = [] := by
        simp only [receivedIn, turn]
      obtain ⟨later, balancedLater, progress, _⟩ := balanced.feeds (.occur now turn)
      have same : later.state = .ended ↔ relay.state = .ended := by
        simpa [Relay.progress] using congrArg Prod.snd progress
      rw [nothing, List.append_nil]
      exact ⟨later, balancedLater, fun goesOn ended => absurd (same.mp ended) goesOn,
        fun ended => ⟨same.mpr ended, rfl⟩⟩
  | some budget =>
      rw [occur_of_budget now turn]
      by_cases ended : relay.state = .ended
      · have stays : supervisor.relayFor now budget = supervisor := by
          simp only [relayFor, balanced.known, ended, if_true]
        have nothing : supervisor.receivedIn now incident = [] := by
          simp only [receivedIn, turn, balanced.known, ended, if_true]
        rw [stays, nothing, List.append_nil]
        exact ⟨relay, balanced, fun goesOn => absurd ended goesOn, fun _ => ⟨ended, rfl⟩⟩
      · have works : supervisor.relayFor now budget = relayWithin now budget
            (supervisor.setRelay fun relay => { relay with state := .ready }) := by
          simp only [relayFor, balanced.known, ended, if_false]
        have receives : supervisor.receivedIn now incident = receivedWithin now budget
            (supervisor.setRelay fun relay => { relay with state := .ready }) := by
          simp only [receivedIn, turn, balanced.known, ended, if_false]
        have ready := balanced.setRelay (fun relay => { relay with state := .ready }) rfl
          fun waiting => by cases waiting
        obtain ⟨later, balancedLater, drained⟩ := ready.within rfl now budget
        rw [works, receives]
        exact ⟨later, balancedLater, fun _ => drained, fun stopped => absurd stopped ended⟩

theorem live (balanced : Balanced supervisor relay receptions) (chronicle : Chronicle) :
    ∃ later,
      Balanced (supervisor.live chronicle) later (receptions ++ supervisor.received chronicle) ∧
      (relay.state = .ended → supervisor.received chronicle = []) := by
  induction chronicle generalizing supervisor relay receptions with
  | nil =>
      rw [received, List.append_nil]
      exact ⟨relay, balanced, fun _ => rfl⟩
  | cons entry rest inductionHypothesis =>
      obtain ⟨now, incident⟩ := entry
      obtain ⟨next, balancedNext, _, halted⟩ := balanced.occur now incident
      obtain ⟨later, balancedLater, stillOver⟩ := inductionHypothesis balancedNext
      rw [List.append_assoc] at balancedLater
      refine ⟨later, balancedLater, fun ended => ?_⟩
      obtain ⟨endedNext, nothing⟩ := halted ended
      rw [received, nothing, stillOver endedNext]
      rfl

end Balanced

theorem fan_wakeRelay (supervisor : Supervisor) : supervisor.wakeRelay.fan = supervisor.fan := by
  unfold wakeRelay
  split
  · split <;> rfl
  · rfl

theorem fan_carryOutAll (supervisor : Supervisor) (now : Span) (effects : List FanOutEffect) :
    (effects.foldl (carryOut now) supervisor).fan = supervisor.fan := by
  induction effects generalizing supervisor with
  | nil => rfl
  | cons effect rest inductionHypothesis =>
      rw [List.foldl_cons, inductionHypothesis]
      cases effect with
      | wake index => rfl
      | publish event => exact fan_wakeRelay _
      | write entry => rfl

/-- The relay passes to the subscribers exactly the events that it receives, in this order. -/
theorem fan_relayWithin (supervisor : Supervisor) (now : Span) (budget : Nat) :
    (relayWithin now budget supervisor).fan =
      (Reception.messages (receivedWithin now budget supervisor)).foldl
        (fun fan event => (fan.emit event).1) supervisor.fan := by
  induction budget generalizing supervisor with
  | zero => rfl
  | succ budget inductionHypothesis =>
      unfold relayWithin receivedWithin
      cases known : supervisor.relay with
      | none => rfl
      | some relay =>
          simp only [relayStep]
          cases received : supervisor.station.bus.receive relay.position with
          | mk reception position =>
              cases reception with
              | message event =>
                  have emitted : ∀ supervisor : Supervisor,
                      (supervisor.emit now event).fan = (supervisor.fan.emit event).1 :=
                    fun supervisor => fan_carryOutAll _ now (supervisor.fan.emit event).2
                  simp only [passOn]
                  rw [inductionHypothesis, emitted]
                  rfl
              | lagged missed =>
                  simp only [passOn]
                  rw [inductionHypothesis]
                  rfl
              | empty | closed =>
                  simp only [passOn, relayIdle]
                  split <;> rfl

theorem received_append (supervisor : Supervisor) (earlier later : Chronicle) :
    supervisor.received (earlier ++ later) =
      supervisor.received earlier ++ (supervisor.live earlier).received later := by
  induction earlier generalizing supervisor with
  | nil => rfl
  | cons entry rest inductionHypothesis =>
      obtain ⟨now, incident⟩ := entry
      simp only [List.cons_append, received, inductionHypothesis, List.append_assoc]
      rfl

theorem fan_occur (supervisor : Supervisor) (now : Span) {incident : Incident} {budget : Nat}
    (turn : incident.budget? = some budget) :
    (supervisor.occur now incident).fan =
      (Reception.messages (supervisor.receivedIn now incident)).foldl
        (fun fan event => (fan.emit event).1) supervisor.fan := by
  rw [occur_of_budget now turn]
  unfold relayFor receivedIn
  simp only [turn]
  cases known : supervisor.relay with
  | none => rfl
  | some relay =>
      simp only
      split
      · rfl
      · exact fan_relayWithin _ now budget

/-- Whatever happens, the events that the relay passes to the subscribers are a subsequence of
those that were published, and with the ones that it noted as missed they are as many as it has
passed. While it waits, these are all that were published. When it ends, it was told to stop and
has passed every event; it receives nothing from then on. -/
theorem no_event_unaccounted (draws : Nat → Uid) (config : Config) (listeners : List Listener)
    (first : Subscriber) (others : List Subscriber) (chronicle : Chronicle) :
    let origin := buildWith draws config listeners (first :: others)
    let after := origin.live chronicle
    let receptions := origin.received chronicle
    let emitted := Reception.messages receptions
    let missed := Reception.missed receptions
    ∃ relay, after.relay = some relay ∧
      emitted.Sublist (after.station.bus.sent.take relay.position) ∧
      relay.position ≤ after.station.bus.sent.length ∧
      emitted.length + missed.sum = relay.position ∧
      after.station.journal.lags = missed.map lagLine ∧
      (relay.state = .waiting → relay.position = after.station.bus.sent.length) ∧
      (relay.state = .ended → ∀ later, origin.received (chronicle ++ later) = receptions) ∧
      ∀ now incident,
        let next := after.occur now incident
        let received := after.receivedIn now incident
        (incident.budget? ≠ none → next.fan = (Reception.messages received).foldl
          (fun fan event => (fan.emit event).1) after.fan) ∧
        (relay.state ≠ .ended → ∀ last ∈ next.relay, last.state = .ended →
          last.stopping = true ∧
            (emitted ++ Reception.messages received).length +
              (missed ++ Reception.missed received).sum = next.station.bus.sent.length) := by
  intro origin after receptions emitted missed
  have fresh : Balanced origin ⟨0, .ready, false, false⟩ [] :=
    ⟨rfl, List.nil_sublist _, Nat.le_refl 0, rfl, rfl, rfl, nofun⟩
  obtain ⟨relay, balanced, _⟩ := fresh.live chronicle
  rw [List.nil_append] at balanced
  refine ⟨relay, balanced.known, balanced.emitted, balanced.passed, balanced.counted,
    balanced.noted, balanced.caughtUp, fun ended later => ?_, fun now incident => ⟨fun turn => ?_, ?_⟩⟩
  · obtain ⟨_, _, nothing⟩ := balanced.live later
    rw [received_append, nothing ended, List.append_nil]
  · obtain ⟨budget, turns⟩ := Option.ne_none_iff_exists'.mp turn
    exact after.fan_occur now turns
  · intro goesOn last isRelay ended
    obtain ⟨later, balancedLater, drained, _⟩ := balanced.occur now incident
    obtain rfl := Option.some.inj (isRelay.symm.trans balancedLater.known)
    have counted := balancedLater.counted
    rw [Reception.messages_append, Reception.missed_append,
      (drained goesOn ended).position] at counted
    exact ⟨(drained goesOn ended).stopping, counted⟩

/-- Three events on a bus that holds one: two are noted as missed. -/
example :
    let origin := build { Config.standard with busCapacity := 1 } [] [.logWriter]
    let event := Event.ofKind .monitorStarted
    origin.received [(0, .announce event), (0, .announce event), (0, .announce event),
      (0, .relay 2)] = [.lagged 2, .message event] := rfl

end Supervisor

end PlanSupervision
