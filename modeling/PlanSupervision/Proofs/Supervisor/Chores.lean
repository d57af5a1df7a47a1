import PlanSupervision.Proofs.Plan.Passage
import PlanSupervision.Supervisor.Rehearsal

/-!
The chores of a supervisor: what its tasks do beside the calls. They come in small steps of a few
kinds, which leave the calls where they stand and hand over no document.
-/

namespace PlanSupervision

/-- What of a call counts for its place: its plan, the name that its context acts under and how
far it has come. -/
structure Face where
  plan : Plan
  name : String
  phase : CallPhase

def Call.face (call : Call) : Face := ⟨call.plan, call.context.plan, call.phase⟩

/-- An entry that chores may leave: reports of subscribers, and what they are given or write. -/
def Entry.Routine : Entry → Prop
  | published event =>
      event.plan = none ∧ event.kind ∈ [.subscriberOverflow, .subscriberPanicked]
  | received _ _ => True
  | logged line =>
      line.message ∈ ["running plan did not unwind within shutdown grace",
        "event listener did not stop within shutdown grace"] ∨ ∃ event, line = .ofEvent event
  | _ => False

/-- An effect of the fan-out that leaves nothing but what chores may leave. -/
def FanOutEffect.Routine : FanOutEffect → Prop
  | wake _ => True
  | publish event => (Entry.published event).Routine
  | write entry => entry.Silent ∧ entry.Routine

theorem Subscriber.routine_entry (subscriber : Subscriber) (event : Event) :
    (subscriber.entry event).Silent ∧ (subscriber.entry event).Routine := by
  unfold Subscriber.entry
  split
  · exact ⟨⟨rfl, rfl⟩, Or.inr ⟨event, rfl⟩⟩
  · exact ⟨⟨rfl, rfl⟩, trivial⟩

theorem Event.routine_overflow (subscriber reason : String) :
    (Entry.published (.overflow subscriber reason)).Routine :=
  ⟨rfl, List.mem_cons_self⟩

theorem Event.routine_panicked (subscriber info : String) :
    (Entry.published (.panicked subscriber info)).Routine :=
  ⟨rfl, List.mem_cons_of_mem _ List.mem_cons_self⟩

namespace FanOut

theorem routine_of_mem_offerAll (event : Event) (index : Nat) (subscribers : List Subscriber) :
    ∀ effect ∈ (offerAll event index subscribers).2, effect.Routine := by
  induction subscribers generalizing index with
  | nil => exact List.forall_mem_nil _
  | cons subscriber rest inductionHypothesis =>
      intro effect member
      unfold offerAll at member
      dsimp only at member
      split at member
      · rcases List.mem_append.mp member with notice | later
        · split at notice
          · obtain rfl := List.mem_singleton.mp notice
            exact trivial
          · cases notice
        · exact inductionHypothesis (index + 1) effect later
      · rcases List.mem_append.mp member with report | later
        · split at report
          · cases report
          · obtain rfl := List.mem_singleton.mp report
            exact Event.routine_overflow _ _
        · exact inductionHypothesis (index + 1) effect later

theorem routine_of_take {closed : Bool} {now : Span} {subscriber after : Subscriber}
    {event : Event} {effects : List FanOutEffect}
    (took : take closed now subscriber = .took event after effects) :
    ∀ effect ∈ effects, effect.Routine := by
  have written := subscriber.routine_entry
  unfold take at took
  split at took
  · cases took
  · dsimp only at took
    have received : ∀ effect ∈ [FanOutEffect.write (subscriber.entry event)], effect.Routine :=
      List.forall_mem_singleton.mpr (written event)
    split at took <;> cases took
    · exact received
    · exact received
    · exact List.forall_mem_cons.mpr ⟨written _,
        List.forall_mem_singleton.mpr (Event.routine_panicked _ _)⟩
    · exact received
    · exact received

theorem routine_of_step {closed : Bool} {now : Span} {subscriber after : Subscriber}
    {event : Event} {effects : List FanOutEffect}
    (took : step closed now subscriber = .took event after effects) :
    ∀ effect ∈ effects, effect.Routine := by
  unfold step at took
  split at took
  · exact routine_of_take took
  · split at took
    · exact routine_of_take took
    · cases took
  · split at took <;> cases took
  · cases took
  · cases took

theorem routine_of_failed {closed : Bool} {now : Span} {subscriber after : Subscriber}
    {message : String} {effects : List FanOutEffect}
    (failed : step closed now subscriber = .failed message after effects) :
    ∀ effect ∈ effects, effect.Routine := by
  have takes : take closed now subscriber ≠ .failed message after effects := by
    unfold take
    split
    · nofun
    · dsimp only
      split <;> nofun
  unfold step at failed
  split at failed
  · exact absurd failed takes
  · split at failed
    · exact absurd failed takes
    · cases failed
  · split at failed <;> cases failed
    exact List.forall_mem_singleton.mpr (Event.routine_panicked _ _)
  · cases failed
  · cases failed

theorem routine_of_mem_steps (closed : Bool) (now : Span) (budget : Nat)
    (subscriber : Subscriber) :
    ∀ effect ∈ (steps closed now budget subscriber).2.1, effect.Routine := by
  induction budget generalizing subscriber with
  | zero => exact List.forall_mem_nil _
  | succ budget inductionHypothesis =>
      intro effect member
      unfold steps at member
      split at member
      · cases member
      · rename_i took
        rcases List.mem_append.mp member with first | later
        · exact routine_of_step took effect first
        · exact inductionHypothesis _ effect later
      · rename_i failed
        rcases List.mem_append.mp member with report | later
        · exact routine_of_failed failed effect report
        · exact inductionHypothesis _ effect later

theorem routine_of_mem_work (fan : FanOut) (worker : Nat) (now : Span) :
    ∀ effect ∈ (fan.work worker now).2.1, effect.Routine := by
  unfold work
  split
  · exact List.forall_mem_nil _
  · exact routine_of_mem_steps fan.closed now turnBudget _

end FanOut

/-- How far a relay has come: the events that it has passed, and whether it has ended. -/
def Relay.progress (relay : Relay) : Nat × Bool := (relay.position, relay.state = .ended)

namespace Supervisor

def withStation (supervisor : Supervisor) (station : Station) : Supervisor :=
  { supervisor with station }

/-- Chores lead from one state of a supervisor to a later one. -/
inductive Chores (origin : Supervisor) : Supervisor → Prop where
  | stay : Chores origin origin
  | write {supervisor : Supervisor} (chores : Chores origin supervisor) (now : Span) {entry : Entry}
      (silent : entry.Silent) (routine : entry.Routine) : Chores origin (supervisor.write now entry)
  | send {supervisor : Supervisor} (chores : Chores origin supervisor) (now : Span) {event : Event}
      (routine : (Entry.published event).Routine) : Chores origin (supervisor.publish now event)
  | watch {supervisor : Supervisor} (chores : Chores origin supervisor) (watchdog : Watchdog) :
      Chores origin (supervisor.withStation { supervisor.station with watchdog })
  | desk {supervisor : Supervisor} (chores : Chores origin supervisor) (fan : FanOut)
      (woken rested : List SupervisorTask) :
      Chores origin { supervisor with fan, woken, rested }
  | relay {supervisor : Supervisor} (chores : Chores origin supervisor) (change : Relay → Relay)
      (keeps : ∀ relay ∈ supervisor.relay, (change relay).progress = relay.progress ∧
        ((change relay).state = .waiting → relay.state = .waiting)) :
      Chores origin (supervisor.setRelay change)
  | call {supervisor : Supervisor} (chores : Chores origin supervisor) (id : Nat)
      (change : Call → Call) (face : ∀ call, (change call).face = call.face)
      (openRuns : ∀ call, (change call).context.openRuns = call.context.openRuns) :
      Chores origin (supervisor.modifyCall id change)
  | stops {supervisor : Supervisor} (chores : Chores origin supervisor) (stops : List Stop) :
      Chores origin { supervisor with stops }
  /-- One that shuts down waits for the lock, gives up its place, or passes the lock on. -/
  | ask {supervisor : Supervisor} (chores : Chores origin supervisor) (id : Nat) :
      Chores origin { supervisor with lock := supervisor.lock.ask (.stop id) }
  | leave {supervisor : Supervisor} (chores : Chores origin supervisor) (id : Nat) :
      Chores origin { supervisor with lock := supervisor.lock.leave (.stop id) }
  | release {supervisor : Supervisor} (chores : Chores origin supervisor) {id : Nat}
      (holds : supervisor.lock.holder = some (.stop id)) :
      Chores origin { supervisor with lock := supervisor.lock.release }

theorem Chores.trans {first second third : Supervisor} (earlier : Chores first second)
    (later : Chores second third) : Chores first third := by
  induction later with
  | stay => exact earlier
  | write _ now silent routine inductionHypothesis =>
      exact inductionHypothesis.write now silent routine
  | send _ now routine inductionHypothesis => exact inductionHypothesis.send now routine
  | watch _ watchdog inductionHypothesis => exact inductionHypothesis.watch watchdog
  | desk _ fan woken rested inductionHypothesis => exact inductionHypothesis.desk fan woken rested
  | relay _ change keeps inductionHypothesis => exact inductionHypothesis.relay change keeps
  | call _ id change face openRuns inductionHypothesis =>
      exact inductionHypothesis.call id change face openRuns
  | stops _ stops inductionHypothesis => exact inductionHypothesis.stops stops
  | ask _ id inductionHypothesis => exact inductionHypothesis.ask id
  | leave _ id inductionHypothesis => exact inductionHypothesis.leave id
  | release _ holds inductionHypothesis => exact inductionHypothesis.release holds

section Steps

variable (supervisor : Supervisor) (now : Span)

theorem chores_wake (task : SupervisorTask) : Chores supervisor (supervisor.wake task) :=
  Chores.stay.desk supervisor.fan _ supervisor.rested

theorem chores_wakeAll (tasks : List SupervisorTask) :
    Chores supervisor (supervisor.wakeAll tasks) :=
  Chores.stay.desk supervisor.fan _ supervisor.rested

theorem chores_rest (task : SupervisorTask) : Chores supervisor (supervisor.rest task) :=
  Chores.stay.desk supervisor.fan supervisor.woken _

theorem chores_setStop (id : Nat) (phase : StopPhase) :
    Chores supervisor (supervisor.setStop id phase) :=
  Chores.stay.stops _

theorem chores_wakeRelay : Chores supervisor supervisor.wakeRelay := by
  unfold wakeRelay
  split
  · rename_i relay known
    split
    · rename_i waits
      have ready : ({ supervisor.wake .relay with relay := some { relay with state := .ready } } :
          Supervisor) = (supervisor.wake .relay).setRelay fun relay =>
            { relay with state := .ready } := by
        simp [setRelay, wake, known]
      rw [ready]
      apply (supervisor.chores_wake .relay).relay
      intro other isRelay
      obtain rfl := Option.some.inj (known.symm.trans isRelay)
      exact ⟨by simp [Relay.progress, waits], nofun⟩
    · exact .stay
  · exact .stay

theorem station_wakeRelay : supervisor.wakeRelay.station = supervisor.station := by
  unfold wakeRelay
  split
  · split <;> rfl
  · rfl

theorem station_publish (event : Event) :
    (supervisor.publish now event).station = supervisor.station.publish now event :=
  station_wakeRelay _

/-- A relay that was told does not wait any more. -/
theorem not_waiting_wakeRelay : supervisor.wakeRelay.relay.map Relay.state ≠ some .waiting := by
  unfold wakeRelay
  split
  · rename_i relay known
    split
    · simp
    · rename_i busy
      simpa [known] using busy
  · rename_i none
    simp [none]

theorem chores_wakeSleepers (id : Nat) : Chores supervisor (supervisor.wakeSleepers id) := by
  unfold wakeSleepers
  split
  · exact .stay
  · exact (supervisor.chores_wakeAll _).call id _ (fun _ => rfl) fun _ => rfl

theorem chores_carryOut {effect : FanOutEffect} (routine : effect.Routine) :
    Chores supervisor (supervisor.carryOut now effect) := by
  cases effect with
  | wake index => exact supervisor.chores_wake _
  | publish event => exact Chores.stay.send now routine
  | write entry => exact Chores.stay.write now routine.1 routine.2

theorem chores_carryOutAll {effects : List FanOutEffect}
    (routine : ∀ effect ∈ effects, effect.Routine) :
    Chores supervisor (effects.foldl (carryOut now) supervisor) := by
  induction effects generalizing supervisor with
  | nil => exact .stay
  | cons effect rest inductionHypothesis =>
      have first := supervisor.chores_carryOut now (routine effect List.mem_cons_self)
      exact first.trans (inductionHypothesis _ fun other member =>
        routine other (List.mem_cons_of_mem _ member))

theorem chores_workerTurn (index : Nat) :
    Chores supervisor (supervisor.workerTurn now index) := by
  have worked : Chores supervisor { supervisor with fan := (supervisor.fan.work index now).1 } :=
    Chores.stay.desk _ supervisor.woken supervisor.rested
  have after := worked.trans (chores_carryOutAll _ now
    (supervisor.fan.routine_of_mem_work index now))
  unfold workerTurn
  dsimp only
  split
  · exact after.trans (chores_rest _ _)
  · exact after

theorem chores_emit (event : Event) : Chores supervisor (supervisor.emit now event) := by
  have emitted : Chores supervisor { supervisor with fan := (supervisor.fan.emit event).1 } :=
    Chores.stay.desk _ supervisor.woken supervisor.rested
  exact emitted.trans (chores_carryOutAll _ now (FanOut.routine_of_mem_offerAll event 0 _))

variable (id : Nat)

theorem chores_cancelCall : Chores supervisor (supervisor.cancelCall id) := by
  have woken : Chores supervisor (supervisor.wakeCall id) := by
    unfold wakeCall
    split
    · exact supervisor.chores_wake _
    · exact .stay
  exact (woken.trans (chores_wakeSleepers _ id)).call id _ (fun _ => rfl) fun _ => rfl

theorem chores_cancelPlans : Chores supervisor supervisor.cancelPlans := by
  have folded : ∀ (ids : List Nat) (supervisor : Supervisor),
      Chores supervisor (ids.foldl cancelCall supervisor) := by
    intro ids
    induction ids with
    | nil => exact fun _ => .stay
    | cons id rest inductionHypothesis =>
        intro supervisor
        exact (supervisor.chores_cancelCall id).trans (inductionHypothesis _)
  exact folded _ supervisor

theorem chores_graceLine {message : String}
    (known : message ∈ ["running plan did not unwind within shutdown grace",
      "event listener did not stop within shutdown grace"]) :
    Chores supervisor (supervisor.write now (.logged (supervisor.graceLine message))) :=
  Chores.stay.write now ⟨rfl, rfl⟩ (Or.inl known)

theorem chores_giveUpRelay : Chores supervisor (supervisor.giveUpRelay now id) :=
  (supervisor.chores_graceLine now (by simp)).trans (chores_setStop _ id .ended)

theorem chores_stopRelay : Chores supervisor (supervisor.stopRelay now id) := by
  have disarmed : Chores supervisor
      { supervisor with station := supervisor.station.disarmWatchdog } := Chores.stay.watch _
  have told := (disarmed.relay (fun relay => { relay with stopping := true })
    fun _ _ => ⟨rfl, fun waits => waits⟩).trans (chores_wakeRelay _)
  unfold stopRelay
  dsimp only
  split
  · exact told.trans (chores_setStop _ id _)
  · split
    · exact told.trans (chores_setStop _ id _)
    · have taken := told.relay (fun relay => { relay with awaited := true })
        fun _ _ => ⟨rfl, fun waits => waits⟩
      split
      · exact taken.trans (chores_setStop _ id _)
      · split
        · exact taken.trans (chores_giveUpRelay _ now id)
        · exact taken.trans (chores_setStop _ id _)

theorem chores_releaseLock (holds : supervisor.lock.holder = some (.stop id)) :
    Chores supervisor supervisor.releaseLock :=
  (supervisor.chores_wakeAll supervisor.lock.release.holder.toList).release holds

theorem chores_giveUpPlan : Chores supervisor (supervisor.giveUpPlan now id) :=
  ((Chores.stay.leave id).trans (chores_graceLine _ now (by simp))).trans
    (chores_stopRelay _ now id)

theorem chores_unwind : Chores supervisor (supervisor.unwind now id) := by
  have asked : Chores supervisor { supervisor with lock := supervisor.lock.ask (.stop id) } :=
    Chores.stay.ask id
  unfold unwind
  dsimp only
  split
  · rename_i holds
    exact (asked.trans (chores_releaseLock _ id holds)).trans (chores_stopRelay _ now id)
  · split
    · exact asked.trans (chores_giveUpPlan _ now id)
    · exact asked.trans (chores_setStop _ id _)

theorem chores_signal (name : String) : Chores supervisor (supervisor.signal name) :=
  (supervisor.chores_wakeAll supervisor.listening).stops _

/-- What makes one that shuts down, or listens for signals, request the shutdown in its turn. -/
def heard? (supervisor : Supervisor) (id : Nat) : Option String :=
  match supervisor.stops[id]? with
  | some ⟨_, .requested⟩ => some "requested"
  | some ⟨_, .listening (some name)⟩ => if supervisor.stopping then none else some name
  | _ => none

theorem chores_stopTurn_of_heard {reason : String} (heard : supervisor.heard? id = some reason) :
    Chores (supervisor.request now reason) (supervisor.stopTurn now id) := by
  unfold heard? at heard
  split at heard
  · rename_i requested
    obtain rfl := Option.some.inj heard
    simp only [stopTurn, requested]
    exact chores_unwind _ now id
  · rename_i signalled
    split at heard
    · cases heard
    · rename_i goesOn
      obtain rfl := Option.some.inj heard
      simp only [stopTurn, signalled, goesOn, Bool.false_eq_true, if_false]
      exact chores_unwind _ now id
  · cases heard

theorem chores_stopTurn_of_unheard (unheard : supervisor.heard? id = none) :
    Chores supervisor (supervisor.stopTurn now id) := by
  unfold stopTurn
  split
  · exact .stay
  · rename_i stop found
    split
    · rename_i signal listening
      split
      · exact supervisor.chores_setStop id .ended
      · rename_i goesOn
        split
        · exact .stay
        · simp only [Bool.not_eq_true] at goesOn
          obtain ⟨onSignal, phase⟩ := stop
          subst listening
          simp [heard?, found, goesOn] at unheard
    · rename_i requested
      obtain ⟨onSignal, phase⟩ := stop
      subst requested
      simp [heard?, found] at unheard
    · split
      · rename_i holds
        exact (supervisor.chores_releaseLock id holds).trans (chores_stopRelay _ now id)
      · split
        · exact supervisor.chores_giveUpPlan now id
        · exact .stay
    · split
      · exact supervisor.chores_setStop id .ended
      · split
        · exact supervisor.chores_giveUpRelay now id
        · exact .stay
    · exact .stay

def requestEvent (reason : String) : Event :=
  (Event.ofKind .shutdownRequested).withReason reason

/-- The first request is published and lets no other plan begin; the rest are chores. -/
theorem chores_request (goesOn : supervisor.stopping = false) (reason : String) :
    Chores { supervisor.publish now (requestEvent reason) with stopping := true }
      (supervisor.request now reason) := by
  simp only [request, goesOn, Bool.false_eq_true, if_false]
  exact (chores_cancelPlans _).trans (chores_wakeAll _ _)

theorem request_of_stopping (stopping : supervisor.stopping = true) (reason : String) :
    supervisor.request now reason = supervisor := by
  simp only [request, stopping, if_true]

end Steps

/-- A turn of the relay that ends after so many steps at the latest. -/
def relayFor (supervisor : Supervisor) (now : Span) (budget : Nat) : Supervisor :=
  match supervisor.relay with
  | none => supervisor
  | some relay =>
      if relay.state = .ended then supervisor
      else relayWithin now budget
        (supervisor.setRelay fun relay => { relay with state := .ready })

/-- The relay leads from one state of a supervisor to a later one: it goes on or ends, notes how
many events it missed, and leaves the rest to chores. -/
inductive Relays (origin : Supervisor) : Supervisor → Prop where
  | stay : Relays origin origin
  | chores {supervisor after : Supervisor} (relays : Relays origin supervisor)
      (chores : Chores supervisor after) : Relays origin after
  | set {supervisor : Supervisor} (relays : Relays origin supervisor) (change : Relay → Relay) :
      Relays origin (supervisor.setRelay change)
  | note {supervisor : Supervisor} (relays : Relays origin supervisor) (now : Span)
      (missed : Nat) : Relays origin (supervisor.write now (.logged (lagLine missed)))

namespace Relays

variable {origin supervisor : Supervisor}

theorem passOn (relays : Relays origin supervisor) (now : Span) (reception : Reception Event) :
    Relays origin (supervisor.passOn now reception) := by
  have idle : Relays origin supervisor.relayIdle := by
    unfold relayIdle
    split
    · exact (relays.set _).chores (chores_wakeAll _ _)
    · exact relays.set _
  cases reception with
  | message event => exact relays.chores (supervisor.chores_emit now event)
  | lagged missed => exact relays.note now missed
  | empty | closed => exact idle

theorem within (relays : Relays origin supervisor) (now : Span) (budget : Nat) :
    Relays origin (relayWithin now budget supervisor) := by
  induction budget generalizing supervisor with
  | zero => exact relays.chores (supervisor.chores_rest .relay)
  | succ budget inductionHypothesis =>
      unfold relayWithin
      split
      · exact relays
      · rename_i relay _
        have stepped : Relays origin (supervisor.relayStep now relay.position).2 :=
          (relays.set _).passOn now _
        split
        all_goals
          rename_i same
          rw [same] at stepped
        · exact inductionHypothesis stepped
        · exact inductionHypothesis stepped
        · exact stepped
        · exact stepped

end Relays

theorem relays_relayFor (supervisor : Supervisor) (now : Span) (budget : Nat) :
    Relays supervisor (supervisor.relayFor now budget) := by
  unfold relayFor
  split
  · exact .stay
  · split
    · exact .stay
    · exact (Relays.stay.set _).within now budget

end Supervisor

end PlanSupervision
