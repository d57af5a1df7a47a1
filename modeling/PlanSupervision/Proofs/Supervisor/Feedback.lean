import PlanSupervision.Proofs.FanOut.Reports
import PlanSupervision.Proofs.Supervisor.Accounting

/-!
The way of reports back to the subscribers. What the subscribers report goes over the bus to all of
them, and may be lost there or make them panic once more. The debt of a supervisor is what it has
reported and may still report for the events on their way. Only events from outside raise it, and
panics on reports of losses: without these the reports come to an end, and with them they need not.
-/

namespace PlanSupervision

namespace Supervisor

/-- A turn of the relay or of a worker. -/
def Incident.ofFanOut : Incident → Bool
  | .relay _ | .move (.turn .relay) | .move (.turn (.worker _)) => true
  | _ => false

section Frame

variable (supervisor : Supervisor) (now : Span)

theorem fan_publish (event : Event) : (supervisor.publish now event).fan = supervisor.fan :=
  fan_wakeRelay _

theorem fan_wakeSleepers (id : Nat) : (supervisor.wakeSleepers id).fan = supervisor.fan := by
  unfold wakeSleepers
  split <;> rfl

theorem fan_heedAll (task : SupervisorTask) (id : Nat) (effects : List PlanEffect) :
    (effects.foldl (heed task id) supervisor).fan = supervisor.fan := by
  induction effects generalizing supervisor with
  | nil => rfl
  | cons effect rest inductionHypothesis =>
      rw [List.foldl_cons, inductionHypothesis]
      cases effect with
      | published => exact supervisor.fan_wakeRelay
      | branched steps => rfl
      | stepsBack => rfl
      | awaitsCancellation =>
          change (supervisor.awaitCancellation task id).fan = _
          unfold awaitCancellation
          split <;> rfl
      | cancelled => exact supervisor.fan_wakeSleepers id

theorem fan_takeOver (task : SupervisorTask) (id : Nat) (context : PlanContext)
    (station : Station) (effects : List PlanEffect) :
    (supervisor.takeOver task id context station effects).fan = supervisor.fan :=
  fan_heedAll _ task id effects

theorem fan_settleTurn (id : Nat) (execution : Execution) :
    (supervisor.settleTurn id execution).fan = supervisor.fan := by
  have taken := supervisor.fan_takeOver (.call id) id execution.context execution.station
    execution.effects
  unfold settleTurn
  dsimp only
  split
  · exact taken
  · exact taken

theorem fan_begin (id : Nat) (call : Call) :
    (supervisor.begin now id call).fan = supervisor.fan := by
  unfold begin
  split
  · rfl
  · exact supervisor.fan_settleTurn id _

theorem fan_callTurn (id : Nat) : (supervisor.callTurn now id).fan = supervisor.fan := by
  unfold callTurn
  split
  · rfl
  · split
    · dsimp only
      split
      · exact fan_begin _ now id _
      · rfl
    · split
      · exact supervisor.fan_begin now id _
      · rfl
    · exact supervisor.fan_settleTurn id _
    · rfl
    · rfl

theorem fan_branchTurn (index : Nat) : (supervisor.branchTurn now index).fan = supervisor.fan := by
  unfold branchTurn
  split
  · split
    · rfl
    · dsimp only
      split
      · exact supervisor.fan_takeOver (.branch index) _ _ _ _
      · exact supervisor.fan_takeOver (.branch index) _ _ _ _
  · rfl

theorem fan_dropCall (id : Nat) : (supervisor.dropCall id).fan = supervisor.fan := by
  unfold dropCall
  split
  · rfl
  · split
    · rfl
    · rfl
    · dsimp only
      split <;> rfl

theorem fan_befall (id : Nat) (happening : Execution.Happening) :
    (supervisor.befall now id happening).fan = supervisor.fan := by
  unfold befall
  split
  · exact supervisor.fan_settleTurn id _
  · rfl

theorem fan_cancelCall (id : Nat) : (supervisor.cancelCall id).fan = supervisor.fan := by
  have woken : (supervisor.wakeCall id).fan = supervisor.fan := by
    unfold wakeCall
    split <;> rfl
  exact (fan_wakeSleepers _ id).trans woken

theorem fan_cancelPlans : supervisor.cancelPlans.fan = supervisor.fan := by
  have folded : ∀ (ids : List Nat) (supervisor : Supervisor),
      (ids.foldl cancelCall supervisor).fan = supervisor.fan := by
    intro ids
    induction ids with
    | nil => exact fun _ => rfl
    | cons id rest inductionHypothesis =>
        exact fun supervisor => (inductionHypothesis _).trans (supervisor.fan_cancelCall id)
  exact folded _ supervisor

theorem fan_request (reason : String) : (supervisor.request now reason).fan = supervisor.fan := by
  unfold request
  split
  · rfl
  · exact (fan_cancelPlans _).trans (supervisor.fan_publish now _)

theorem fan_stopRelay (id : Nat) : (supervisor.stopRelay now id).fan = supervisor.fan := by
  have told : ∀ change, (({ supervisor with
      station := supervisor.station.disarmWatchdog } : Supervisor).setRelay change).wakeRelay.fan =
        supervisor.fan := fun _ => fan_wakeRelay _
  unfold stopRelay
  dsimp only
  split
  · exact told _
  · split
    · exact told _
    · split
      · exact told _
      · split
        · exact told _
        · exact told _

theorem fan_giveUpPlan (id : Nat) : (supervisor.giveUpPlan now id).fan = supervisor.fan :=
  fan_stopRelay _ now id

theorem fan_unwind (id : Nat) : (supervisor.unwind now id).fan = supervisor.fan := by
  unfold unwind
  dsimp only
  split
  · exact fan_stopRelay _ now id
  · split
    · exact fan_giveUpPlan _ now id
    · rfl

theorem fan_stopTurn (id : Nat) : (supervisor.stopTurn now id).fan = supervisor.fan := by
  have requested : ∀ reason, ((supervisor.request now reason).unwind now id).fan =
      supervisor.fan :=
    fun reason => (fan_unwind _ now id).trans (supervisor.fan_request now reason)
  unfold stopTurn
  split
  · rfl
  · split
    · split
      · rfl
      · split
        · rfl
        · exact requested _
    · exact requested _
    · split
      · exact fan_stopRelay _ now id
      · split
        · exact supervisor.fan_giveUpPlan now id
        · rfl
    · split
      · rfl
      · split <;> rfl
    · rfl

/-- Nothing but a turn of the relay or of a worker changes the fan-out. -/
theorem fan_occur_of_outside {incident : Incident} (outside : incident.ofFanOut = false) :
    (supervisor.occur now incident).fan = supervisor.fan := by
  cases incident with
  | move move =>
      cases move with
      | turn task =>
          cases task with
          | worker index => cases outside
          | relay => cases outside
          | call id => exact supervisor.fan_callTurn now id
          | branch index => exact supervisor.fan_branchTurn now index
          | stop id => exact supervisor.fan_stopTurn now id
      | announce event nameless => exact supervisor.fan_publish now event
      | check id => exact supervisor.fan_befall now id .check
      | finish id result => exact supervisor.fan_befall now id (.finish result)
      | _ => rfl
  | execute plan => rfl
  | announce event => exact supervisor.fan_publish now event
  | abandon id => exact supervisor.fan_dropCall id
  | withdraw id =>
      simp only [occur, withdraw]
      split <;> rfl
  | hear id name =>
      simp only [occur, hear]
      split
      · exact (fan_unwind _ now id).trans (supervisor.fan_request now name)
      · rfl
  | relay budget => cases outside

end Frame

open FanOutEffect in
theorem bus_carryOutAll (supervisor : Supervisor) (now : Span) (effects : List FanOutEffect) :
    (effects.foldl (carryOut now) supervisor).station.bus =
      { supervisor.station.bus with
        sent := supervisor.station.bus.sent ++ publications effects } := by
  induction effects generalizing supervisor with
  | nil => simp [publications]
  | cons effect rest inductionHypothesis =>
      rw [List.foldl_cons, inductionHypothesis]
      cases effect with
      | wake index => rfl
      | write entry => rfl
      | publish event =>
          have sent : (supervisor.carryOut now (.publish event)).station.bus =
              supervisor.station.bus.send event :=
            congrArg Station.bus (supervisor.station_publish now event)
          have published : publications (.publish event :: rest) = event :: publications rest := rfl
          rw [sent, published, Broadcast.send, List.append_assoc, List.singleton_append]

/-- How many events the relay has passed. -/
def passed (supervisor : Supervisor) : Nat := (supervisor.relay.map Relay.position).getD 0

theorem passed_of_progress {before after : Supervisor}
    (same : after.relay.map Relay.progress = before.relay.map Relay.progress) :
    after.passed = before.passed := by
  have position : ∀ supervisor : Supervisor, supervisor.passed =
      ((supervisor.relay.map Relay.progress).map Prod.fst).getD 0 := by
    intro supervisor
    rw [Option.map_map]
    rfl
  rw [position, position, same]

/-- What the subscribers have reported. -/
def reports (supervisor : Supervisor) : Nat := supervisor.station.bus.sent.countP Event.isReport

/-- The reports that events which so many subscribers are to be given may bring about. -/
def pending (crowd : Nat) (events : List Event) : Nat :=
  (events.map fun event => crowd * event.share crowd).sum

/-- What the subscribers have reported and may still report for events that are on their way, by the
bus or in the queues. -/
def debt (crowd : Nat) (supervisor : Supervisor) : Nat :=
  supervisor.reports + pending crowd (supervisor.station.bus.sent.drop supervisor.passed) +
    FanOut.load crowd supervisor.fan.subscribers

theorem pending_append (crowd : Nat) (earlier later : List Event) :
    pending crowd (earlier ++ later) = pending crowd earlier + pending crowd later := by
  rw [pending, List.map_append, List.sum_append]
  rfl

theorem pending_drop_le (crowd count : Nat) (events : List Event) :
    pending crowd (events.drop count) ≤ pending crowd events := by
  have whole := pending_append crowd (events.take count) (events.drop count)
  rw [List.take_append_drop] at whole
  omega

theorem pending_drop_append_le (crowd count : Nat) (earlier later : List Event) :
    pending crowd ((earlier ++ later).drop count) ≤
      pending crowd (earlier.drop count) + pending crowd later := by
  have rest := pending_drop_le crowd (count - earlier.length) later
  rw [List.drop_append, pending_append]
  omega

/-- An event weighs at most so much before the relay has passed it. -/
theorem weight_le (crowd : Nat) (events : List Event) :
    events.countP Event.isReport + pending crowd events ≤
      (crowd * (crowd + 1) + 1) * events.length := by
  induction events with
  | nil => exact Nat.zero_le _
  | cons event rest inductionHypothesis =>
      have share := Nat.mul_le_mul_left crowd (event.share_le crowd)
      have counted : (event :: rest).countP Event.isReport ≤ rest.countP Event.isReport + 1 := by
        rw [List.countP_cons]
        split <;> omega
      have first : pending crowd (event :: rest) = crowd * event.share crowd + pending crowd rest :=
        rfl
      rw [List.length_cons, Nat.mul_succ, first]
      omega

open FanOutEffect in
theorem weight_of_reports (crowd : Nat) {effects : List FanOutEffect}
    (reports : ∀ report ∈ publications effects, report.isReport = true) :
    (publications effects).countP Event.isReport + pending crowd (publications effects) =
      charge crowd effects := by
  rw [List.countP_eq_length.mpr reports, charge]
  generalize publications effects = published
  induction published with
  | nil => rfl
  | cons event rest inductionHypothesis =>
      simp only [pending, List.map_cons, List.sum_cons, List.length_cons] at inductionHypothesis ⊢
      omega

section Turns

variable {supervisor : Supervisor} {crowd : Nat}

open FanOutEffect in
theorem debt_carryOutAll (supervisor : Supervisor) (crowd : Nat) (fan : FanOut) (now : Span)
    {effects : List FanOutEffect} (routine : ∀ effect ∈ effects, effect.Routine)
    (reports : ∀ report ∈ publications effects, report.isReport = true) :
    debt crowd (effects.foldl (carryOut now) { supervisor with fan }) ≤
      supervisor.reports + pending crowd (supervisor.station.bus.sent.drop supervisor.passed) +
        (FanOut.load crowd fan.subscribers + charge crowd effects) := by
  have bus := bus_carryOutAll { supervisor with fan } now effects
  have passed := passed_of_progress
    (chores_carryOutAll { supervisor with fan } now routine).spares.relay
  have before : ({ supervisor with fan } : Supervisor).passed = supervisor.passed := rfl
  have queues := fan_carryOutAll { supervisor with fan } now effects
  have paid := weight_of_reports crowd reports
  have ahead := pending_drop_append_le crowd supervisor.passed supervisor.station.bus.sent
    (publications effects)
  rw [debt, Supervisor.reports, bus, passed, before, queues, List.countP_append]
  change _ ≤ List.countP _ _ + _ + _
  dsimp only
  omega

/-- An event that reaches the subscribers is paid for. -/
theorem debt_emit (supervisor : Supervisor) (now : Span) (event : Event)
    (size : supervisor.fan.responses.length = crowd) :
    debt crowd (supervisor.emit now event) ≤ debt crowd supervisor + crowd * event.share crowd := by
  have carried := debt_carryOutAll supervisor crowd (supervisor.fan.emit event).1 now
    (FanOut.routine_of_mem_offerAll event 0 supervisor.fan.subscribers)
    (FanOut.isReport_of_mem_offerAll event 0 supervisor.fan.subscribers)
  have paid := FanOut.charge_emit crowd supervisor.fan event
  rw [size] at paid
  apply carried.trans
  change _ + (FanOut.load crowd _ + FanOutEffect.charge crowd (supervisor.fan.emit event).2) ≤ _
  rw [debt]
  omega

theorem debt_workerTurn (composed : ∀ respond ∈ supervisor.fan.responses, FanOut.Composed respond)
    (now : Span) (index : Nat) :
    debt crowd (supervisor.workerTurn now index) ≤
      debt crowd supervisor + (crowd + 1) * supervisor.fan.echoesOf index now := by
  have carried := debt_carryOutAll supervisor crowd (supervisor.fan.work index now).1 now
    (supervisor.fan.routine_of_mem_work index now)
    (supervisor.fan.isReport_of_mem_work index now)
  have paid := FanOut.charge_work crowd composed index now
  have worked : debt crowd (supervisor.workerTurn now index) = debt crowd
      ((supervisor.fan.work index now).2.1.foldl (carryOut now)
        { supervisor with fan := (supervisor.fan.work index now).1 }) := by
    unfold workerTurn
    dsimp only
    split <;> rfl
  rw [worked, debt.eq_def crowd supervisor]
  omega

/-- What a receiver is given next is the next event, or else it has come as far as before or
further. -/
theorem receive_ahead {Message : Type} (channel : Broadcast Message) (position : Nat) :
    (∃ message, (channel.receive position).1 = .message message ∧
      channel.sent.drop position = message :: channel.sent.drop (channel.receive position).2) ∨
    (∀ message, (channel.receive position).1 ≠ .message message) ∧
      position ≤ (channel.receive position).2 := by
  unfold Broadcast.receive
  split
  · exact Or.inr ⟨nofun, by dsimp only; omega⟩
  · split
    · rename_i message next
      obtain ⟨inside, isNext⟩ := List.getElem?_eq_some_iff.mp next
      refine Or.inl ⟨message, rfl, ?_⟩
      rw [List.drop_eq_getElem_cons inside, isNext]
    · refine Or.inr ⟨?_, Nat.le_refl _⟩
      split <;> exact nofun

theorem responses_emitAll (fan : FanOut) (events : List Event) :
    (events.foldl (fun fan event => (fan.emit event).1) fan).responses = fan.responses := by
  induction events generalizing fan with
  | nil => rfl
  | cons event rest inductionHypothesis =>
      exact (inductionHypothesis _).trans (fan.responses_emit event)

theorem debt_setRelay {relay : Relay} (known : supervisor.relay = some relay) (crowd : Nat)
    (change : Relay → Relay) :
    debt crowd (supervisor.setRelay change) =
      supervisor.reports + pending crowd (supervisor.station.bus.sent.drop (change relay).position) +
        FanOut.load crowd supervisor.fan.subscribers := by
  have moved : (supervisor.setRelay change).passed = (change relay).position := by
    rw [passed, setRelay, known]
    rfl
  rw [debt, moved]
  rfl

theorem debt_relayIdle (supervisor : Supervisor) (crowd : Nat) :
    debt crowd supervisor.relayIdle = debt crowd supervisor := by
  have same : ∀ state, (supervisor.setRelay fun relay => { relay with state }).passed =
      supervisor.passed := by
    intro state
    cases known : supervisor.relay with
    | none => rw [passed, setRelay, passed, known]; rfl
    | some relay => rw [passed, setRelay, passed, known]; rfl
  unfold relayIdle
  split
  · change _ + pending crowd (List.drop (supervisor.setRelay _).passed _) + _ = _
    rw [same]
    rfl
  · rw [debt, same]
    rfl

/-- A step of the relay pays for what it passes to the subscribers. -/
theorem debt_relayStep {relay : Relay} (known : supervisor.relay = some relay) (now : Span)
    (size : supervisor.fan.responses.length = crowd) :
    debt crowd (supervisor.relayStep now relay.position).2 ≤ debt crowd supervisor := by
  have reached : supervisor.passed = relay.position := by
    rw [passed, known]
    rfl
  unfold relayStep
  dsimp only
  generalize stepped : (supervisor.setRelay fun former =>
    { former with position := (supervisor.station.bus.receive relay.position).2 }) = after
  have set := debt_setRelay known crowd fun former =>
    { former with position := (supervisor.station.bus.receive relay.position).2 }
  have same : after.fan = supervisor.fan := stepped ▸ rfl
  rw [stepped] at set
  dsimp only at set
  rcases receive_ahead supervisor.station.bus relay.position with
    ⟨event, receives, ahead⟩ | ⟨other, further⟩
  · rw [receives]
    apply (debt_emit after now event (same ▸ size)).trans
    rw [set, debt, reached, ahead]
    change _ ≤ _ + (crowd * event.share crowd + pending crowd _) + _
    omega
  · have fewer : debt crowd after ≤ debt crowd supervisor := by
      have dropped := pending_drop_le crowd
        ((supervisor.station.bus.receive relay.position).2 - relay.position)
        (supervisor.station.bus.sent.drop relay.position)
      rw [List.drop_drop, Nat.add_sub_cancel' further] at dropped
      rw [set, debt, reached]
      omega
    cases kind : (supervisor.station.bus.receive relay.position).1 with
    | message event => exact absurd kind (other event)
    | lagged missed => exact fewer
    | empty | closed => exact (debt_relayIdle after crowd).trans_le fewer

theorem responses_relayStep (supervisor : Supervisor) (now : Span) (position : Nat) :
    (supervisor.relayStep now position).2.fan.responses = supervisor.fan.responses := by
  unfold relayStep
  dsimp only
  cases (supervisor.station.bus.receive position).1 with
  | message event =>
      have emitted : ∀ after : Supervisor, (after.emit now event).fan = (after.fan.emit event).1 :=
        fun after => fan_carryOutAll _ now (after.fan.emit event).2
      exact (congrArg FanOut.responses (emitted _)).trans (supervisor.fan.responses_emit event)
  | lagged missed => rfl
  | empty | closed =>
      simp only [passOn, relayIdle]
      split <;> rfl

theorem debt_relayWithin (now : Span) (budget : Nat)
    (size : supervisor.fan.responses.length = crowd) :
    debt crowd (relayWithin now budget supervisor) ≤ debt crowd supervisor := by
  induction budget generalizing supervisor with
  | zero => exact Nat.le_refl _
  | succ budget inductionHypothesis =>
      unfold relayWithin
      split
      · exact Nat.le_refl _
      · rename_i relay known
        have stepped := debt_relayStep known now size
        have goesOn : debt crowd
            (relayWithin now budget (supervisor.relayStep now relay.position).2) ≤
              debt crowd supervisor :=
          (inductionHypothesis (supervisor.responses_relayStep now relay.position ▸ size)).trans
            stepped
        split
        all_goals
          rename_i same
          rw [same] at stepped goesOn
        · exact goesOn
        · exact goesOn
        · exact stepped
        · exact stepped

theorem debt_relayFor (now : Span) (budget : Nat)
    (size : supervisor.fan.responses.length = crowd) :
    debt crowd (supervisor.relayFor now budget) ≤ debt crowd supervisor := by
  unfold relayFor
  split
  · exact Nat.le_refl _
  · rename_i relay known
    split
    · exact Nat.le_refl _
    · have set := debt_setRelay known crowd fun former => { former with state := .ready }
      have reached : supervisor.passed = relay.position := by
        rw [passed, known]
        rfl
      generalize stepped : (supervisor.setRelay fun former =>
        { former with state := .ready }) = ready
      have same : ready.fan = supervisor.fan := stepped ▸ rfl
      rw [stepped] at set
      apply (debt_relayWithin now budget (same ▸ size)).trans
      rw [set, debt, reached]

end Turns

/-- The events that an incident other than a turn of the relay or of a worker publishes. -/
def outsideIn (supervisor : Supervisor) (now : Span) (incident : Incident) : List Event :=
  if incident.ofFanOut then []
  else (supervisor.occur now incident).station.bus.sent.drop supervisor.station.bus.sent.length

/-- The events that are published from outside the fan-out. -/
def outside (supervisor : Supervisor) : Chronicle → List Event
  | [] => []
  | (now, incident) :: later =>
      supervisor.outsideIn now incident ++ outside (supervisor.occur now incident) later

def echoesIn (supervisor : Supervisor) (now : Span) : Incident → Nat
  | .move (.turn (.worker index)) => supervisor.fan.echoesOf index now
  | _ => 0

/-- How often a subscriber takes the report of a loss to panic on it. -/
def echoes (supervisor : Supervisor) : Chronicle → Nat
  | [] => 0
  | (now, incident) :: later =>
      supervisor.echoesIn now incident + echoes (supervisor.occur now incident) later

section Runs

variable {supervisor : Supervisor} {crowd : Nat}

theorem responses_occur (supervisor : Supervisor) (now : Span) (incident : Incident) :
    (supervisor.occur now incident).fan.responses = supervisor.fan.responses := by
  cases turn : incident.budget? with
  | some budget =>
      rw [supervisor.fan_occur now turn]
      exact responses_emitAll _ _
  | none =>
      cases ofFanOut : incident.ofFanOut with
      | false => rw [supervisor.fan_occur_of_outside now ofFanOut]
      | true =>
          unfold Incident.ofFanOut at ofFanOut
          split at ofFanOut
          · cases turn
          · cases turn
          · rename_i index
            have worked := supervisor.fan.responses_work index now
            have carried : (supervisor.workerTurn now index).fan =
                (supervisor.fan.work index now).1 := by
              unfold workerTurn
              dsimp only
              split
              · exact fan_carryOutAll _ now _
              · exact fan_carryOutAll _ now _
            exact (congrArg FanOut.responses carried).trans worked
          · cases ofFanOut

/-- What happens outside the fan-out adds what its events weigh. -/
theorem debt_outside (now : Span) {incident : Incident} (outside : incident.ofFanOut = false) :
    debt crowd (supervisor.occur now incident) ≤ debt crowd supervisor +
      (crowd * (crowd + 1) + 1) * (supervisor.outsideIn now incident).length := by
  have still : incident.budget? = none := by
    unfold Incident.ofFanOut at outside
    unfold Incident.budget?
    split at outside <;> split <;> simp_all
  have feeds : Feeds supervisor (supervisor.occur now incident) := .occur now still
  obtain ⟨events, bus⟩ := feeds.bus
  have sent : supervisor.outsideIn now incident = events := by
    rw [outsideIn, outside, if_neg Bool.false_ne_true, bus]
    exact List.drop_left
  have weight := weight_le crowd events
  have ahead := pending_drop_append_le crowd supervisor.passed supervisor.station.bus.sent events
  rw [sent, debt, reports, passed_of_progress feeds.relay, bus,
    supervisor.fan_occur_of_outside now outside, List.countP_append, debt, reports]
  dsimp only
  omega

theorem debt_occur (size : supervisor.fan.responses.length = crowd)
    (composed : ∀ respond ∈ supervisor.fan.responses, FanOut.Composed respond)
    (now : Span) (incident : Incident) :
    debt crowd (supervisor.occur now incident) ≤ debt crowd supervisor +
      (crowd * (crowd + 1) + 1) * (supervisor.outsideIn now incident).length +
        (crowd + 1) * supervisor.echoesIn now incident := by
  cases ofFanOut : incident.ofFanOut with
  | false => exact (debt_outside now ofFanOut).trans (Nat.le_add_right _ _)
  | true =>
      have nothing : supervisor.outsideIn now incident = [] := by
        rw [outsideIn, ofFanOut, if_pos rfl]
      rw [nothing]
      unfold Incident.ofFanOut at ofFanOut
      split at ofFanOut
      · exact (debt_relayFor now _ size).trans (Nat.le_add_right _ _)
      · exact (debt_relayFor now turnBudget size).trans (Nat.le_add_right _ _)
      · exact debt_workerTurn composed now _
      · cases ofFanOut

/-- The debt of a whole run is covered by the events from outside and the echoes. -/
theorem debt_live (size : supervisor.fan.responses.length = crowd)
    (composed : ∀ respond ∈ supervisor.fan.responses, FanOut.Composed respond)
    (chronicle : Chronicle) :
    debt crowd (supervisor.live chronicle) ≤ debt crowd supervisor +
      (crowd * (crowd + 1) + 1) * (supervisor.outside chronicle).length +
        (crowd + 1) * supervisor.echoes chronicle := by
  induction chronicle generalizing supervisor with
  | nil => exact Nat.le_refl _
  | cons entry rest inductionHypothesis =>
      obtain ⟨now, incident⟩ := entry
      have same := supervisor.responses_occur now incident
      have first := debt_occur size composed now incident
      have later := inductionHypothesis (same ▸ size) (same ▸ composed)
      change debt crowd ((supervisor.occur now incident).live rest) ≤ _
      rw [outside, echoes, List.length_append, Nat.mul_add (crowd + 1), Nat.mul_add (_ + 1)]
      omega

theorem echoes_of_calm (calm : ∀ respond ∈ supervisor.fan.responses, FanOut.Calm respond)
    (chronicle : Chronicle) : supervisor.echoes chronicle = 0 := by
  induction chronicle generalizing supervisor with
  | nil => rfl
  | cons entry rest inductionHypothesis =>
      obtain ⟨now, incident⟩ := entry
      have silent : supervisor.echoesIn now incident = 0 := by
        unfold echoesIn
        split
        · exact FanOut.echoesOf_of_calm calm _ now
        · rfl
      rw [echoes, silent, inductionHypothesis (supervisor.responses_occur now incident ▸ calm)]

end Runs

/-- A subscriber that panics on whatever it is given, unless that is the report of a panic. -/
def startled : Subscriber :=
  .fresh "startled" 1 fun event =>
    if event.kind = .subscriberPanicked then .done else .panic "startled"

theorem composed_startled : FanOut.Composed startled.respond :=
  fun _ _ ofPanic => by simp [startled, Subscriber.fresh, ofPanic, Response.isPanic]

/-- The relay passes two events on before the worker takes what is in the queue. -/
def rounds : Nat → Chronicle
  | 0 => []
  | count + 1 => (0, .relay 2) :: (0, .move (.turn (.worker 0))) :: rounds count

/-- Two events from outside, and so many rounds. -/
def startle (count : Nat) : Chronicle :=
  let event := Event.ofKind .monitorStarted
  (0, .announce event) :: (0, .announce event) :: rounds count

/-- However the turns of the relay and the workers fall, and whatever else happens: the reports ever
published are bounded in terms of the number of subscribers, the number of events from outside, and
how often a subscriber panics on the report of a loss. If none does so, the first two are enough. -/
theorem reports_bounded (draws : Nat → Uid) (config : Config) (listeners : List Listener)
    (subscribers : List Subscriber) (empty : ∀ subscriber ∈ subscribers, subscriber.queue = [])
    (settled : ∀ subscriber ∈ subscribers, subscriber.owed = 0)
    (composed : ∀ subscriber ∈ subscribers, FanOut.Composed subscriber.respond)
    (chronicle : Chronicle) :
    let origin := buildWith draws config listeners subscribers
    let crowd := subscribers.length
    let perEvent := crowd * (crowd + 1) + 1
    (origin.live chronicle).reports ≤
        perEvent * (origin.outside chronicle).length + (crowd + 1) * origin.echoes chronicle ∧
      ((∀ subscriber ∈ subscribers, FanOut.Calm subscriber.respond) →
        (origin.live chronicle).reports ≤ perEvent * (origin.outside chronicle).length) := by
  intro origin crowd perEvent
  have size : origin.fan.responses.length = crowd := List.length_map _
  have noPanic : ∀ respond ∈ origin.fan.responses, FanOut.Composed respond :=
    List.forall_mem_map.mpr composed
  have fresh : debt crowd origin = 0 := by
    have loads : ∀ subscriber ∈ subscribers, subscriber.load crowd = 0 := by
      intro subscriber member
      rw [Subscriber.load, empty subscriber member, settled subscriber member]
      rfl
    have queues : FanOut.load crowd subscribers = 0 :=
      List.sum_eq_zero (List.forall_mem_map.mpr loads)
    rw [debt]
    change 0 + pending crowd (List.drop origin.passed []) + FanOut.load crowd subscribers = 0
    rw [List.drop_nil, queues]
    rfl
  have covered := debt_live size noPanic chronicle
  have reported : (origin.live chronicle).reports ≤ debt crowd (origin.live chronicle) := by
    rw [debt]
    omega
  rw [fresh, Nat.zero_add] at covered
  refine ⟨reported.trans covered, fun calm => ?_⟩
  have silent : origin.echoes chronicle = 0 := echoes_of_calm (List.forall_mem_map.mpr calm) _
  rw [silent] at covered
  exact reported.trans covered

/-- Two rounds come to four reports, one of which echoes a loss, and to three if the subscriber panics
on no report. -/
theorem two_rounds_covered :
    let origin := buildWith .counted .standard [] [startled]
    let quiet := buildWith .counted .standard [] [.fresh "quiet" 1 fun event =>
      if event.isReport then .done else .panic "quiet"]
    let chronicle := startle 2
    (origin.live chronicle).reports = 4 ∧ origin.echoes chronicle = 1 ∧
      (origin.live chronicle).reports ≤
        3 * (origin.outside chronicle).length + 2 * origin.echoes chronicle ∧
      (quiet.live chronicle).reports = 3 ∧
      (quiet.live chronicle).reports ≤ 3 * (quiet.outside chronicle).length := by
  intro origin quiet chronicle
  have covered := reports_bounded .counted .standard [] [startled] (List.forall_mem_singleton.mpr rfl)
    (List.forall_mem_singleton.mpr rfl) (List.forall_mem_singleton.mpr composed_startled) chronicle
  have calm := reports_bounded .counted .standard [] [.fresh "quiet" 1 fun event =>
      if event.isReport then .done else .panic "quiet"] (List.forall_mem_singleton.mpr rfl)
    (List.forall_mem_singleton.mpr rfl) (List.forall_mem_singleton.mpr fun _ event ofPanic => by
      simp [Subscriber.fresh, Event.isReport, ofPanic, Response.isPanic]) chronicle
  refine ⟨by decide +kernel, by decide +kernel, covered.1, by decide +kernel, calm.2 ?_⟩
  exact List.forall_mem_singleton.mpr fun _ event ofLoss => by
    simp [Subscriber.fresh, Event.isReport, ofLoss, Response.isPanic]

/-- What the fan-out, the bus and the relay of a supervisor are. -/
structure Stands (supervisor : Supervisor) (fan : FanOut) (bus : Broadcast Event)
    (position : Nat) : Prop where
  fan : supervisor.fan = fan
  bus : supervisor.station.bus = bus
  relay : supervisor.relay.map Relay.progress = some (position, false)

namespace Stands

open FanOutEffect

variable {supervisor : Supervisor} {fan : FanOut} {bus : Broadcast Event} {position : Nat}

theorem carryOutAll (stands : Stands supervisor fan bus position) (after : FanOut) (now : Span)
    {effects : List FanOutEffect} (routine : ∀ effect ∈ effects, effect.Routine) :
    Stands (effects.foldl (carryOut now) { supervisor with fan := after }) after
      { bus with sent := bus.sent ++ publications effects } position := by
  refine ⟨fan_carryOutAll _ now effects, ?_, ?_⟩
  · rw [bus_carryOutAll, ← stands.bus]
  · rw [(chores_carryOutAll { supervisor with fan := after } now routine).spares.relay]
    exact stands.relay

/-- The relay passes an event to the subscribers and goes on. -/
theorem pass (stands : Stands supervisor fan bus position) {event : Event}
    (receives : bus.receive position = (.message event, position + 1)) (now : Span)
    (budget : Nat) :
    ∃ after, relayWithin now (budget + 1) supervisor = relayWithin now budget after ∧
      Stands after (fan.emit event).1
        { bus with sent := bus.sent ++ publications (fan.emit event).2 } (position + 1) := by
  obtain ⟨rfl, rfl, progress⟩ := stands
  obtain ⟨relay, known, reached⟩ := Option.map_eq_some_iff.mp progress
  obtain ⟨rfl, goesOn⟩ := Prod.mk.inj reached
  have moved : Stands (supervisor.setRelay fun former =>
      { former with position := relay.position + 1 }) supervisor.fan supervisor.station.bus
        (relay.position + 1) := by
    refine ⟨rfl, rfl, ?_⟩
    rw [setRelay, known]
    exact congrArg (fun ended => some (relay.position + 1, ended)) goesOn
  have emits : Stands ((supervisor.setRelay fun former =>
      { former with position := relay.position + 1 }).emit now event) (supervisor.fan.emit event).1
        { supervisor.station.bus with
          sent := supervisor.station.bus.sent ++ publications (supervisor.fan.emit event).2 }
        (relay.position + 1) :=
    moved.carryOutAll (supervisor.fan.emit event).1 now
      (FanOut.routine_of_mem_offerAll event 0 supervisor.fan.subscribers)
  refine ⟨_, ?_, emits⟩
  simp [relayWithin, known, relayStep, receives, passOn]

theorem workerTurn (stands : Stands supervisor fan bus position) (now : Span) (index : Nat) :
    Stands (supervisor.workerTurn now index) (fan.work index now).1
      { bus with sent := bus.sent ++ publications (fan.work index now).2.1 } position := by
  obtain ⟨rfl, rfl, progress⟩ := stands
  have worked := carryOutAll ⟨rfl, rfl, progress⟩ (supervisor.fan.work index now).1 now
    (supervisor.fan.routine_of_mem_work index now)
  unfold Supervisor.workerTurn
  dsimp only
  split
  · exact ⟨worked.fan, worked.bus, worked.relay⟩
  · exact worked

end Stands

/-- The startled subscriber when it was given so many events. -/
def startledAfter (taken : Nat) : Subscriber := { startled with taken }

/-- Nothing is in the queue of the startled subscriber, and of the two events that the relay has
ahead the first makes it panic, and the loss of the second is reported. -/
def Agitated (supervisor : Supervisor) : Prop :=
  ∃ taken earlier first second, ∃ capacity ≥ 2, first.kind ≠ .subscriberPanicked ∧
    second.kind ≠ .subscriberOverflow ∧
    Stands supervisor (.ofSubscribers [startledAfter taken])
      ⟨capacity, earlier ++ [first, second], false⟩ earlier.length

theorem receive_of_getElem? {Message : Type} {channel : Broadcast Message} {position : Nat}
    {message : Message} (recent : channel.sent.length ≤ position + channel.capacity)
    (next : channel.sent[position]? = some message) :
    channel.receive position = (.message message, position + 1) := by
  have notBehind : ¬ position < channel.oldest := by
    rw [Broadcast.oldest]
    omega
  rw [Broadcast.receive, if_neg notBehind, next]

section Rounds

/-- The startled subscriber with an event in its queue, which is full then. -/
def startledBy (taken : Nat) (event : Event) : Subscriber :=
  { startledAfter taken with queue := [event] }

variable (taken : Nat) (first second : Event)

theorem emit_startled : (FanOut.ofSubscribers [startledAfter taken]).emit first =
    (.ofSubscribers [startledBy taken first], [.wake 0]) :=
  rfl

theorem emit_startledBy (loses : second.kind ≠ .subscriberOverflow) :
    (FanOut.ofSubscribers [startledBy taken first]).emit second =
      (.ofSubscribers [startledBy taken first], [.publish (.overflow "startled" "full")]) := by
  have full : (startledBy taken first).offer second = .error .full := rfl
  have refused : FanOut.offerAll second 0 [startledBy taken first] =
      ([startledBy taken first], [.publish (.overflow "startled" "full")]) := by
    simp only [FanOut.offerAll, full, if_neg loses]
    rfl
  simp only [FanOut.emit, FanOut.ofSubscribers, refused]

theorem work_startledBy (startles : first.kind ≠ .subscriberPanicked) (now : Span) :
    (FanOut.ofSubscribers [startledBy taken first]).work 0 now =
      (.ofSubscribers [startledAfter (taken + 1)],
        [.write (.received "startled" first), .publish (.panicked "startled" "startled")],
        false) := by
  have panics : (startledBy taken first).respond (startledBy taken first).taken first =
      .panic "startled" := if_neg startles
  have took : FanOut.step false now (startledBy taken first) =
      .took first (startledAfter (taken + 1))
        [.write (.received "startled" first), .publish (.panicked "startled" "startled")] := by
    have waits : (startledBy taken first).state = .waiting := rfl
    have queued : (startledBy taken first).queue = [first] := rfl
    simp only [FanOut.step, FanOut.take, waits, queued, panics]
    rfl
  have idle : FanOut.step false now (startledAfter (taken + 1)) =
      .idle (startledAfter (taken + 1)) := rfl
  have turn : FanOut.steps false now turnBudget (startledBy taken first) =
      (startledAfter (taken + 1),
        [.write (.received "startled" first), .publish (.panicked "startled" "startled")],
        false) := by
    rw [turnBudget, FanOut.steps_of_took took, FanOut.steps_of_idle idle]
    rfl
  have found : (FanOut.ofSubscribers [startledBy taken first]).subscribers[0]? =
      some (startledBy taken first) := rfl
  have isOpen : (FanOut.ofSubscribers [startledBy taken first]).closed = false := rfl
  simp only [FanOut.work, found, isOpen, turn]
  rfl

end Rounds

theorem Stands.ready {supervisor : Supervisor} {fan : FanOut} {bus : Broadcast Event}
    {position : Nat} (stands : Stands supervisor fan bus position) (now : Span) (budget : Nat) :
    ∃ ready, supervisor.relayFor now budget = relayWithin now budget ready ∧
      Stands ready fan bus position := by
  obtain ⟨isFan, isBus, progress⟩ := stands
  obtain ⟨relay, known, reached⟩ := Option.map_eq_some_iff.mp progress
  obtain ⟨rfl, goesOn⟩ := Prod.mk.inj reached
  refine ⟨supervisor.setRelay fun former => { former with state := .ready }, ?_,
    ⟨isFan, isBus, ?_⟩⟩
  · have notEnded : relay.state ≠ .ended := of_decide_eq_false goesOn
    simp only [relayFor, known, if_neg notEnded]
  · rw [setRelay, known]
    rfl

/-- A round leads back to where it began, with two reports more. -/
theorem agitated_round {supervisor : Supervisor} (agitated : Agitated supervisor) :
    Agitated ((supervisor.relayFor 0 2).workerTurn 0 0) ∧
      ((supervisor.relayFor 0 2).workerTurn 0 0).reports = supervisor.reports + 2 := by
  obtain ⟨taken, earlier, first, second, capacity, large, startles, loses, stands⟩ := agitated
  have next : (earlier ++ [first, second])[earlier.length]? = some first := by simp
  have last : (earlier ++ [first, second])[earlier.length + 1]? = some second := by simp
  have recent : (earlier ++ [first, second]).length ≤ earlier.length + capacity := by
    simpa using large
  -- The relay puts the first event into the queue.
  obtain ⟨ready, begins, stands₀⟩ := stands.ready 0 2
  obtain ⟨offered, passes, stands₁⟩ := stands₀.pass (receive_of_getElem? recent next) 0 1
  have quiet : FanOutEffect.publications [.wake 0] = [] := rfl
  simp only [emit_startled, quiet, List.append_nil] at stands₁
  -- The second event is lost.
  have stillRecent : (earlier ++ [first, second]).length ≤ earlier.length + 1 + capacity := by omega
  obtain ⟨lost, goesOn, stands₂⟩ := stands₁.pass (receive_of_getElem? stillRecent last) 0 0
  simp only [emit_startledBy taken first second loses] at stands₂
  -- The worker takes the first event and panics.
  have rests : Stands (supervisor.relayFor 0 2) (.ofSubscribers [startledBy taken first])
      ⟨capacity, earlier ++ [first, second] ++ [.overflow "startled" "full"], false⟩
      (earlier.length + 2) := by
    rw [begins, passes, goesOn]
    exact ⟨stands₂.fan, stands₂.bus, stands₂.relay⟩
  have stands₃ := rests.workerTurn 0 0
  simp only [work_startledBy taken first startles] at stands₃
  have after : Stands ((supervisor.relayFor 0 2).workerTurn 0 0)
      (.ofSubscribers [startledAfter (taken + 1)])
      ⟨capacity, earlier ++ [first, second] ++
        [.overflow "startled" "full", .panicked "startled" "startled"], false⟩
      (earlier ++ [first, second]).length := by
    rw [List.append_assoc] at stands₃
    rw [List.length_append]
    exact stands₃
  refine ⟨⟨_, _, _, _, capacity, large, ?_, ?_, after⟩, ?_⟩
  · exact EventKind.noConfusion
  · exact EventKind.noConfusion
  · rw [reports, after.bus, List.countP_append, reports, stands.bus]
    rfl

theorem reports_rounds {supervisor : Supervisor} (agitated : Agitated supervisor) (count : Nat) :
    (supervisor.live (rounds count)).reports = supervisor.reports + 2 * count := by
  induction count generalizing supervisor with
  | zero => rfl
  | succ count inductionHypothesis =>
      obtain ⟨again, more⟩ := agitated_round agitated
      have later := inductionHypothesis again
      change (((supervisor.relayFor 0 2).workerTurn 0 0).live (rounds count)).reports = _
      omega

theorem outside_rounds (supervisor : Supervisor) (count : Nat) :
    supervisor.outside (rounds count) = [] := by
  induction count generalizing supervisor with
  | zero => rfl
  | succ count inductionHypothesis => exact inductionHypothesis _

theorem outsideIn_announce (supervisor : Supervisor) (now : Span) (event : Event) :
    supervisor.outsideIn now (.announce event) = [event] := by
  have sent : (supervisor.publish now event).station.bus.sent =
      supervisor.station.bus.sent ++ [event] := by
    rw [station_publish]
    rfl
  simp only [outsideIn, Incident.ofFanOut, occur, sent, List.drop_left, Bool.false_eq_true,
    if_false]

theorem live_startle (supervisor : Supervisor) (count : Nat) :
    supervisor.live (startle count) = ((supervisor.publish 0 (.ofKind .monitorStarted)).publish 0
      (.ofKind .monitorStarted)).live (rounds count) :=
  rfl

theorem outside_startle (supervisor : Supervisor) (count : Nat) :
    supervisor.outside (startle count) = [.ofKind .monitorStarted, .ofKind .monitorStarted] := by
  rw [startle, outside, outside, outsideIn_announce, outsideIn_announce, outside_rounds]
  rfl

/-- Two events from outside are enough for reports without end, though the subscribers are fresh and
respond to an event alike at any time: the report of a panic finds the queue full, and the report of
that loss makes the subscriber panic again. -/
theorem reports_unbounded :
    ¬ ∃ bound : Nat → Nat → Nat, ∀ (config : Config) (listeners : List Listener)
      (subscribers : List Subscriber) (chronicle : Chronicle),
      (∀ subscriber ∈ subscribers,
        ∃ name capacity respond, subscriber = .fresh name capacity respond) →
      (∀ subscriber ∈ subscribers, FanOut.Composed subscriber.respond) →
      ((build config listeners subscribers).live chronicle).reports ≤
        bound subscribers.length ((build config listeners subscribers).outside chronicle).length := by
  rintro ⟨bound, bounded⟩
  let origin := build .standard [] [startled]
  let event := Event.ofKind .monitorStarted
  let told := (origin.publish 0 event).publish 0 event
  have agitated : Agitated told :=
    ⟨0, [], event, event, 1024, by decide, nofun, nofun, rfl, rfl, rfl⟩
  let count := bound 1 2 + 1
  have none : told.reports = 0 := rfl
  have reported : (origin.live (startle count)).reports = 2 * count := by
    rw [live_startle, reports_rounds agitated, none, Nat.zero_add]
  have limit := bounded .standard [] [startled] (startle count)
    (List.forall_mem_singleton.mpr ⟨_, _, _, rfl⟩) (List.forall_mem_singleton.mpr composed_startled)
  change (origin.live (startle count)).reports ≤ bound 1 (origin.outside (startle count)).length
    at limit
  rw [reported, outside_startle] at limit
  change 2 * (bound 1 2 + 1) ≤ bound 1 2 at limit
  omega

end Supervisor

end PlanSupervision
