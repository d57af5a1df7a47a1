import PlanSupervision.Proofs.Plan.Remains
import PlanSupervision.Proofs.Supervisor.Incident

/-!
What of a supervisor counts for its plans: the station, the lock, how far the calls have come and
what they started beside themselves. Who is woken when, and the way of the events to the subscribers,
do not count. As long as nobody shuts the supervisor down or gives a call up, an incident lets a call
enter, queue, begin or go on, gives what a plan started beside itself a turn, resets the watchdog, or
leaves all of that as it is.
-/

namespace PlanSupervision

/-- What of a call counts for its plan. -/
structure Seat where
  plan : Plan
  context : PlanContext
  phase : CallPhase

def Call.seat (call : Call) : Seat := ⟨call.plan, call.context, call.phase⟩

def Standing.course? : Standing → Option Course
  | .open course => some course
  | .ended _ => none

/-- What a plan starts beside itself. -/
def PlanEffect.started? (id : Nat) : PlanEffect → Option Branch
  | branched steps => some ⟨id, some (.ready steps)⟩
  | _ => none

def Branch.movedTo (course : Option Course) (branch : Branch) : Branch := { branch with course }

structure Core where
  config : Config
  station : Station
  lock : Lock SupervisorTask
  seats : List Seat
  branches : List Branch
  stops : List Stop
  stopping : Bool

namespace Core

/-- The context and the station are taken over from the work of a plan. -/
def takeOver (core : Core) (id : Nat) (context : PlanContext) (station : Station)
    (effects : List PlanEffect) : Core :=
  { core with
    station
    seats := core.seats.modify id fun seat => { seat with context }
    branches := core.branches ++ effects.filterMap (PlanEffect.started? id) }

/-- A call goes on, or comes to its end and releases the lock. -/
def settle (core : Core) (id : Nat) (execution : Execution) : Core :=
  { core.takeOver id execution.context execution.station execution.effects with
    seats := core.seats.modify id fun seat =>
      { seat with context := execution.context, phase := execution.standing.phase }
    lock := match execution.standing with
      | .running _ _ => core.lock
      | .ended _ => core.lock.release }

/-- What a plan started beside itself goes on. -/
def goOn (core : Core) (now : Span) (index id : Nat) (course : Course) (context : PlanContext) :
    Core :=
  let advance := course.advance now true context core.station
  let taken := core.takeOver id advance.context advance.station advance.effects
  { taken with
    branches := taken.branches.modify index (Branch.movedTo advance.standing.course?) }

theorem branches_goOn (core : Core) (now : Span) (index id : Nat) (course : Course)
    (context : PlanContext) : (core.goOn now index id course context).branches =
      (core.branches ++ (course.advance now true context core.station).effects.filterMap
        (PlanEffect.started? id)).modify index
          (Branch.movedTo (course.advance now true context core.station).standing.course?) :=
  rfl

end Core

namespace Supervisor

def core (supervisor : Supervisor) : Core :=
  { config := supervisor.config
    station := supervisor.station
    lock := supervisor.lock
    seats := supervisor.calls.map Call.seat
    branches := supervisor.branches
    stops := supervisor.stops
    stopping := supervisor.stopping }

section Steps

variable (supervisor : Supervisor) (now : Span) (id : Nat)

theorem core_modifyCall {change : Call → Call} (shift : Seat → Seat)
    (shifts : ∀ call, (change call).seat = shift call.seat) :
    (supervisor.modifyCall id change).core =
      { supervisor.core with seats := supervisor.core.seats.modify id shift } := by
  simp only [core, modifyCall, map_modify supervisor.calls id shifts]

theorem core_modifyCall_of_same {change : Call → Call}
    (same : ∀ call, (change call).seat = call.seat) :
    (supervisor.modifyCall id change).core = supervisor.core := by
  have stays : supervisor.core.seats.modify id (fun seat => seat) = supervisor.core.seats :=
    List.modify_id id _
  rw [core_modifyCall supervisor id (fun seat => seat) same, stays]

theorem core_wakeRelay : supervisor.wakeRelay.core = supervisor.core := by
  unfold wakeRelay
  split
  · split <;> rfl
  · rfl

theorem core_wakeSleepers : (supervisor.wakeSleepers id).core = supervisor.core := by
  unfold wakeSleepers
  split
  · rfl
  · exact core_modifyCall_of_same (supervisor.wakeAll _) id fun _ => rfl

theorem core_heed (task : SupervisorTask) (effect : PlanEffect) :
    (supervisor.heed task id effect).core = { supervisor.core with
      branches := supervisor.core.branches ++ (effect.started? id).toList } := by
  have same : supervisor.core = { supervisor.core with
      branches := supervisor.core.branches ++ [] } := by
    rw [List.append_nil]
  cases effect with
  | published => exact supervisor.core_wakeRelay.trans same
  | branched steps => rfl
  | stepsBack => exact same
  | awaitsCancellation =>
      refine Eq.trans ?_ same
      simp only [heed, awaitCancellation]
      split
      · rfl
      · exact supervisor.core_modifyCall_of_same id fun _ => rfl
  | cancelled => exact (supervisor.core_wakeSleepers id).trans same

theorem core_heedAll (task : SupervisorTask) (effects : List PlanEffect) :
    (effects.foldl (heed task id) supervisor).core = { supervisor.core with
      branches := supervisor.core.branches ++ effects.filterMap (PlanEffect.started? id) } := by
  induction effects generalizing supervisor with
  | nil =>
      rw [List.filterMap_nil, List.append_nil]
      rfl
  | cons effect rest inductionHypothesis =>
      rw [List.foldl_cons, inductionHypothesis, core_heed, List.append_assoc]
      cases effect <;> rfl

theorem core_takeOver (task : SupervisorTask) (context : PlanContext) (station : Station)
    (effects : List PlanEffect) :
    (supervisor.takeOver task id context station effects).core =
      supervisor.core.takeOver id context station effects := by
  let changed := supervisor.modifyCall id fun call => { call with context }
  have seats : changed.core = { supervisor.core with
      seats := supervisor.core.seats.modify id fun seat => { seat with context } } :=
    supervisor.core_modifyCall id (fun seat => { seat with context }) fun _ => rfl
  have taken : (changed.withStation station).core = { changed.core with station } := rfl
  have heeded := core_heedAll (changed.withStation station) id task effects
  rw [taken, seats] at heeded
  exact heeded

theorem core_setPhase (phase : CallPhase) :
    (supervisor.setPhase id phase).core = { supervisor.core with
      seats := supervisor.core.seats.modify id fun seat => { seat with phase } } :=
  supervisor.core_modifyCall id (fun seat => { seat with phase }) fun _ => rfl

theorem core_finish (result : Except PlanError Unit) :
    (supervisor.finish id result).core = { supervisor.core with
      lock := supervisor.core.lock.release
      seats := supervisor.core.seats.modify id fun seat => { seat with phase := .ended result } } := by
  have ended := core_setPhase supervisor.releaseLock id (.ended result)
  exact ended

/-- A turn of a call that has the lock. -/
theorem core_settleTurn (execution : Execution) :
    (supervisor.settleTurn id execution).core = supervisor.core.settle id execution := by
  have taken := supervisor.core_takeOver id (.call id) execution.context execution.station
    execution.effects
  have twice : ∀ phase, (supervisor.core.seats.modify id fun seat =>
        { seat with context := execution.context }).modify id (fun seat => { seat with phase }) =
      supervisor.core.seats.modify id fun seat =>
        { seat with context := execution.context, phase } := fun phase => by
    rw [List.modify_modify_eq]
    rfl
  unfold settleTurn Core.settle
  dsimp only
  cases execution.standing with
  | running course nextTick =>
      simp only [core_setPhase, taken]
      simp only [Core.takeOver, twice]
      rfl
  | ended result =>
      simp only [core_finish, taken]
      simp only [Core.takeOver, twice]
      rfl

theorem core_begin (goesOn : supervisor.stopping = false) (call : Call) :
    (supervisor.begin now id call).core = supervisor.core.settle id
      (.begin supervisor.config.pollInterval call.plan call.context supervisor.station now) := by
  unfold begin
  rw [goesOn, if_neg Bool.false_ne_true]
  exact supervisor.core_settleTurn id _

theorem core_branchTurn {index : Nat} {course : Course} {call : Call}
    (branched : supervisor.branches[index]? = some ⟨id, some course⟩)
    (found : supervisor.calls[id]? = some call) :
    (supervisor.branchTurn now index).core =
      supervisor.core.goOn now index id course call.context := by
  have taken := supervisor.core_takeOver id (.branch index)
    (course.advance now true call.context supervisor.station).context
    (course.advance now true call.context supervisor.station).station
    (course.advance now true call.context supervisor.station).effects
  have set : ∀ (after : Supervisor) (course : Option Course), (after.setCourse index course).core =
      { after.core with branches := after.core.branches.modify index (Branch.movedTo course) } :=
    fun _ _ => rfl
  have settled : ∀ standing, (course.advance now true call.context supervisor.station).standing =
      standing → ∀ after : Supervisor, after.core = supervisor.core.takeOver id
        (course.advance now true call.context supervisor.station).context
        (course.advance now true call.context supervisor.station).station
        (course.advance now true call.context supervisor.station).effects →
      (after.setCourse index standing.course?).core =
        supervisor.core.goOn now index id course call.context := by
    intro standing stands after same
    rw [set, same, ← stands]
    rfl
  unfold branchTurn
  simp only [branched, found]
  cases stands : (course.advance now true call.context supervisor.station).standing with
  | «open» later => exact settled _ stands _ taken
  | ended result => exact settled _ stands _ taken

end Steps

end Supervisor

/-- Nothing changes but the bus and the journal. -/
def Core.Hums (core after : Core) : Prop :=
  ∃ bus journal, after = { core with station := { core.station with bus, journal } }

namespace Core.Hums

theorem refl (core : Core) : Hums core core := ⟨_, _, rfl⟩

theorem trans {core after last : Core} (first : Hums core after) (second : Hums after last) :
    Hums core last := by
  obtain ⟨bus, journal, rfl⟩ := first
  obtain ⟨later, laterJournal, rfl⟩ := second
  exact ⟨later, laterJournal, rfl⟩

end Core.Hums

namespace Supervisor

section Hums

variable (supervisor : Supervisor) (now : Span)

theorem hums_publish (event : Event) : supervisor.core.Hums (supervisor.publish now event).core := by
  have sent : supervisor.core.Hums
      (supervisor.withStation (supervisor.station.publish now event)).core := ⟨_, _, rfl⟩
  exact (core_wakeRelay (supervisor.withStation _)).symm ▸ sent

theorem hums_carryOutAll (effects : List FanOutEffect) :
    supervisor.core.Hums (effects.foldl (carryOut now) supervisor).core := by
  induction effects generalizing supervisor with
  | nil => exact .refl _
  | cons effect rest inductionHypothesis =>
      refine Core.Hums.trans ?_ (inductionHypothesis (supervisor.carryOut now effect))
      cases effect with
      | wake index => exact .refl _
      | publish event => exact supervisor.hums_publish now event
      | write entry => exact ⟨_, _, rfl⟩

theorem hums_workerTurn (index : Nat) :
    supervisor.core.Hums (supervisor.workerTurn now index).core := by
  have carried := hums_carryOutAll { supervisor with fan := (supervisor.fan.work index now).1 } now
    (supervisor.fan.work index now).2.1
  unfold workerTurn
  dsimp only
  split
  · exact carried
  · exact carried

theorem hums_emit (event : Event) : supervisor.core.Hums (supervisor.emit now event).core :=
  hums_carryOutAll { supervisor with fan := (supervisor.fan.emit event).1 } now
    (supervisor.fan.emit event).2

theorem hums_relayStep (position : Nat) :
    supervisor.core.Hums (supervisor.relayStep now position).2.core := by
  unfold relayStep
  dsimp only
  cases (supervisor.station.bus.receive position).1 with
  | message event => exact hums_emit (supervisor.setRelay _) now event
  | lagged missed => exact ⟨_, _, rfl⟩
  | empty | closed =>
      simp only [passOn, relayIdle]
      split
      · exact .refl _
      · exact .refl _

theorem hums_relayWithin (budget : Nat) :
    supervisor.core.Hums (relayWithin now budget supervisor).core := by
  induction budget generalizing supervisor with
  | zero => exact .refl _
  | succ budget inductionHypothesis =>
      unfold relayWithin
      split
      · exact .refl _
      · rename_i relay known
        have stepped := supervisor.hums_relayStep now relay.position
        split
        all_goals
          rename_i same
          rw [same] at stepped
        · exact stepped.trans (inductionHypothesis _)
        · exact stepped.trans (inductionHypothesis _)
        · exact stepped
        · exact stepped

theorem hums_relayFor (budget : Nat) :
    supervisor.core.Hums (supervisor.relayFor now budget).core := by
  unfold relayFor
  split
  · exact .refl _
  · split
    · exact .refl _
    · exact hums_relayWithin (supervisor.setRelay _) now budget

end Hums

end Supervisor

open Supervisor

/-- What happens to the plan of a call. -/
def Supervisor.Incident.happening? : Incident → Option (Nat × Execution.Happening)
  | .move (.turn (.call id)) => some (id, .turn)
  | .move (.check id) => some (id, .check)
  | .move (.finish id result) => some (id, .finish result)
  | _ => none

theorem Supervisor.Incident.happening?_cases {incident : Incident} {id : Nat}
    {happening : Execution.Happening} (happens : incident.happening? = some (id, happening)) :
    incident = .move (.turn (.call id)) ∧ happening = .turn ∨
      incident = .move (.check id) ∧ happening = .check ∨
        ∃ result, incident = .move (.finish id result) ∧ happening = .finish result := by
  unfold Incident.happening? at happens
  split at happens
  · obtain ⟨rfl, rfl⟩ := Prod.mk.inj (Option.some.inj happens)
    exact Or.inl ⟨rfl, rfl⟩
  · obtain ⟨rfl, rfl⟩ := Prod.mk.inj (Option.some.inj happens)
    exact Or.inr (Or.inl ⟨rfl, rfl⟩)
  · obtain ⟨rfl, rfl⟩ := Prod.mk.inj (Option.some.inj happens)
    exact Or.inr (Or.inr ⟨_, rfl, rfl⟩)
  · cases happens

/-- Nobody shuts the supervisor down or gives a call up, and only listeners subscribe that never
fault. -/
def Supervisor.Incident.Peaceful : Incident → Prop
  | .move (.shutdown _) | .withdraw _ | .abandon _ => False
  | .move (.subscribe listener) => listener.Faultless
  | _ => True

/-- What a peaceful incident does to a supervisor that nobody shuts down. -/
inductive Core.Outline (core : Core) (now : Span) (incident : Incident) : Core → Prop where
  | aside {station : Station} (watchdog : station.watchdog = core.station.watchdog)
      (faultless : core.station.observers.Faultless → station.observers.Faultless) :
      Outline core now incident { core with station }
  | resets (isReset : incident = .move .reset) :
      Outline core now incident { core with station := core.station.resetWatchdog now }
  | enters (plan : Plan) : Outline core now incident
      { core with seats := core.seats ++ [⟨plan, ⟨plan.name, [], false⟩, .entering⟩] }
  | queues {id : Nat} {seat : Seat} (found : core.seats[id]? = some seat)
      (entering : seat.phase = .entering)
      (holder : (core.lock.ask (.call id)).holder = core.lock.holder) :
      Outline core now incident { core with
        lock := core.lock.ask (.call id)
        seats := core.seats.modify id fun seat => { seat with phase := .queued } }
  | begins {id : Nat} {seat : Seat} (isTurn : incident = .move (.turn (.call id)))
      (found : core.seats[id]? = some seat) (unbegun : seat.phase.Unbegun)
      {lock : Lock SupervisorTask} (holds : lock.holder = some (.call id))
      (alone : ∀ owner, core.lock.holder = some owner → owner = .call id) :
      Outline core now incident (Core.settle { core with lock } id
        (.begin core.config.pollInterval seat.plan seat.context core.station now))
  | works {id : Nat} {seat : Seat} {course : Course} {tick : Span}
      {happening : Execution.Happening} (happens : incident.happening? = some (id, happening))
      (found : core.seats[id]? = some seat) (running : seat.phase = .running course tick) :
      Outline core now incident (core.settle id (Execution.happen core.config.pollInterval
        ⟨seat.context, core.station, [], .running course tick⟩ now happening))
  | branches {index id : Nat} {course : Course} {seat : Seat}
      (isTurn : incident = .move (.turn (.branch index)))
      (branched : core.branches[index]? = some ⟨id, some course⟩)
      (found : core.seats[id]? = some seat) :
      Outline core now incident (core.goOn now index id course seat.context)

namespace Core.Outline

variable {core after : Core} {now : Span} {incident : Incident}

theorem stay (core : Core) : Outline core now incident core := .aside rfl id

theorem config (outline : Outline core now incident after) : after.config = core.config := by
  cases outline <;> rfl

theorem of_hums (hums : core.Hums after) : Outline core now incident after := by
  obtain ⟨bus, journal, rfl⟩ := hums
  exact .aside rfl id

end Core.Outline

namespace Supervisor

open PlanSupervision.Core

section Outlines

variable {supervisor : Supervisor} (now : Span)

theorem seat_of_call {id : Nat} {call : Call} (found : supervisor.calls[id]? = some call) :
    supervisor.core.seats[id]? = some call.seat := by
  change (supervisor.calls.map Call.seat)[id]? = _
  rw [List.getElem?_map, found]
  rfl

theorem outline_callTurn (goesOn : supervisor.stopping = false) (id : Nat) :
    Outline supervisor.core now (.move (.turn (.call id))) (supervisor.callTurn now id).core := by
  unfold callTurn
  split
  · exact .stay _
  · rename_i call found
    have seat := seat_of_call found
    split
    · rename_i entering
      dsimp only
      split
      · rename_i holds
        let asked : Supervisor := { supervisor with lock := supervisor.lock.ask (.call id) }
        have begun : (asked.begin now id call).core = _ := asked.core_begin now id goesOn call
        rw [begun]
        refine .begins rfl seat (Or.inl entering) holds fun owner held => ?_
        have kept : (supervisor.lock.ask (.call id)).holder = some owner := Lock.holder_ask held
        exact Option.some.inj (kept.symm.trans holds)
      · rename_i waits
        rw [core_setPhase]
        refine .queues seat entering ?_
        cases held : supervisor.lock.holder with
        | none => simp [Lock.ask, held] at waits
        | some owner => exact Lock.holder_ask held |>.trans held.symm
    · rename_i queued
      split
      · rename_i holds
        rw [core_begin _ now id goesOn]
        refine .begins rfl seat (Or.inr queued) holds fun owner held => ?_
        exact Option.some.inj (held.symm.trans holds)
      · exact .stay _
    · rename_i course tick running
      have happens : Incident.happening? (.move (.turn (.call id))) = some (id, .turn) := rfl
      rw [core_settleTurn]
      exact .works happens seat running
    · exact .stay _
    · exact .stay _

theorem outline_befall {incident : Incident} {id : Nat} {happening : Execution.Happening}
    (happens : incident.happening? = some (id, happening)) :
    Outline supervisor.core now incident (supervisor.befall now id happening).core := by
  unfold befall
  split
  · rename_i found
    rw [core_settleTurn]
    exact .works happens (seat_of_call found) rfl
  · exact .stay _

theorem outline_branchTurn (index : Nat) :
    Outline supervisor.core now (.move (.turn (.branch index)))
      (supervisor.branchTurn now index).core := by
  cases branched : supervisor.branches[index]? with
  | none =>
      simp only [branchTurn, branched]
      exact .stay _
  | some branch =>
      obtain ⟨id, course⟩ := branch
      cases course with
      | none =>
          simp only [branchTurn, branched]
          exact .stay _
      | some course =>
          cases found : supervisor.calls[id]? with
          | none =>
              simp only [branchTurn, branched, found]
              exact .stay _
          | some call =>
              rw [core_branchTurn supervisor now id branched found]
              exact .branches rfl branched (seat_of_call found)

/-- What happens to the plan of a call that runs. -/
theorem core_occur_of_running {incident : Incident} {id : Nat} {happening : Execution.Happening}
    (happens : incident.happening? = some (id, happening)) {call : Call}
    (found : supervisor.calls[id]? = some call) {course : Course} {tick : Span}
    (running : call.phase = .running course tick) :
    (supervisor.occur now incident).core = supervisor.core.settle id
      (Execution.happen supervisor.config.pollInterval
        ⟨call.context, supervisor.station, [], .running course tick⟩ now happening) := by
  obtain ⟨plan, context, sleepers, phase⟩ := call
  obtain rfl := running
  have befell : (supervisor.befall now id happening).core = supervisor.core.settle id
      (Execution.happen supervisor.config.pollInterval
        ⟨context, supervisor.station, [], .running course tick⟩ now happening) := by
    simp only [befall, found]
    exact supervisor.core_settleTurn id _
  rcases incident.happening?_cases happens with ⟨rfl, rfl⟩ | ⟨rfl, rfl⟩ | ⟨result, rfl, rfl⟩
  · have taken : supervisor.callTurn now id = supervisor.befall now id .turn := by
      simp only [callTurn, befall, found]
      rfl
    exact (congrArg Supervisor.core taken).trans befell
  · exact befell
  · exact befell

/-- What an incident does to a supervisor that nobody shuts down. -/
theorem outline_occur (noStops : supervisor.stops = []) (goesOn : supervisor.stopping = false)
    {incident : Incident} (peaceful : incident.Peaceful) :
    Outline supervisor.core now incident (supervisor.occur now incident).core := by
  have entered : ∀ plan, Outline supervisor.core now incident
      ((supervisor.enterCall plan).wake (.call supervisor.calls.length)).core := by
    intro plan
    have seats : (supervisor.enterCall plan).calls.map Call.seat =
        supervisor.core.seats ++ [⟨plan, ⟨plan.name, [], false⟩, .entering⟩] := List.map_append
    have same : ((supervisor.enterCall plan).wake (.call supervisor.calls.length)).core =
        { supervisor.core with
          seats := supervisor.core.seats ++ [⟨plan, ⟨plan.name, [], false⟩, .entering⟩] } :=
      congrArg (fun seats => { supervisor.core with seats }) seats
    exact same ▸ .enters plan
  cases incident with
  | move move =>
      cases move with
      | execute plan alone => exact entered plan
      | shutdown onSignal => exact peaceful.elim
      | signal name =>
          have same : (supervisor.signal name).core = supervisor.core := by
            simp only [signal, wakeAll, core, noStops, List.map_nil]
          exact same ▸ .stay _
      | reset => exact .resets rfl
      | subscribe listener =>
          exact .aside rfl fun faultless => faultless.subscribe peaceful
      | unsubscribe number => exact .aside rfl id
      | dispatch document => exact .aside rfl fun faultless => (faultless.deliver document _).2
      | announce event nameless => exact .of_hums (supervisor.hums_publish now event)
      | turn task =>
          cases task with
          | worker index => exact .of_hums (supervisor.hums_workerTurn now index)
          | relay => exact .of_hums (supervisor.hums_relayFor now turnBudget)
          | call id => exact outline_callTurn now goesOn id
          | branch index => exact outline_branchTurn now index
          | stop id =>
              have same : supervisor.stopTurn now id = supervisor := by
                simp only [stopTurn, noStops, List.getElem?_nil]
              exact (congrArg Supervisor.core same) ▸ .stay _
      | check id => exact outline_befall now rfl
      | finish id result => exact outline_befall now rfl
  | execute plan => exact entered plan
  | announce event => exact .of_hums (supervisor.hums_publish now event)
  | abandon id => exact peaceful.elim
  | withdraw id => exact peaceful.elim
  | hear id name =>
      have same : supervisor.hear now id name = supervisor := by
        simp only [hear, noStops, List.getElem?_nil]
      exact (congrArg Supervisor.core same) ▸ .stay _
  | relay budget => exact .of_hums (supervisor.hums_relayFor now budget)

end Outlines

end Supervisor

end PlanSupervision
