import PlanSupervision.Proofs.Plan.Delay
import PlanSupervision.Proofs.Supervisor.Core

/-!
Calls one after the other. A plan is executed only while its call has the lock, and between two plans
the watchdog is as it was in the beginning, whatever the plans before did and however they ended.
-/

namespace PlanSupervision

open Supervisor

namespace Execution

theorem leaves_happen {interval : Span} {course : Course} {tick : Span} {context : PlanContext}
    {station : Station} (now : Span) {incident : Incident} {id : Nat} {happening : Happening}
    (happens : incident.happening? = some (id, happening)) :
    Leaves station
      (happen interval ⟨context, station, [], .running course tick⟩ now happening) := by
  rcases incident.happening?_cases happens with ⟨rfl, rfl⟩ | ⟨rfl, rfl⟩ | ⟨result, rfl, rfl⟩
  · exact leaves_proceed context now interval course tick station
  · simp only [happen]
    split
    · exact leaves_fail context now station _
    · have same : station.Spares now station := .of_same rfl rfl
      exact .of_spares same nofun
  · exact leaves_conclude context now station result

end Execution

namespace Core

def phase? (core : Core) (id : Nat) : Option CallPhase := core.seats[id]?.map Seat.phase

/-- The plan of a call is being executed. -/
def Runs (core : Core) (id : Nat) : Prop :=
  ∃ seat course tick, core.seats[id]? = some seat ∧ seat.phase = .running course tick

/-- Nobody shuts the supervisor down, no observer faults, and a plan is only executed while its call
has the lock. A call that has not begun has a fresh context, in which nobody else acts. -/
structure Orderly (core : Core) : Prop where
  stops : core.stops = []
  goesOn : core.stopping = false
  faultless : core.station.observers.Faultless
  window : core.station.watchdog.window = core.config.watchdogWindow
  single : ∀ id, core.Runs id → core.lock.holder = some (.call id)
  fresh : ∀ id seat, core.seats[id]? = some seat → seat.phase.Unbegun →
    seat.context = ⟨seat.plan.name, [], false⟩ ∧ ∀ branch ∈ core.branches, branch.call ≠ id
  known : ∀ branch ∈ core.branches, branch.call < core.seats.length

/-- While no plan is executed, the watchdog is as it was in the beginning. -/
def Rests (core : Core) : Prop :=
  (∀ id, ¬ core.Runs id) → core.station.watchdog = .ofWindow core.config.watchdogWindow

variable {core after : Core} {now : Span} {incident : Incident}

theorem seat_of_modify {seats : List Seat} {id : Nat} {seat : Seat} (other : Nat)
    (shift : Seat → Seat) (found : seats[id]? = some seat) :
    (seats.modify id shift)[other]? = if id = other then some (shift seat) else seats[other]? := by
  split
  · rename_i here
    rw [← here, List.getElem?_modify_eq, found]
    rfl
  · rename_i elsewhere
    exact List.getElem?_modify_ne shift seats elsewhere

theorem seats_settle {id : Nat} {seat : Seat} (found : core.seats[id]? = some seat) (other : Nat)
    (execution : Execution) :
    (core.settle id execution).seats[other]? = if id = other then
        some { seat with context := execution.context, phase := execution.standing.phase }
      else core.seats[other]? :=
  seat_of_modify other _ found

theorem runs_congr {other : Core} {id : Nat} (same : other.phase? id = core.phase? id) :
    other.Runs id → core.Runs id := by
  rintro ⟨seat, course, tick, found, running⟩
  rw [phase?, found, Option.map_some] at same
  obtain ⟨twin, isThere, samePhase⟩ := Option.map_eq_some_iff.mp same.symm
  exact ⟨twin, course, tick, isThere, samePhase.trans running⟩

theorem runs_of_phase? {id : Nat} {course : Course} {tick : Span}
    (running : core.phase? id = some (.running course tick)) : core.Runs id := by
  obtain ⟨seat, found, same⟩ := Option.map_eq_some_iff.mp running
  exact ⟨seat, course, tick, found, same⟩

theorem not_unbegun (standing : ExecutionStanding) : ¬ standing.phase.Unbegun := by
  cases standing <;> exact nofun

theorem standing_of_phase {standing : ExecutionStanding} {course : Course} {tick : Span}
    (running : standing.phase = .running course tick) : standing = .running course tick := by
  cases standing with
  | running other nextTick =>
      obtain ⟨rfl, rfl⟩ := CallPhase.running.inj running
      rfl
  | ended result => cases running

/-- What a plan starts beside itself belongs to its call. -/
theorem call_of_started {id : Nat} {effects : List PlanEffect} {branch : Branch}
    (member : branch ∈ effects.filterMap (PlanEffect.started? id)) : branch.call = id := by
  obtain ⟨effect, _, starts⟩ := List.mem_filterMap.mp member
  cases effect with
  | branched steps =>
      obtain rfl := Option.some.inj starts
      rfl
  | _ => cases starts

theorem mem_started {earlier : List Branch} {id : Nat} {effects : List PlanEffect} {branch : Branch}
    (member : branch ∈ earlier ++ effects.filterMap (PlanEffect.started? id)) :
    branch ∈ earlier ∨ branch.call = id :=
  (List.mem_append.mp member).imp_right call_of_started

theorem Orderly.settle (orderly : core.Orderly) {id : Nat} {seat : Seat} {lock : Lock SupervisorTask}
    (found : core.seats[id]? = some seat) (holds : lock.holder = some (.call id))
    (alone : ∀ owner, core.lock.holder = some owner → owner = .call id)
    {execution : Execution} (leaves : Execution.Leaves core.station execution) :
    Orderly (Core.settle { core with lock } id execution) := by
  have seats : ∀ other, (Core.settle { core with lock } id execution).seats[other]? = _ := fun other =>
    seats_settle found other execution
  refine ⟨orderly.stops, orderly.goesOn, leaves.faultless orderly.faultless,
    leaves.window.trans orderly.window, ?_, ?_, ?_⟩
  · intro other runs
    by_cases here : id = other
    · subst here
      obtain ⟨after, course, tick, isThere, running⟩ := runs
      rw [seats, if_pos rfl] at isThere
      obtain rfl := Option.some.inj isThere
      have stands := standing_of_phase running
      have kept : (Core.settle { core with lock } id execution).lock = lock := by
        simp only [Core.settle, stands]
      rw [kept]
      exact holds
    · have before : core.Runs other := by
        apply runs_congr _ runs
        rw [phase?, seats, if_neg here]
        rfl
      have other := SupervisorTask.call.inj (alone _ (orderly.single other before))
      exact absurd other.symm here
  · intro other after isThere unbegun
    rw [seats] at isThere
    split at isThere
    · obtain rfl := Option.some.inj isThere
      exact absurd unbegun (not_unbegun execution.standing)
    · rename_i elsewhere
      obtain ⟨context, noBranch⟩ := orderly.fresh other after isThere unbegun
      refine ⟨context, fun branch member => ?_⟩
      rcases mem_started member with before | started
      · exact noBranch branch before
      · exact fun same => elsewhere (started.symm.trans same)
  · intro branch member
    have length : (Core.settle { core with lock } id execution).seats.length = core.seats.length :=
      List.length_modify _ _ _
    rw [length]
    rcases mem_started member with before | started
    · exact orderly.known branch before
    · rw [started]
      exact (List.getElem?_eq_some_iff.mp found).1

theorem phase?_goOn (core : Core) (now : Span) (index id : Nat) (course : Course)
    (context : PlanContext) (other : Nat) :
    (core.goOn now index id course context).phase? other = core.phase? other := by
  simp only [phase?, goOn, takeOver, List.getElem?_modify]
  cases core.seats[other]? with
  | none => simp
  | some seat =>
      by_cases here : id = other
      · simp [here]
      · simp [here]

theorem runs_goOn {index id other : Nat} {course : Course} {context : PlanContext} :
    (core.goOn now index id course context).Runs other ↔ core.Runs other := by
  have same := phase?_goOn core now index id course context other
  exact ⟨runs_congr same, runs_congr same.symm⟩

theorem calls_modify (branches : List Branch) (index : Nat) (course : Option Course) :
    (branches.modify index (Branch.movedTo course)).map Branch.call = branches.map Branch.call := by
  have stays : ∀ branch : Branch, (branch.movedTo course).call = id branch.call := fun _ => rfl
  rw [map_modify branches index stays]
  exact List.modify_id index _

theorem Orderly.goOn (orderly : core.Orderly) {index id : Nat} {course : Course} {seat : Seat}
    (branched : core.branches[index]? = some ⟨id, some course⟩)
    (found : core.seats[id]? = some seat) :
    (core.goOn now index id course seat.context).Orderly := by
  have spares := course.spares_advance seat.context core.station now true
  have belongs : ∀ branch ∈ (core.goOn now index id course seat.context).branches,
      branch.call = id ∨ ∃ before ∈ core.branches, before.call = branch.call := by
    intro branch member
    have called : branch.call ∈ (core.goOn now index id course seat.context).branches.map
        Branch.call := List.mem_map_of_mem member
    rw [branches_goOn, calls_modify] at called
    obtain ⟨before, isBefore, same⟩ := List.mem_map.mp called
    rcases mem_started isBefore with old | new
    · exact Or.inr ⟨before, old, same⟩
    · exact Or.inl (same.symm.trans new)
  refine ⟨orderly.stops, orderly.goesOn, spares.faultless orderly.faultless,
    spares.window.trans orderly.window, fun other runs => orderly.single other (runs_goOn.mp runs),
    ?_, ?_⟩
  · intro other after isThere unbegun
    have busy : ¬ seat.phase.Unbegun := fun waits =>
      (orderly.fresh id seat found waits).2 _ (List.mem_of_getElem? branched) rfl
    simp only [Core.goOn, takeOver, List.getElem?_modify] at isThere
    by_cases here : id = other
    · subst here
      rw [found] at isThere
      simp only [if_true, Option.map_eq_map, Option.map_some] at isThere
      obtain rfl := Option.some.inj isThere
      exact absurd unbegun busy
    · have before : core.seats[other]? = some after := by simpa [here] using isThere
      obtain ⟨context, noBranch⟩ := orderly.fresh other after before unbegun
      refine ⟨context, fun branch member same => ?_⟩
      rcases belongs branch member with own | ⟨old, isOld, sameCall⟩
      · exact here (own.symm.trans same)
      · exact noBranch old isOld (sameCall.trans same)
  · intro branch member
    have length : (core.goOn now index id course seat.context).seats.length = core.seats.length :=
      List.length_modify _ _ _
    rw [length]
    rcases belongs branch member with own | ⟨before, isBefore, same⟩
    · rw [own]
      exact (List.getElem?_eq_some_iff.mp found).1
    · rw [← same]
      exact orderly.known before isBefore

theorem seat_of_append {seats : List Seat} {new seat : Seat} {id : Nat}
    (found : (seats ++ [new])[id]? = some seat) :
    seats[id]? = some seat ∨ id = seats.length ∧ seat = new := by
  rw [List.getElem?_append] at found
  split at found
  · exact Or.inl found
  · rw [List.getElem?_singleton] at found
    split at found
    · exact Or.inr ⟨by omega, (Option.some.inj found).symm⟩
    · cases found

theorem Orderly.enter (orderly : core.Orderly) (plan : Plan) : Orderly { core with
    seats := core.seats ++ [⟨plan, ⟨plan.name, [], false⟩, .entering⟩] } := by
  refine ⟨orderly.stops, orderly.goesOn, orderly.faultless, orderly.window, ?_, ?_, ?_⟩
  · rintro id ⟨seat, course, tick, isThere, running⟩
    rcases seat_of_append isThere with before | ⟨_, rfl⟩
    · exact orderly.single id ⟨seat, course, tick, before, running⟩
    · cases running
  · intro id seat isThere unbegun
    rcases seat_of_append isThere with before | ⟨rfl, rfl⟩
    · exact orderly.fresh id seat before unbegun
    · exact ⟨rfl, fun branch member => Nat.ne_of_lt (orderly.known branch member)⟩
  · intro branch member
    rw [List.length_append]
    exact Nat.lt_add_right _ (orderly.known branch member)

theorem Orderly.queue (orderly : core.Orderly) {id : Nat} {seat : Seat}
    (found : core.seats[id]? = some seat) (entering : seat.phase = .entering)
    {lock : Lock SupervisorTask} (holder : lock.holder = core.lock.holder) :
    Orderly { core with
      lock
      seats := core.seats.modify id fun seat => { seat with phase := .queued } } := by
  have seats := fun other =>
    seat_of_modify other (fun seat => { seat with phase := .queued }) found
  refine ⟨orderly.stops, orderly.goesOn, orderly.faultless, orderly.window, ?_, ?_, ?_⟩
  · rintro other ⟨after, course, tick, isThere, running⟩
    refine holder.trans (orderly.single other ⟨after, course, tick, ?_, running⟩)
    rw [seats] at isThere
    split at isThere
    · obtain rfl := Option.some.inj isThere
      cases running
    · exact isThere
  · intro other after isThere unbegun
    rw [seats] at isThere
    split at isThere
    · rename_i here
      obtain rfl := Option.some.inj isThere
      exact here ▸ orderly.fresh id seat found (Or.inl entering)
    · exact orderly.fresh other after isThere unbegun
  · intro branch member
    rw [List.length_modify]
    exact orderly.known branch member

theorem Orderly.outline (orderly : core.Orderly) (outline : Outline core now incident after) :
    after.Orderly := by
  cases outline with
  | aside watchdog stays =>
      have window := (congrArg Watchdog.window watchdog).trans orderly.window
      exact ⟨orderly.stops, orderly.goesOn, stays orderly.faultless, window, orderly.single,
        orderly.fresh, orderly.known⟩
  | resets isReset =>
      exact ⟨orderly.stops, orderly.goesOn, orderly.faultless, orderly.window, orderly.single,
        orderly.fresh, orderly.known⟩
  | enters plan => exact orderly.enter plan
  | queues found entering holder => exact orderly.queue found entering holder
  | begins isTurn found unbegun holds alone =>
      exact orderly.settle found holds alone (Execution.leaves_begin _ now _ _ _)
  | works happens found running =>
      have holds := orderly.single _ ⟨_, _, _, found, running⟩
      exact orderly.settle found holds (fun owner held => Option.some.inj (held.symm.trans holds))
        (Execution.leaves_happen now happens)
  | branches isTurn branched found => exact orderly.goOn branched found

/-- Outside of the plans nobody moves the watchdog. -/
def Contains (core : Core) (incident : Incident) (after : Core) : Prop :=
  incident.happening?.isSome ∨ (∃ id, core.Runs id) ∨
    after.station.watchdog = core.station.watchdog

theorem Rests.settle (orderly : core.Orderly) {id : Nat} {seat : Seat} {lock : Lock SupervisorTask}
    (found : core.seats[id]? = some seat) {execution : Execution}
    (leaves : Execution.Leaves core.station execution) :
    Rests (Core.settle { core with lock } id execution) := by
  intro nobody
  cases stands : execution.standing with
  | running course tick =>
      have seats : (Core.settle { core with lock } id execution).seats[id]? = _ :=
        seats_settle found id execution
      rw [if_pos rfl, stands] at seats
      exact absurd ⟨_, course, tick, seats, rfl⟩ (nobody id)
  | ended result =>
      have forgotten := leaves.forgotten result stands
      rw [orderly.window] at forgotten
      exact forgotten

theorem Rests.outline (rests : core.Rests) (orderly : core.Orderly)
    (outline : Outline core now incident after) (contains : core.Contains incident after) :
    after.Rests := by
  have spared : after.config = core.config → (∀ id, core.Runs id → after.Runs id) →
      after.station.watchdog = core.station.watchdog → after.Rests := by
    intro config runs watchdog nobody
    rw [watchdog, config]
    exact rests fun id running => nobody id (runs id running)
  have contained : (∀ id, core.Runs id → after.Runs id) → after.config = core.config →
      incident.happening? = none → after.Rests := by
    intro runs config alone
    rcases contains with happens | ⟨id, running⟩ | watchdog
    · rw [alone] at happens
      cases happens
    · exact fun nobody => absurd (runs id running) (nobody id)
    · exact spared config runs watchdog
  cases outline with
  | aside watchdog faultless => exact spared rfl (fun _ runs => runs) watchdog
  | resets isReset =>
      subst isReset
      exact contained (fun _ runs => runs) rfl rfl
  | enters plan =>
      refine spared rfl ?_ rfl
      rintro id ⟨seat, course, tick, found, running⟩
      have isThere := (List.getElem?_eq_some_iff.mp found).1
      exact ⟨seat, course, tick, (List.getElem?_append_left isThere).trans found, running⟩
  | queues found entering holder =>
      refine spared rfl ?_ rfl
      rintro other ⟨seat, course, tick, isThere, running⟩
      refine ⟨seat, course, tick, ?_, running⟩
      dsimp only
      rw [seat_of_modify other _ found, if_neg]
      · exact isThere
      · rintro rfl
        obtain rfl := Option.some.inj (isThere.symm.trans found)
        cases entering.symm.trans running
  | begins isTurn found unbegun holds alone =>
      exact .settle orderly found (Execution.leaves_begin _ now _ _ _)
  | works happens found running =>
      exact Rests.settle orderly found (Execution.leaves_happen now happens)
  | branches isTurn branched found =>
      subst isTurn
      exact contained (fun _ runs => runs_goOn.mpr runs) rfl rfl

theorem ended_of_other {seats : List Seat} {id other : Nat} {seat : Seat} {shift : Seat → Seat}
    {result : Except PlanError Unit} (found : seats[other]? = some seat)
    (goesOn : seat.phase ≠ .ended result)
    (ended : (seats[id]?).map Seat.phase = some (.ended result)) :
    ((seats.modify other shift)[id]?).map Seat.phase = some (.ended result) := by
  rw [List.getElem?_modify_ne]
  · exact ended
  · rintro rfl
    rw [found] at ended
    exact goesOn (Option.some.inj ended)

/-- A call that has come to its end stays there. -/
theorem ended_outline {id : Nat} {result : Except PlanError Unit}
    (ended : core.phase? id = some (.ended result)) (outline : Outline core now incident after) :
    after.phase? id = some (.ended result) := by
  cases outline with
  | aside watchdog faultless => exact ended
  | resets isReset => exact ended
  | enters plan =>
      obtain ⟨seat, found, same⟩ := Option.map_eq_some_iff.mp ended
      have isThere := (List.getElem?_eq_some_iff.mp found).1
      exact (congrArg (Option.map Seat.phase) (List.getElem?_append_left isThere)).trans ended
  | queues found entering holder =>
      refine ended_of_other found ?_ ended
      rw [entering]
      exact nofun
  | begins isTurn found unbegun holds alone =>
      refine ended_of_other found ?_ ended
      rintro same
      rw [same] at unbegun
      exact not_unbegun (.ended result) unbegun
  | works happens found running =>
      refine ended_of_other found ?_ ended
      rw [running]
      exact nofun
  | branches isTurn branched found => exact (phase?_goOn core now _ _ _ _ id).trans ended

end Core

end PlanSupervision
