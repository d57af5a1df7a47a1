import PlanSupervision.Proofs.Supervisor.Abreast
import PlanSupervision.Supervisor.Rehearsal

/-!
Plans one after the other do not touch one another. What a call did among others is mirrored on a
supervisor that executes nothing but its plan: the turns of the call and of what it started beside
itself, at the same distance from its beginning, and the resets of the watchdog. The mirror ends as
the call did, and shows the same.
-/

namespace PlanSupervision

open Supervisor

namespace Execution

variable {delay : Span} {station twin : Station}

/-- What happens to two executions, to the one later by a delay, leads to the same. -/
theorem happen_alike (twins : Station.Twins delay station twin) (interval : Span) {course : Course}
    (explicit : course.Explicit) (tick : Span) (context : PlanContext) (now : Span)
    {incident : Incident} {id : Nat} {happening : Happening}
    (happens : incident.happening? = some (id, happening)) :
    Alike delay station twin
      (happen interval ⟨context, station, [], .running (course.delayed delay) (tick + delay)⟩
        (now + delay) happening)
      (happen interval ⟨context, twin, [], .running course tick⟩ now happening) := by
  rcases incident.happening?_cases happens with ⟨rfl, rfl⟩ | ⟨rfl, rfl⟩ | ⟨result, rfl, rfl⟩
  · exact proceed_alike twins interval explicit tick context now
  · exact look_alike twins interval course tick context now []
  · exact conclude_alike twins context now result

theorem happen_explicit (interval : Span) {course : Course} (explicit : course.Explicit)
    (tick : Span) (context : PlanContext) (station : Station) (now : Span) {incident : Incident}
    {id : Nat} {happening : Happening} (happens : incident.happening? = some (id, happening)) :
    Explicit (happen interval ⟨context, station, [], .running course tick⟩ now happening) := by
  rcases incident.happening?_cases happens with ⟨rfl, rfl⟩ | ⟨rfl, rfl⟩ | ⟨result, rfl, rfl⟩
  · exact proceed_explicit explicit interval tick context station now
  · simp only [happen]
    split
    · exact fail_explicit context station now _
    · refine ⟨fun later tick same => ?_, fun _ member => absurd member List.not_mem_nil⟩
      obtain ⟨rfl, _⟩ := ExecutionStanding.running.inj same
      exact explicit
  · exact conclude_explicit context station now result

end Execution

namespace Core

/-- A call that runs, and one that runs alone and is as far sooner by a delay. -/
structure InStep (delay : Span) (id : Nat) (shared alone : Core) : Prop where
  abreast : Abreast delay id shared alone
  orderly : shared.Orderly
  aloneOrderly : alone.Orderly
  running : ∃ course tick, course.Explicit ∧
    shared.phase? id = some (.running (course.delayed delay) (tick + delay)) ∧
      alone.phase? 0 = some (.running course tick)

/-- Both are in step, or have come to the same end. -/
def Level (delay : Span) (id : Nat) (shared alone : Core) : Prop :=
  InStep delay id shared alone ∨
    ∃ result, shared.phase? id = some (.ended result) ∧ alone.phase? 0 = some (.ended result)

variable {delay now : Span} {id : Nat} {shared alone : Core}

theorem InStep.runs (inStep : InStep delay id shared alone) : shared.Runs id := by
  obtain ⟨course, tick, _, running, _⟩ := inStep.running
  exact runs_of_phase? running

/-- Where two executions come to that are alike, there the two calls come to. -/
theorem Abreast.level (abreast : Abreast delay id shared alone) {execution other : Execution}
    (alike : Execution.Alike delay shared.station alone.station execution other)
    (explicit : other.Explicit) (orderly : (shared.settle id execution).Orderly)
    (aloneOrderly : (alone.settle 0 other).Orderly) :
    Level delay id (shared.settle id execution) (alone.settle 0 other) := by
  obtain ⟨seat, twin, found, alsoFound, _⟩ := abreast.contexts
  have settled := seats_settle found id execution
  have alsoSettled := seats_settle alsoFound 0 other
  rw [if_pos rfl] at settled alsoSettled
  have phase : (shared.settle id execution).phase? id = some execution.standing.phase :=
    congrArg (Option.map Seat.phase) settled
  have alsoPhase : (alone.settle 0 other).phase? 0 = some other.standing.phase :=
    congrArg (Option.map Seat.phase) alsoSettled
  rw [alike.standing] at phase
  cases stands : other.standing with
  | running course tick =>
      rw [stands] at phase alsoPhase
      exact Or.inl ⟨abreast.settle alike explicit, orderly, aloneOrderly, course, tick,
        explicit.course course tick stands, phase, alsoPhase⟩
  | ended result =>
      rw [stands] at phase alsoPhase
      exact Or.inr ⟨result, phase, alsoPhase⟩

end Core

namespace Supervisor

open PlanSupervision.Core

variable {delay : Span} {id : Nat} {shared alone supervisor : Supervisor} {incident : Incident}

/-- What is done for a call, as it is done for the same call alone. -/
def Incident.retold (rank : Nat → Nat) : Incident → Incident
  | .move (.turn (.call _)) => .move (.turn (.call 0))
  | .move (.turn (.branch index)) => .move (.turn (.branch (rank index)))
  | .move (.check _) => .move (.check 0)
  | .move (.finish _ result) => .move (.finish 0 result)
  | incident => incident

theorem Incident.happening?_retold (rank : Nat → Nat) {happening : Execution.Happening}
    (happens : incident.happening? = some (id, happening)) :
    (incident.retold rank).happening? = some (0, happening) := by
  rcases incident.happening?_cases happens with ⟨rfl, rfl⟩ | ⟨rfl, rfl⟩ | ⟨result, rfl, rfl⟩
  · rfl
  · rfl
  · rfl

theorem Incident.peaceful_of_happening? {happening : Execution.Happening}
    (happens : incident.happening? = some (id, happening)) : incident.Peaceful := by
  rcases incident.happening?_cases happens with ⟨rfl, rfl⟩ | ⟨rfl, rfl⟩ | ⟨result, rfl, rfl⟩
  · trivial
  · trivial
  · trivial

theorem orderly_occur (orderly : supervisor.core.Orderly) (now : Span)
    (peaceful : incident.Peaceful) : (supervisor.occur now incident).core.Orderly :=
  orderly.outline (outline_occur now orderly.stops orderly.goesOn peaceful)

theorem call_of_seat {seat : Seat} (found : supervisor.core.seats[id]? = some seat) :
    ∃ call, supervisor.calls[id]? = some call ∧ call.seat = seat := by
  have mapped : (supervisor.calls.map Call.seat)[id]? = some seat := found
  rw [List.getElem?_map] at mapped
  exact Option.map_eq_some_iff.mp mapped

theorem parallel_of_core {station twin : Station} {after twinAfter : Supervisor}
    {core twinCore : Core} (same : after.core = core) (alsoSame : twinAfter.core = twinCore)
    (parallel : Station.Parallel delay station core.station twin twinCore.station) :
    Station.Parallel delay station after.station twin twinAfter.station := by
  subst same alsoSame
  exact parallel

/-- What happens to the plan of a call takes the one that is alone as far. -/
theorem happening_step (inStep : InStep delay id shared.core alone.core) (now : Span)
    {happening : Execution.Happening} (happens : incident.happening? = some (id, happening))
    (rank : Nat → Nat) :
    Station.Parallel delay shared.station (shared.occur (now + delay) incident).station
        alone.station (alone.occur now (incident.retold rank)).station ∧
      Level delay id (shared.occur (now + delay) incident).core
        (alone.occur now (incident.retold rank)).core := by
  obtain ⟨abreast, orderly, aloneOrderly, course, tick, explicit, running, alsoRunning⟩ := inStep
  obtain ⟨seat, twin, found, alsoFound, context⟩ := abreast.contexts
  obtain ⟨call, isCall, rfl⟩ := call_of_seat found
  obtain ⟨other, isOther, rfl⟩ := call_of_seat alsoFound
  rw [Core.phase?, found] at running
  rw [Core.phase?, alsoFound] at alsoRunning
  have retold := incident.happening?_retold rank happens
  have after := core_occur_of_running (now + delay) happens isCall (Option.some.inj running)
  have twinAfter := core_occur_of_running now retold isOther (Option.some.inj alsoRunning)
  have sameContext : call.context = other.context := context
  have sameInterval : shared.config.pollInterval = alone.config.pollInterval :=
    congrArg Config.pollInterval abreast.config
  have alike := Execution.happen_alike abreast.twins alone.config.pollInterval explicit tick
    other.context now happens
  have goesOn := Execution.happen_explicit alone.config.pollInterval explicit tick other.context
    alone.station now happens
  have stays := orderly_occur orderly (now + delay) (incident.peaceful_of_happening? happens)
  have alsoStays := orderly_occur aloneOrderly now (Incident.peaceful_of_happening? retold)
  rw [sameContext, sameInterval] at after
  refine ⟨parallel_of_core after twinAfter alike.stations, ?_⟩
  rw [after] at stays ⊢
  rw [twinAfter] at alsoStays ⊢
  exact abreast.level alike goesOn stays alsoStays

/-- What a call started beside itself goes as far as its counterpart. -/
theorem branch_step (inStep : InStep delay id shared.core alone.core) (now : Span) {index : Nat}
    {course : Option Course} (branched : shared.branches[index]? = some ⟨id, course⟩) :
    Station.Parallel delay shared.station (shared.branchTurn (now + delay) index).station
        alone.station (alone.branchTurn now (rank shared.branches id index)).station ∧
      InStep delay id (shared.branchTurn (now + delay) index).core
        (alone.branchTurn now (rank shared.branches id index)).core := by
  obtain ⟨branchTwin, alsoBranched, same, explicit⟩ := inStep.abreast.branch branched
  have counterpart : alone.branches[rank shared.branches id index]? = some ⟨0, branchTwin⟩ :=
    alsoBranched
  obtain ⟨seat, twin, found, alsoFound, context⟩ := inStep.abreast.contexts
  obtain ⟨call, isCall, rfl⟩ := call_of_seat found
  obtain ⟨other, isOther, rfl⟩ := call_of_seat alsoFound
  have sameContext : call.context = other.context := context
  cases branchTwin with
  | none =>
      obtain rfl : course = none := same
      have rests : shared.branchTurn (now + delay) index = shared := by
        simp only [branchTurn, branched]
      have alsoRests : alone.branchTurn now (rank shared.branches id index) = alone := by
        simp only [branchTurn, counterpart]
      rw [rests, alsoRests]
      exact ⟨inStep.abreast.twins.parallel, inStep⟩
  | some course =>
      obtain rfl := same
      have alike := Course.advance_alike inStep.abreast.twins other.context now true
        (explicit course rfl)
      have after := core_branchTurn shared (now + delay) id branched isCall
      have twinAfter := core_branchTurn alone now 0 counterpart isOther
      rw [sameContext] at after
      refine ⟨parallel_of_core after twinAfter alike.stations, ?_⟩
      rw [after, twinAfter]
      have stays : (shared.core.goOn (now + delay) index id (course.delayed delay)
          call.context).Orderly := inStep.orderly.goOn branched found
      rw [sameContext] at stays
      refine ⟨inStep.abreast.goOn branched (explicit course rfl) other.context, stays,
        inStep.aloneOrderly.goOn counterpart alsoFound, ?_⟩
      rw [phase?_goOn, phase?_goOn]
      exact inStep.running

theorem ended_live {result : Except PlanError Unit} {body : Chronicle}
    (orderly : supervisor.core.Orderly) (peaceful : ∀ entry ∈ body, entry.2.Peaceful)
    (ended : supervisor.core.phase? id = some (.ended result)) :
    (supervisor.live body).core.phase? id = some (.ended result) := by
  induction body generalizing supervisor with
  | nil => exact ended
  | cons entry rest inductionHypothesis =>
      have calm := peaceful entry List.mem_cons_self
      have outline := outline_occur entry.1 orderly.stops orderly.goesOn calm
      exact inductionHypothesis (orderly.outline outline)
        (fun other member => peaceful other (List.mem_cons_of_mem entry member))
        (ended_outline ended outline)

def hasEnded (supervisor : Supervisor) (id : Nat) : Bool :=
  match supervisor.phase? id with
  | some (.ended _) => true
  | _ => false

/-- What an incident is for a call on its own: what is done for the call, or a reset if others move
the watchdog. -/
def counterpart? (supervisor : Supervisor) (id : Nat) (now : Span) (incident : Incident) :
    Option Incident :=
  if incident.owner? supervisor.branches = some id then
    some (incident.retold (rank supervisor.branches id))
  else if (supervisor.occur now incident).station.watchdog = supervisor.station.watchdog then none
  else some (.move .reset)

/-- A chronicle as it is for a call on its own, up to the end of the call and from the instant at
which it begins. -/
def mirror (id : Nat) (start : Span) : Supervisor → Chronicle → Chronicle
  | _, [] => []
  | supervisor, (now, incident) :: rest =>
      if supervisor.hasEnded id then []
      else ((supervisor.counterpart? id now incident).map (now - start, ·)).toList ++
        mirror id start (supervisor.occur now incident) rest

/-- What an incident writes for a call. -/
def traceOf (supervisor : Supervisor) (id : Nat) (now : Span) (incident : Incident) : Journal :=
  if incident.owner? supervisor.branches = some id then
    (supervisor.occur now incident).station.journal.drop supervisor.station.journal.length
  else []

/-- What a chronicle writes for a call, up to its end. -/
def traceAlong (id : Nat) : Supervisor → Chronicle → Journal
  | _, [] => []
  | supervisor, (now, incident) :: rest =>
      if supervisor.hasEnded id then []
      else supervisor.traceOf id now incident ++ traceAlong id (supervisor.occur now incident) rest

section Mirror

variable {body : Chronicle} {start : Span}

theorem phase?_core (supervisor : Supervisor) (id : Nat) :
    supervisor.core.phase? id = supervisor.phase? id := by
  simp only [Core.phase?, core, Supervisor.phase?, phaseAt, faces, List.getElem?_map,
    Option.map_map]
  rfl

theorem hasEnded_of_running {course : Course} {tick : Span}
    (running : supervisor.core.phase? id = some (.running course tick)) :
    supervisor.hasEnded id = false := by
  rw [phase?_core] at running
  simp only [hasEnded, running]

theorem hasEnded_of_ended {result : Except PlanError Unit}
    (ended : supervisor.core.phase? id = some (.ended result)) : supervisor.hasEnded id = true := by
  rw [phase?_core] at ended
  simp only [hasEnded, ended]

/-- What is written for a call shows the same as what is written for it alone, where uids are drawn
for its descriptors only. -/
structure Shows (delay : Span) (id : Nat) (shared alone : Supervisor) (now : Span)
    (incident retold : Incident) : Prop where
  sights : (shared.traceOf id (now + delay) incident).sights 0 =
    (alone.traceOf 0 now retold).sights delay
  draws : alone.station.Draws (alone.occur now retold).station (alone.traceOf 0 now retold).drawn

theorem shows_of_parallel {retold : Incident} {now : Span}
    (owned : incident.owner? shared.branches = some id)
    (alsoOwned : retold.owner? alone.branches = some 0)
    (parallel : Station.Parallel delay shared.station
      (shared.occur (now + delay) incident).station alone.station (alone.occur now retold).station) :
    Shows delay id shared alone now incident retold := by
  obtain ⟨written, twinWritten, journal, twinJournal, same, drawn⟩ := parallel.seen
  have trace : shared.traceOf id (now + delay) incident = written := by
    rw [traceOf, if_pos owned, journal, List.drop_left]
  have twinTrace : alone.traceOf 0 now retold = twinWritten := by
    rw [traceOf, if_pos alsoOwned, twinJournal, List.drop_left]
  constructor
  · rw [trace, twinTrace, same]
  · rw [twinTrace]
    exact drawn

/-- What is done for a call leaves both level and shows the same. -/
theorem own_step (inStep : InStep delay id shared.core alone.core) (now : Span)
    (owned : incident.owner? shared.branches = some id) :
    Level delay id (shared.occur (now + delay) incident).core
        (alone.occur now (incident.retold (rank shared.branches id))).core ∧
      Shows delay id shared alone now incident (incident.retold (rank shared.branches id)) := by
  have carried := owned
  unfold Incident.owner? at carried
  split at carried
  · rename_i index
    obtain ⟨⟨caller, course⟩, branched, rfl⟩ := Option.map_eq_some_iff.mp carried
    obtain ⟨parallel, goesOn⟩ := branch_step inStep now branched
    obtain ⟨twin, counterpart, _⟩ := inStep.abreast.branch branched
    exact ⟨Or.inl goesOn,
      shows_of_parallel owned (congrArg (Option.map Branch.call) counterpart) parallel⟩
  · obtain ⟨⟨caller, happening⟩, happens, rfl⟩ := Option.map_eq_some_iff.mp carried
    obtain ⟨parallel, level⟩ := happening_step inStep now happens (rank shared.branches caller)
    have alsoOwned : (incident.retold (rank shared.branches caller)).owner? alone.branches = some 0 :=
      owner?_of_happening? (incident.happening?_retold _ happens)
    exact ⟨level, shows_of_parallel owned alsoOwned parallel⟩

/-- What is done for others leaves both in step, once the reset is mirrored if there was one. -/
theorem others_step (inStep : InStep delay id shared.core alone.core) (now : Span)
    (stranger : incident.owner? shared.branches ≠ some id) (peaceful : incident.Peaceful) :
    ((shared.occur (now + delay) incident).station.watchdog = shared.station.watchdog →
        InStep delay id (shared.occur (now + delay) incident).core alone.core) ∧
      ((shared.occur (now + delay) incident).station.watchdog ≠ shared.station.watchdog →
        InStep delay id (shared.occur (now + delay) incident).core
          (alone.occur now (.move .reset)).core) := by
  have outline := outline_occur (now + delay) inStep.orderly.stops inStep.orderly.goesOn peaceful
  have keeps := inStep.orderly.keeps inStep.runs outline stranger
  obtain ⟨unmoved, moved⟩ := inStep.abreast.keep keeps
  obtain ⟨course, tick, explicit, running, alsoRunning⟩ := inStep.running
  have stays := inStep.orderly.outline outline
  have stillRunning : (shared.occur (now + delay) incident).core.phase? id =
      some (.running (course.delayed delay) (tick + delay)) :=
    (congrArg (Option.map Seat.phase) keeps.seat).trans running
  refine ⟨fun same => ?_, fun different => ?_⟩
  · exact ⟨unmoved same, stays, inStep.aloneOrderly, course, tick, explicit, stillRunning,
      alsoRunning⟩
  · have alsoStays : (alone.occur now (.move .reset)).core.Orderly :=
      orderly_occur inStep.aloneOrderly now trivial
    exact ⟨moved different, stays, alsoStays, course, tick, explicit, stillRunning, alsoRunning⟩

theorem along_of_ended (ended : supervisor.hasEnded id = true) (start : Span) (body : Chronicle) :
    supervisor.mirror id start body = [] ∧ supervisor.traceAlong id body = [] := by
  cases body with
  | nil => exact ⟨rfl, rfl⟩
  | cons entry rest => exact ⟨if_pos ended, if_pos ended⟩

theorem traceAlong_cons (goesOn : supervisor.hasEnded id = false) (now : Span)
    (incident : Incident) (rest : Chronicle) :
    supervisor.traceAlong id ((now, incident) :: rest) =
      supervisor.traceOf id now incident ++ (supervisor.occur now incident).traceAlong id rest := by
  simp only [traceAlong, goesOn, Bool.false_eq_true, if_false]

theorem mirror_cons (goesOn : supervisor.hasEnded id = false) (sooner start : Span)
    (incident : Incident) (rest : Chronicle) :
    supervisor.mirror id start ((sooner + start, incident) :: rest) =
      ((supervisor.counterpart? id (sooner + start) incident).map (sooner, ·)).toList ++
        (supervisor.occur (sooner + start) incident).mirror id start rest := by
  simp only [mirror, goesOn, Bool.false_eq_true, if_false, Nat.add_sub_cancel]

theorem phases_of_level (level : Level delay id shared.core alone.core) :
    shared.phase? id = (alone.phase? 0).map (CallPhase.delayed delay) := by
  rw [← phase?_core, ← phase?_core]
  rcases level with inStep | ⟨result, ended, alsoEnded⟩
  · obtain ⟨course, tick, _, running, alsoRunning⟩ := inStep.running
    rw [running, alsoRunning]
    rfl
  · rw [ended, alsoEnded]
    rfl

/-- A call and its mirror come to the same result, or are as far, and they show the same documents,
events and steps, each at the same distance from the beginning. The mirror takes the uids of its
descriptors, in order, from those that are there to be drawn. -/
structure Mirrors (start : Span) (id : Nat) (shared alone : Supervisor) (body : Chronicle) :
    Prop where
  phase : (shared.live body).phase? id =
    ((alone.live (shared.mirror id start body)).phase? 0).map (CallPhase.delayed start)
  sights : (shared.traceAlong id body).sights 0 =
    (alone.traceAlong 0 (shared.mirror id start body)).sights start
  draws : alone.station.Draws (alone.live (shared.mirror id start body)).station
    (alone.traceAlong 0 (shared.mirror id start body)).drawn

theorem mirrors_of_ended {result : Except PlanError Unit} (orderly : shared.core.Orderly)
    (peaceful : ∀ entry ∈ body, entry.2.Peaceful)
    (ended : shared.core.phase? id = some (.ended result))
    (alsoEnded : alone.core.phase? 0 = some (.ended result)) : Mirrors start id shared alone body := by
  obtain ⟨mirrored, traced⟩ := along_of_ended (hasEnded_of_ended ended) start body
  have stays := ended_live orderly peaceful ended
  rw [phase?_core] at stays alsoEnded
  have same : some (CallPhase.ended result) =
      (some (CallPhase.ended result)).map (CallPhase.delayed start) := rfl
  constructor
  · rw [mirrored, stays, same, ← alsoEnded]
    rfl
  · rw [mirrored, traced]
    rfl
  · rw [mirrored]
    exact .none rfl rfl

theorem Mirrors.own (goesOn : shared.hasEnded id = false) (alsoGoesOn : alone.hasEnded 0 = false)
    {sooner : Span} (owned : incident.owner? shared.branches = some id)
    (shows : Shows start id shared alone sooner incident
      (incident.retold (rank shared.branches id)))
    (rest : Mirrors start id (shared.occur (sooner + start) incident)
      (alone.occur sooner (incident.retold (rank shared.branches id))) body) :
    Mirrors start id shared alone ((sooner + start, incident) :: body) := by
  have mirrored : shared.mirror id start ((sooner + start, incident) :: body) =
      (sooner, incident.retold (rank shared.branches id)) ::
        (shared.occur (sooner + start) incident).mirror id start body := by
    rw [mirror_cons goesOn, counterpart?, if_pos owned]
    rfl
  constructor
  · rw [mirrored]
    exact rest.phase
  · rw [mirrored, traceAlong_cons goesOn, traceAlong_cons alsoGoesOn, Journal.sights_append,
      Journal.sights_append, shows.sights, rest.sights]
  · rw [mirrored, traceAlong_cons alsoGoesOn, Journal.drawn_append]
    exact shows.draws.trans rest.draws

theorem Mirrors.unmoved (inStep : InStep start id shared.core alone.core) {sooner : Span}
    (stranger : incident.owner? shared.branches ≠ some id)
    (same : (shared.occur (sooner + start) incident).station.watchdog = shared.station.watchdog)
    (rest : Mirrors start id (shared.occur (sooner + start) incident) alone body) :
    Mirrors start id shared alone ((sooner + start, incident) :: body) := by
  obtain ⟨course, tick, _, running, _⟩ := inStep.running
  have mirrored : shared.mirror id start ((sooner + start, incident) :: body) =
      (shared.occur (sooner + start) incident).mirror id start body := by
    rw [mirror_cons (hasEnded_of_running running), counterpart?, if_neg stranger, if_pos same]
    rfl
  constructor
  · rw [mirrored]
    exact rest.phase
  · rw [mirrored, traceAlong_cons (hasEnded_of_running running), traceOf, if_neg stranger]
    exact rest.sights
  · rw [mirrored]
    exact rest.draws

theorem Mirrors.moved (inStep : InStep start id shared.core alone.core) {sooner : Span}
    (stranger : incident.owner? shared.branches ≠ some id)
    (different : (shared.occur (sooner + start) incident).station.watchdog ≠
      shared.station.watchdog)
    (rest : Mirrors start id (shared.occur (sooner + start) incident)
      (alone.occur sooner (.move .reset)) body) :
    Mirrors start id shared alone ((sooner + start, incident) :: body) := by
  obtain ⟨course, tick, _, running, alsoRunning⟩ := inStep.running
  have mirrored : shared.mirror id start ((sooner + start, incident) :: body) =
      (sooner, .move .reset) :: (shared.occur (sooner + start) incident).mirror id start body := by
    rw [mirror_cons (hasEnded_of_running running), counterpart?, if_neg stranger, if_neg different]
    rfl
  constructor
  · rw [mirrored]
    exact rest.phase
  · rw [mirrored, traceAlong_cons (hasEnded_of_running running),
      traceAlong_cons (hasEnded_of_running alsoRunning), traceOf, if_neg stranger]
    exact rest.sights
  · have untold : alone.traceOf 0 sooner (.move .reset) = [] := rfl
    have unmoved : alone.station.Draws (alone.occur sooner (.move .reset)).station [] :=
      .none rfl rfl
    rw [mirrored, traceAlong_cons (hasEnded_of_running alsoRunning), untold]
    exact unmoved.trans rest.draws

/-- The uid that is drawn for a descriptor of the one is the uid of its counterpart, if the mirror
comes to draw the same. Then the two tell the same documents. -/
theorem Mirrors.documents (mirrors : Mirrors start id shared alone body)
    (fresh : alone.station.madeUids = 0)
    (same : ∀ number uid, (shared.traceAlong id body).drawn[number]? = some uid →
      (alone.station.draws number).text = uid) :
    (shared.traceAlong id body).documents =
      (alone.traceAlong 0 (shared.mirror id start body)).documents := by
  have asMany := Journal.length_drawn_of_sights mirrors.sights
  have drawn := mirrors.draws.inOrder
  rw [fresh, ← asMany] at drawn
  apply Journal.documents_eq mirrors.sights
  apply List.ext_getElem asMany
  intro number below alsoBelow
  have here := same number _ (List.getElem?_eq_getElem below)
  simp only [drawn, List.getElem_map, List.getElem_range', Nat.zero_add, Nat.one_mul]
  exact here.symm

/-- Whatever is done, a call and its mirror stay level and show the same. -/
theorem mirrors_of_level (level : Level start id shared.core alone.core)
    (orderly : shared.core.Orderly) (peaceful : ∀ entry ∈ body, entry.2.Peaceful)
    (later : ∀ entry ∈ body, start ≤ entry.1) : Mirrors start id shared alone body := by
  induction body generalizing shared alone with
  | nil => exact ⟨phases_of_level level, rfl, .none rfl rfl⟩
  | cons entry rest inductionHypothesis =>
      rcases Or.symm level with ⟨result, ended, alsoEnded⟩ | inStep
      · exact mirrors_of_ended orderly peaceful ended alsoEnded
      obtain ⟨now, incident⟩ := entry
      have peacefulRest : ∀ entry ∈ rest, entry.2.Peaceful := fun entry member =>
        peaceful entry (List.mem_cons_of_mem _ member)
      have laterRest : ∀ entry ∈ rest, start ≤ entry.1 := fun entry member =>
        later entry (List.mem_cons_of_mem _ member)
      have calm : incident.Peaceful := peaceful (now, incident) List.mem_cons_self
      obtain ⟨sooner, rfl⟩ : ∃ sooner, now = sooner + start :=
        ⟨now - start, (Nat.sub_add_cancel (later _ List.mem_cons_self)).symm⟩
      have stays := orderly_occur orderly (sooner + start) calm
      by_cases owned : incident.owner? shared.branches = some id
      · obtain ⟨course, tick, _, running, alsoRunning⟩ := inStep.running
        obtain ⟨stillLevel, shows⟩ := own_step inStep sooner owned
        exact .own (hasEnded_of_running running) (hasEnded_of_running alsoRunning) owned shows
          (inductionHypothesis stillLevel stays peacefulRest laterRest)
      · obtain ⟨unmoved, moved⟩ := others_step inStep sooner owned calm
        by_cases same : (shared.occur (sooner + start) incident).station.watchdog =
            shared.station.watchdog
        · exact .unmoved inStep owned same
            (inductionHypothesis (Or.inl (unmoved same)) stays peacefulRest laterRest)
        · exact .moved inStep owned same
            (inductionHypothesis (Or.inl (moved same)) stays peacefulRest laterRest)

theorem deadlines_call (supervisor : Supervisor) (id : Nat) :
    supervisor.deadlines (.call id) =
      ((supervisor.phase? id).map CallPhase.deadlines).getD [] := by
  cases found : supervisor.calls[id]? with
  | none =>
      have unknown : supervisor.phase? id = none := by
        simp [Supervisor.phase?, phaseAt, faces, found]
      simp only [deadlines, found, unknown]
      rfl
  | some call =>
      have known : supervisor.phase? id = some call.phase := phaseAt_faces found
      obtain ⟨plan, context, sleepers, phase⟩ := call
      simp only [deadlines, found, known]
      cases phase <;> rfl

/-- A call and its mirror wait for the same instants. -/
theorem Mirrors.deadlines (mirrors : Mirrors start id shared alone body) :
    (shared.live body).deadlines (.call id) =
      ((alone.live (shared.mirror id start body)).deadlines (.call 0)).map (· + start) := by
  rw [deadlines_call, deadlines_call, mirrors.phase]
  cases (alone.live (shared.mirror id start body)).phase? 0 with
  | none => rfl
  | some phase => exact phase.deadlines_delayed start

end Mirror

end Supervisor

end PlanSupervision
