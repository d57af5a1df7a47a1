import PlanSupervision.Proofs.Supervisor.Chores
import PlanSupervision.Proofs.Supervisor.Blocks

/-!
All that can happen to a supervisor. Beside the moves that keep plans apart these are plans that
start something beside themselves, events that others publish in any name, calls and shutdowns
that are given up, signals that are heard although the supervisor shuts down, and turns of the
relay that end early. An incident spares the calls, acts for one of them, lets a call enter,
requests the shutdown or is a turn of the relay.
-/

namespace PlanSupervision

namespace Supervisor

inductive Incident where
  | move (move : Move)
  | execute (plan : Plan)
  | announce (event : Event)
  /-- A call is given up before its end. -/
  | abandon (id : Nat)
  /-- One that shuts down, or listens for signals, is given up. -/
  | withdraw (id : Nat)
  /-- One that listens takes a signal up before it looks whether the supervisor shuts down. -/
  | hear (id : Nat) (name : String)
  /-- The relay takes at most so many steps. -/
  | relay (budget : Nat)

abbrev Chronicle := List (Span × Incident)

def withdraw (supervisor : Supervisor) (id : Nat) : Supervisor :=
  let left := if supervisor.lock.holder = some (.stop id) then supervisor.releaseLock
    else { supervisor with lock := supervisor.lock.leave (.stop id) }
  left.setStop id .ended

def hear (supervisor : Supervisor) (now : Span) (id : Nat) (name : String) : Supervisor :=
  match supervisor.stops[id]? with
  | some ⟨_, .listening _⟩ => (supervisor.request now name).unwind now id
  | _ => supervisor

def occur (supervisor : Supervisor) (now : Span) : Incident → Supervisor
  | .move move => supervisor.step now move
  | .execute plan => (supervisor.enterCall plan).wake (.call supervisor.calls.length)
  | .announce event => supervisor.publish now event
  | .abandon id => supervisor.dropCall id
  | .withdraw id => supervisor.withdraw id
  | .hear id name => supervisor.hear now id name
  | .relay budget => supervisor.relayFor now budget

def live (supervisor : Supervisor) (chronicle : Chronicle) : Supervisor :=
  chronicle.foldl (fun supervisor entry => supervisor.occur entry.1 entry.2) supervisor

/-- An event that others publish. -/
def Incident.announced? : Incident → Option Event
  | .announce event | .move (.announce event _) => some event
  | _ => none

/-- The request of a shutdown that an incident brings. -/
def requested? (supervisor : Supervisor) : Incident → Option String
  | .move (.turn (.stop id)) => supervisor.heard? id
  | .hear id name => if supervisor.stops[id]?.any isListening then some name else none
  | _ => none

/-- How many steps the relay may take. -/
def Incident.budget? : Incident → Option Nat
  | .relay budget => some budget
  | .move (.turn .relay) => some turnBudget
  | _ => none

def isRunning (supervisor : Supervisor) (id : Nat) : Bool :=
  match supervisor.phase? id with
  | some (.running _ _) => true
  | _ => false

/-- The call for which an incident acts. What a plan started beside itself acts for the call as
long as that runs. -/
def actor? (supervisor : Supervisor) : Incident → Option Nat
  | .move (.turn (.branch index)) =>
      (supervisor.branches[index]?.map Branch.call).filter supervisor.isRunning
  | .move move => move.call?
  | _ => none

end Supervisor

/-- The runs that the context of a call has open, and how far the call has come. -/
structure CallView where
  openRuns : List String
  phase : CallPhase

def Call.view (call : Call) : CallView := ⟨call.context.openRuns, call.phase⟩

/-- An entry that is neither the start of a plan, nor the request of a shutdown, nor the note of a
relay that fell behind. -/
def Entry.Ordinary (entry : Entry) : Prop := entry.Routine ∨ entry.OfPlan

namespace Supervisor

def view? (supervisor : Supervisor) (id : Nat) : Option CallView :=
  supervisor.calls[id]?.map Call.view

theorem phase?_eq (supervisor : Supervisor) (id : Nat) :
    supervisor.phase? id = (supervisor.view? id).map CallView.phase := by
  simp only [phase?, phaseAt, faces, view?, List.getElem?_map, Option.map_map]
  rfl

/-- A step that leaves all calls but one as they are, and how far the relay has come. Only
entries that are allowed are written, and these documents are handed over. A relay that waits
after it did so before, and no event was sent. -/
structure Spares (allowed : Entry → Prop) (documents : List Document) (caller : Option Nat)
    (before after : Supervisor) : Prop where
  station : before.station.Passes allowed documents after.station
  views : ∀ id, caller ≠ some id → after.view? id = before.view? id
  relay : after.relay.map Relay.progress = before.relay.map Relay.progress
  stopping : after.stopping = before.stopping
  waits : after.relay.map Relay.state = some .waiting →
    before.relay.map Relay.state = some .waiting ∧
      after.station.bus.position = before.station.bus.position

namespace Spares

variable {allowed permitted : Entry → Prop} {documents more : List Document}
  {caller : Option Nat} {before after last : Supervisor}

theorem trans (first : Spares allowed documents caller before after)
    (second : Spares allowed more caller after last) :
    Spares allowed (documents ++ more) caller before last := by
  refine ⟨first.station.trans second.station,
    fun id other => (second.views id other).trans (first.views id other),
    second.relay.trans first.relay, second.stopping.trans first.stopping, fun waiting => ?_⟩
  obtain ⟨waited, quiet⟩ := second.waits waiting
  obtain ⟨waitedBefore, quietBefore⟩ := first.waits waited
  exact ⟨waitedBefore, quiet.trans quietBefore⟩

theorem mono (allows : ∀ entry, allowed entry → permitted entry)
    (spares : Spares allowed documents caller before after) :
    Spares permitted documents caller before after :=
  ⟨spares.station.mono allows, spares.views, spares.relay, spares.stopping, spares.waits⟩

theorem of_none (caller : Option Nat) (spares : Spares allowed documents none before after) :
    Spares allowed documents caller before after :=
  ⟨spares.station, fun id _ => spares.views id nofun, spares.relay, spares.stopping, spares.waits⟩

theorem of_station (passes : before.station.Passes allowed documents after.station)
    (calls : after.calls = before.calls) (relay : after.relay = before.relay)
    (stopping : after.stopping = before.stopping)
    (quiet : after.station.bus.position = before.station.bus.position) :
    Spares allowed documents caller before after := by
  refine ⟨passes, fun id _ => ?_, ?_, stopping, fun waiting => ?_⟩
  · rw [view?, view?, calls]
  · rw [relay]
  · rw [relay] at waiting
    exact ⟨waiting, quiet⟩

/-- A step that follows upon a change of the station, and by which the relay is told if any event
was sent in the change. -/
theorem after_station {station : Station} (passes : before.station.Passes allowed documents station)
    (spares : Spares allowed more caller (before.withStation station) after)
    (told : station.bus.position = before.station.bus.position ∨
      after.relay.map Relay.state ≠ some .waiting) :
    Spares allowed (documents ++ more) caller before after := by
  refine ⟨passes.trans spares.station, spares.views, spares.relay, spares.stopping,
    fun waiting => ?_⟩
  obtain ⟨waited, quiet⟩ := spares.waits waiting
  exact ⟨waited, quiet.trans (told.resolve_right fun busy => busy waiting)⟩

end Spares

theorem view?_modifyCall (supervisor : Supervisor) (id other : Nat) (change : Call → Call) :
    (supervisor.modifyCall id change).view? other =
      if id = other then supervisor.calls[other]?.map fun call => (change call).view
      else supervisor.view? other := by
  simp only [view?, modifyCall, List.getElem?_modify]
  split <;> cases supervisor.calls[other]? <;> simp

theorem spares_modifyCall (supervisor : Supervisor) (allowed : Entry → Prop) (id : Nat)
    (change : Call → Call) :
    Spares allowed [] (some id) supervisor (supervisor.modifyCall id change) := by
  refine ⟨.stay, fun other different => ?_, rfl, rfl, fun waiting => ⟨waiting, rfl⟩⟩
  rw [view?_modifyCall, if_neg]
  rintro rfl
  exact different rfl

theorem spares_wakeRelay (supervisor : Supervisor) (allowed : Entry → Prop)
    (caller : Option Nat) : Spares allowed [] caller supervisor supervisor.wakeRelay := by
  unfold wakeRelay
  split
  · rename_i relay known
    split
    · rename_i waits
      refine ⟨.stay, fun _ _ => rfl, ?_, rfl, nofun⟩
      simp [known, waits, Relay.progress]
    · exact .of_station .stay rfl rfl rfl rfl
  · exact .of_station .stay rfl rfl rfl rfl

theorem spares_publish (supervisor : Supervisor) (now : Span) {allowed : Entry → Prop}
    (caller : Option Nat) {event : Event} (fine : allowed (.published event)) :
    Spares allowed [] caller supervisor (supervisor.publish now event) :=
  .after_station (Station.Passes.stay.publish now fine) (spares_wakeRelay _ allowed caller)
    (Or.inr (not_waiting_wakeRelay _))

theorem Chores.spares {before after : Supervisor} (chores : Chores before after) :
    Spares Entry.Ordinary [] none before after := by
  induction chores with
  | stay => exact .of_station .stay rfl rfl rfl rfl
  | write _ now silent routine inductionHypothesis =>
      apply inductionHypothesis.trans
      refine .of_station (Station.Passes.stay.write now ?_ ?_) rfl rfl rfl rfl
      all_goals
        intro entry member
        obtain rfl := List.mem_singleton.mp member
      · exact silent
      · exact Or.inl routine
  | send _ now routine inductionHypothesis =>
      exact inductionHypothesis.trans (spares_publish _ now none (Or.inl routine))
  | watch _ watchdog inductionHypothesis =>
      apply inductionHypothesis.trans
      exact .of_station (Station.Passes.stay.watch watchdog) rfl rfl rfl rfl
  | relay _ change keeps inductionHypothesis =>
      rename_i supervisor _
      apply inductionHypothesis.trans
      cases known : supervisor.relay with
      | none =>
          have unchanged : (supervisor.setRelay change).relay = supervisor.relay := by
            simp [setRelay, known]
          exact .of_station .stay rfl unchanged rfl rfl
      | some relay =>
          obtain ⟨progress, waits⟩ := keeps relay known
          refine ⟨.stay, fun _ _ => rfl, ?_, rfl, ?_⟩
          · simp [setRelay, known, progress]
          · simpa [setRelay, known] using waits
  | call _ id change face openRuns inductionHypothesis =>
      apply inductionHypothesis.trans
      refine ⟨.stay, fun other _ => ?_, rfl, rfl, fun waiting => ⟨waiting, rfl⟩⟩
      rw [view?_modifyCall]
      split
      · rw [view?]
        congr 1
        funext call
        have phase : (change call).phase = call.phase := congrArg Face.phase (face call)
        rw [Call.view, openRuns, phase]
        rfl
      · rfl
  | desk | stops | ask | leave | release =>
      rename_i inductionHypothesis
      exact inductionHypothesis.trans (.of_station .stay rfl rfl rfl rfl)

end Supervisor

/-- The plan of the call has not begun, and nobody has given it up. -/
def CallPhase.Unbegun (phase : CallPhase) : Prop := phase = .entering ∨ phase = .queued

def ExecutionStanding.phase : ExecutionStanding → CallPhase
  | running course nextTick => .running course nextTick
  | ended result => .ended result

/-- An entry that an incident may leave that acts for a call. A plan starts unless the supervisor
shuts down. -/
def Entry.OfCall (stopping : Bool) (entry : Entry) : Prop :=
  entry.Ordinary ∨ stopping = false ∧
    ∃ plan, entry = .published ((Event.ofKind .planStarting).withPlan plan)

/-- How a call goes on, and the documents that its plan hands over. -/
inductive Advances (stopping : Bool) (view : CallView) : List Document → CallView → Prop where
  | waits (entering : view.phase = .entering) :
      Advances stopping view [] { view with phase := .queued }
  | refused (unbegun : view.phase.Unbegun) (stops : stopping = true) :
      Advances stopping view [] { view with phase := .ended refusal }
  | works {documents : List Document} {openRuns : List String} (standing : ExecutionStanding)
      (begins : view.phase.Unbegun ∧ stopping = false ∨
        ∃ course tick, view.phase = .running course tick)
      (tracked : openRuns = documents.foldl Document.track view.openRuns)
      (closed : ∀ error, standing = .ended (.error error) → openRuns = []) :
      Advances stopping view documents ⟨openRuns, standing.phase⟩
  | dropped (unfinished : ∀ result, view.phase ≠ .ended result) :
      Advances stopping view [] { view with phase := .dropped }

namespace Supervisor

/-- A step that acts for one call, in whose context and for whose plan the documents are handed
over. -/
structure Acts (id : Nat) (call : Call) (documents : List Document) (before after : Supervisor) :
    Prop where
  spares : Spares (Entry.OfCall before.stopping) documents (some id) before after
  advances : ∃ later, after.view? id = some later ∧
    Advances before.stopping call.view documents later

/-- What a plan started beside itself acts in the context of its call, which stands where it
stood. -/
structure Besides (id : Nat) (call : Call) (documents : List Document)
    (before after : Supervisor) : Prop where
  spares : Spares (Entry.OfCall before.stopping) documents (some id) before after
  view : after.view? id =
    some { call.view with openRuns := documents.foldl Document.track call.view.openRuns }

section Turns

variable {supervisor : Supervisor} {id : Nat} {call : Call} {documents : List Document}

theorem view?_of_call (found : supervisor.calls[id]? = some call) :
    supervisor.view? id = some call.view := by
  rw [view?, found]
  rfl

theorem spares_heed (supervisor : Supervisor) (task : SupervisorTask) (id : Nat)
    (effect : PlanEffect) : Spares Entry.Ordinary [] none supervisor (supervisor.heed task id effect) := by
  cases effect with
  | published => exact (supervisor.chores_wakeRelay).spares
  | branched steps => exact .of_station .stay rfl rfl rfl rfl
  | stepsBack => exact (supervisor.chores_rest task).spares
  | awaitsCancellation =>
      simp only [heed, awaitCancellation]
      split
      · exact Chores.stay.spares
      · have waits : Chores supervisor (supervisor.modifyCall id fun call =>
            { call with sleepers := call.sleepers.filter (· != task) ++ [task] }) :=
          Chores.stay.call id _ (fun _ => rfl) fun _ => rfl
        exact waits.spares
  | cancelled => exact (supervisor.chores_wakeSleepers id).spares

theorem spares_heedAll (supervisor : Supervisor) (task : SupervisorTask) (id : Nat)
    (effects : List PlanEffect) :
    Spares Entry.Ordinary [] none supervisor (effects.foldl (heed task id) supervisor) := by
  induction effects generalizing supervisor with
  | nil => exact Chores.stay.spares
  | cons effect rest inductionHypothesis =>
      exact (supervisor.spares_heed task id effect).trans (inductionHypothesis _)

/-- Among effects that tell of an event, the relay is told. -/
theorem not_waiting_heedAll (supervisor : Supervisor) (task : SupervisorTask) (id : Nat)
    {effects : List PlanEffect} (told : .published ∈ effects) :
    (effects.foldl (heed task id) supervisor).relay.map Relay.state ≠ some .waiting := by
  obtain ⟨earlier, later, rfl⟩ := List.append_of_mem told
  rw [List.foldl_append, List.foldl_cons]
  intro waiting
  have waited := (spares_heedAll _ task id later).waits waiting
  exact not_waiting_wakeRelay _ waited.1

/-- The context and the station are taken over from the work of a plan. -/
theorem spares_takeOver (id : Nat) {stopping : Bool} (task : SupervisorTask)
    (context : PlanContext) {station : Station} (effects : List PlanEffect)
    (passes : supervisor.station.Passes (Entry.OfCall stopping) documents station)
    (tells : supervisor.station.Tells station effects) :
    let after := supervisor.takeOver task id context station effects
    Spares (Entry.OfCall stopping) documents (some id) supervisor after ∧
      after.view? id = (supervisor.view? id).map fun view =>
        { view with openRuns := context.openRuns } := by
  intro after
  let changed := supervisor.modifyCall id fun call => { call with context }
  have heeded := spares_heedAll (changed.withStation station) task id effects
  refine ⟨?_, ?_⟩
  · have told : station.bus.position = changed.station.bus.position ∨
        after.relay.map Relay.state ≠ some .waiting :=
      tells.imp_right fun told => not_waiting_heedAll _ task id told
    have taken := (supervisor.spares_modifyCall (Entry.OfCall stopping) id _).trans
      (.after_station passes ((heeded.mono fun _ => Or.inl).of_none (some id)) told)
    rwa [List.nil_append, List.append_nil] at taken
  · have view := view?_modifyCall supervisor id id fun call => { call with context }
    have unchanged : after.view? id = changed.view? id := heeded.views id nofun
    rw [unchanged, view, if_pos rfl, view?, Option.map_map]
    rfl

theorem view?_setPhase (supervisor : Supervisor) (id : Nat) (phase : CallPhase) :
    (supervisor.setPhase id phase).view? id =
      (supervisor.view? id).map fun view => { view with phase } := by
  rw [setPhase, view?_modifyCall, if_pos rfl, view?, Option.map_map]
  rfl

theorem spares_setPhase (supervisor : Supervisor) (allowed : Entry → Prop) (id : Nat)
    (phase : CallPhase) :
    Spares allowed [] (some id) supervisor (supervisor.setPhase id phase) :=
  supervisor.spares_modifyCall allowed id _

/-- A call that comes to its end releases the lock, and nothing else happens. -/
theorem spares_finish (supervisor : Supervisor) (allowed : Entry → Prop) (id : Nat)
    (result : Except PlanError Unit) :
    Spares allowed [] (some id) supervisor (supervisor.finish id result) ∧
      (supervisor.finish id result).view? id =
        (supervisor.view? id).map fun view => { view with phase := .ended result } := by
  have released : Spares allowed [] (some id) supervisor supervisor.releaseLock :=
    .of_station .stay rfl rfl rfl rfl
  have ended := released.trans (spares_setPhase _ allowed id (.ended result))
  exact ⟨ended.trans (.of_station .stay rfl rfl rfl rfl), view?_setPhase _ id (.ended result)⟩

/-- The work of a plan in the turn of its call, after which the call goes on or ends. -/
theorem acts_settleTurn (found : supervisor.calls[id]? = some call) {station : Station}
    (passes : supervisor.station.Passes (Entry.OfCall supervisor.stopping) [] station)
    {execution : Execution} (performs : execution.Performs documents call.context station)
    (begins : call.phase.Unbegun ∧ supervisor.stopping = false ∨
      ∃ course tick, call.phase = .running course tick)
    (tells : supervisor.station.Tells execution.station execution.effects) :
    Acts id call documents supervisor (supervisor.settleTurn id execution) := by
  have worked := passes.trans (performs.works.passes.mono fun _ ofPlan => Or.inl (Or.inr ofPlan))
  obtain ⟨taken, view⟩ := supervisor.spares_takeOver id (.call id) execution.context
    execution.effects worked tells
  have advances : Advances supervisor.stopping call.view documents
      ⟨execution.context.openRuns, execution.standing.phase⟩ :=
    .works execution.standing begins performs.works.openRuns performs.closed
  rw [view?_of_call found] at view
  unfold settleTurn
  dsimp only
  cases stands : execution.standing with
  | running course nextTick =>
      rw [stands] at advances
      have settled := taken.trans (spares_setPhase _ _ id (.running course nextTick))
      rw [List.append_nil] at settled
      refine ⟨settled, _, ?_, advances⟩
      rw [view?_setPhase, view]
      rfl
  | ended result =>
      rw [stands] at advances
      obtain ⟨finished, ended⟩ := spares_finish (supervisor.takeOver (.call id) id
        execution.context execution.station execution.effects)
        (Entry.OfCall supervisor.stopping) id result
      have settled := taken.trans finished
      rw [List.append_nil] at settled
      refine ⟨settled, _, ?_, advances⟩
      rw [ended, view]
      rfl

/-- A call that holds the lock is refused if the supervisor shuts down, else its plan begins. -/
theorem exists_acts_begin (found : supervisor.calls[id]? = some call)
    (unbegun : call.phase.Unbegun) (now : Span) :
    ∃ documents, Acts id call documents supervisor (supervisor.begin now id call) := by
  unfold begin
  cases stopping : supervisor.stopping with
  | true =>
      rw [if_pos rfl]
      obtain ⟨finished, ended⟩ := supervisor.spares_finish
        (Entry.OfCall supervisor.stopping) id refusal
      rw [view?_of_call found] at ended
      exact ⟨[], finished, _, ended, .refused unbegun stopping⟩
  | false =>
      rw [if_neg Bool.false_ne_true]
      obtain ⟨documents, performs⟩ := Execution.exists_performs_begin
        supervisor.config.pollInterval call.plan call.context supervisor.station now
      refine ⟨documents, acts_settleTurn found ?_ performs (Or.inl ⟨unbegun, stopping⟩)
        (Or.inr List.mem_cons_self)⟩
      apply (Station.Passes.stay.watch _).publish now
      exact Or.inr ⟨stopping, _, rfl⟩

theorem exists_acts_befall (found : supervisor.calls[id]? = some call) {course : Course}
    {tick : Span} (running : call.phase = .running course tick) (now : Span)
    {happening : Execution.Happening}
    (performs : ∃ documents, (Execution.happen supervisor.config.pollInterval
      ⟨call.context, supervisor.station, [], .running course tick⟩ now happening).Performs
        documents call.context supervisor.station)
    (tells :
      let execution := Execution.happen supervisor.config.pollInterval
        ⟨call.context, supervisor.station, [], .running course tick⟩ now happening
      supervisor.station.Tells execution.station execution.effects) :
    ∃ documents, Acts id call documents supervisor (supervisor.befall now id happening) := by
  obtain ⟨documents, performs⟩ := performs
  obtain ⟨plan, context, sleepers, phase⟩ := call
  subst running
  refine ⟨documents, ?_⟩
  simp only [befall, found]
  exact acts_settleTurn found .stay performs (Or.inr ⟨course, tick, rfl⟩) tells

theorem befall_of_not_running {happening : Execution.Happening} (now : Span)
    (resting : supervisor.isRunning id = false) : supervisor.befall now id happening = supervisor := by
  unfold befall
  split
  · rename_i found
    simp [isRunning, phase?, phaseAt_faces found] at resting
  · rfl

/-- The turn of a call leaves everything as it is or acts for the call. -/
theorem callTurn_cases (supervisor : Supervisor) (now : Span) (id : Nat) :
    supervisor.callTurn now id = supervisor ∨
      ∃ call documents, supervisor.calls[id]? = some call ∧
        Acts id call documents supervisor (supervisor.callTurn now id) := by
  unfold callTurn
  split
  · exact Or.inl rfl
  · rename_i call found
    split
    · rename_i entering
      let asked : Supervisor := { supervisor with lock := supervisor.lock.ask (.call id) }
      have foundAsked : asked.calls[id]? = some call := found
      dsimp only
      split
      · obtain ⟨documents, spares, advances⟩ :=
          exists_acts_begin foundAsked (Or.inl entering) now
        exact Or.inr ⟨call, documents, found,
          ⟨spares.station, spares.views, spares.relay, spares.stopping, spares.waits⟩, advances⟩
      · obtain ⟨station, views, relay, stopping, waits⟩ :=
          spares_setPhase asked (Entry.OfCall supervisor.stopping) id .queued
        refine Or.inr ⟨call, [], found, ⟨station, views, relay, stopping, waits⟩, _, ?_,
          .waits entering⟩
        have queued := asked.view?_setPhase id .queued
        rw [view?_of_call foundAsked] at queued
        exact queued
    · rename_i queued
      split
      · obtain ⟨documents, acts⟩ := exists_acts_begin found (Or.inr queued) now
        exact Or.inr ⟨call, documents, found, acts⟩
      · exact Or.inl rfl
    · rename_i course tick running
      obtain ⟨documents, performs⟩ := Execution.exists_performs_proceed
        supervisor.config.pollInterval course tick call.context supervisor.station now
      exact Or.inr ⟨call, documents, found,
        acts_settleTurn found .stay performs (Or.inr ⟨course, tick, running⟩)
          (Execution.tells_proceed _ course tick call.context supervisor.station now)⟩
    · exact Or.inl rfl
    · exact Or.inl rfl

theorem spares_setCourse (supervisor : Supervisor) (allowed : Entry → Prop)
    (caller : Option Nat) (index : Nat) (course : Option Course) :
    Spares allowed [] caller supervisor (supervisor.setCourse index course) :=
  .of_station .stay rfl rfl rfl rfl

/-- What a plan started beside itself leaves everything as it is or acts for the call. -/
theorem branchTurn_cases (supervisor : Supervisor) (now : Span) (index : Nat) :
    supervisor.branchTurn now index = supervisor ∨
      ∃ id call documents, supervisor.branches[index]?.map Branch.call = some id ∧
        supervisor.calls[id]? = some call ∧
        Besides id call documents supervisor (supervisor.branchTurn now index) := by
  unfold branchTurn
  split
  · rename_i id course branched
    split
    · exact Or.inl rfl
    · rename_i call found
      obtain ⟨documents, works⟩ := course.exists_works_advance now true call.context
        supervisor.station
      have passes : supervisor.station.Passes (Entry.OfCall supervisor.stopping) documents
          (course.advance now true call.context supervisor.station).station :=
        works.passes.mono fun _ ofPlan => Or.inl (Or.inr ofPlan)
      obtain ⟨taken, view⟩ := supervisor.spares_takeOver id (.branch index)
        (course.advance now true call.context supervisor.station).context
        (course.advance now true call.context supervisor.station).effects passes
        (course.tells_advance now true call.context supervisor.station)
      rw [view?_of_call found] at view
      have besides : ∀ standing, Besides id call documents supervisor
          ((supervisor.takeOver (.branch index) id
            (course.advance now true call.context supervisor.station).context
            (course.advance now true call.context supervisor.station).station
            (course.advance now true call.context supervisor.station).effects).setCourse index
              standing) := by
        intro standing
        have set := taken.trans (spares_setCourse _ _ _ index standing)
        rw [List.append_nil] at set
        rw [works.openRuns] at view
        exact ⟨set, view⟩
      refine Or.inr ⟨id, call, documents, by rw [branched]; rfl, found, ?_⟩
      dsimp only
      split
      · exact besides _
      · exact besides _
  · exact Or.inl rfl

theorem dropCall_cases (supervisor : Supervisor) (id : Nat) :
    supervisor.dropCall id = supervisor ∨
      ∃ call, supervisor.calls[id]? = some call ∧
        Acts id call [] supervisor (supervisor.dropCall id) := by
  unfold dropCall
  split
  · exact Or.inl rfl
  · rename_i call found
    split
    · exact Or.inl rfl
    · exact Or.inl rfl
    · rename_i unfinished _
      have dropped : ∀ left : Supervisor, left.station = supervisor.station →
          left.calls = supervisor.calls → left.relay = supervisor.relay →
          left.stopping = supervisor.stopping →
          Acts id call [] supervisor
            { left.setPhase id .dropped with
              finished := (left.setPhase id .dropped).finished ++ [(id, none)] } := by
        intro left station calls relay stopping
        have passes : supervisor.station.Passes (Entry.OfCall supervisor.stopping) []
            left.station := by
          rw [station]
          exact .stay
        have gone := (Spares.of_station passes calls relay stopping (by rw [station])).trans
          (left.spares_setPhase _ id .dropped)
        refine ⟨gone.trans (.of_station .stay rfl rfl rfl rfl), _, ?_, .dropped unfinished⟩
        have view := left.view?_setPhase id .dropped
        rw [view?, view?, calls, found] at view
        exact view
      refine Or.inr ⟨call, found, ?_⟩
      dsimp only
      split
      · exact dropped _ rfl rfl rfl rfl
      · exact dropped _ rfl rfl rfl rfl

end Turns

/-- An entry that a turn of the relay may leave. -/
def Entry.OfRelay (entry : Entry) : Prop :=
  entry.Ordinary ∨ ∃ missed, entry = .logged (lagLine missed)

namespace Relays

variable {before after : Supervisor}

theorem passes (relays : Relays before after) :
    before.station.Passes Entry.OfRelay [] after.station := by
  induction relays with
  | stay => exact .stay
  | chores _ chores inductionHypothesis =>
      exact inductionHypothesis.trans (chores.spares.station.mono fun _ => Or.inl)
  | set _ change inductionHypothesis => exact inductionHypothesis
  | note _ now missed inductionHypothesis =>
      apply inductionHypothesis.write now
      all_goals
        intro entry member
        obtain rfl := List.mem_singleton.mp member
      · exact ⟨rfl, rfl⟩
      · exact Or.inr ⟨missed, rfl⟩

theorem views (relays : Relays before after) (id : Nat) : after.view? id = before.view? id := by
  induction relays with
  | stay => rfl
  | chores _ chores inductionHypothesis =>
      exact (chores.spares.views id nofun).trans inductionHypothesis
  | set _ change inductionHypothesis => exact inductionHypothesis
  | note _ now missed inductionHypothesis => exact inductionHypothesis

theorem stopping (relays : Relays before after) : after.stopping = before.stopping := by
  induction relays with
  | stay => rfl
  | chores _ chores inductionHypothesis => exact chores.spares.stopping.trans inductionHypothesis
  | set _ change inductionHypothesis => exact inductionHypothesis
  | note _ now missed inductionHypothesis => exact inductionHypothesis

end Relays

/-- An entry that an incident may leave that acts for no call. -/
def Incident.Permits (incident : Incident) (entry : Entry) : Prop :=
  entry.Ordinary ∨ ∃ event ∈ incident.announced?, entry = .published event

/-- What an incident comes to: it spares the calls, acts for one of them or beside it, lets one
enter, requests the shutdown, or is a turn of the relay. -/
inductive Outcome (supervisor : Supervisor) (now : Span) (incident : Incident) :
    Supervisor → Prop where
  | spares {after : Supervisor} {documents : List Document}
      (unheard : supervisor.requested? incident = none) (still : incident.budget? = none)
      (others : documents ≠ [] → supervisor.actor? incident = none)
      (spares : Spares incident.Permits documents none supervisor after) :
      Outcome supervisor now incident after
  | acts {after : Supervisor} {documents : List Document} {id : Nat} {call : Call}
      (unheard : supervisor.requested? incident = none) (still : incident.budget? = none)
      (actor : ∀ other, supervisor.actor? incident = some other → other = id)
      (found : supervisor.calls[id]? = some call)
      (acts : Acts id call documents supervisor after) : Outcome supervisor now incident after
  | besides {after : Supervisor} {documents : List Document} {id : Nat} {call : Call}
      (unheard : supervisor.requested? incident = none) (still : incident.budget? = none)
      (actor : ∀ other, supervisor.actor? incident = some other →
        other = id ∧ supervisor.isRunning id = true)
      (found : supervisor.calls[id]? = some call)
      (besides : Besides id call documents supervisor after) : Outcome supervisor now incident after
  | enters {after : Supervisor}
      (unheard : supervisor.requested? incident = none) (still : incident.budget? = none)
      (spares : Spares Entry.Ordinary [] (some supervisor.calls.length) supervisor after)
      (entered : after.view? supervisor.calls.length = some ⟨[], .entering⟩) :
      Outcome supervisor now incident after
  | requests {after : Supervisor} {reason : String}
      (heard : supervisor.requested? incident = some reason) (still : incident.budget? = none)
      (spares : Spares Entry.Ordinary [] none (supervisor.request now reason) after) :
      Outcome supervisor now incident after
  | relays {after : Supervisor} {budget : Nat}
      (unheard : supervisor.requested? incident = none) (turn : incident.budget? = some budget)
      (same : after = supervisor.relayFor now budget) : Outcome supervisor now incident after

namespace Outcome

variable {supervisor after : Supervisor} {now : Span} {incident : Incident}

theorem of_chores (unheard : supervisor.requested? incident = none)
    (still : incident.budget? = none) (chores : Chores supervisor after) :
    Outcome supervisor now incident after :=
  .spares unheard still (fun handed => absurd rfl handed) (chores.spares.mono fun _ => Or.inl)

theorem of_station {station : Station} {documents : List Document}
    (unheard : supervisor.requested? incident = none) (still : incident.budget? = none)
    (others : supervisor.actor? incident = none)
    (passes : supervisor.station.Passes incident.Permits documents station)
    (quiet : station.bus.position = supervisor.station.bus.position) :
    Outcome supervisor now incident (supervisor.withStation station) :=
  .spares unheard still (fun _ => others) (.of_station passes rfl rfl rfl quiet)

theorem of_publish {event : Event} (unheard : supervisor.requested? incident = none)
    (still : incident.budget? = none) (announced : incident.announced? = some event) :
    Outcome supervisor now incident (supervisor.publish now event) :=
  .spares unheard still (fun handed => absurd rfl handed)
    (supervisor.spares_publish now none (Or.inr ⟨event, announced, rfl⟩))

theorem of_enterCall (plan : Plan) (unheard : supervisor.requested? incident = none)
    (still : incident.budget? = none) :
    Outcome supervisor now incident
      ((supervisor.enterCall plan).wake (.call supervisor.calls.length)) := by
  refine .enters unheard still ⟨.stay, ?_, rfl, rfl, fun waiting => ⟨waiting, rfl⟩⟩ ?_
  · intro id other
    have different : id ≠ supervisor.calls.length := fun same => other (congrArg some same.symm)
    simp only [view?, enterCall, wake]
    by_cases known : id < supervisor.calls.length
    · rw [List.getElem?_append_left known]
    · rw [List.getElem?_eq_none (by simp; omega), List.getElem?_eq_none (by omega)]
  · simp [view?, enterCall, wake, Call.view]

theorem of_befall {id : Nat} {happening : Execution.Happening}
    (unheard : supervisor.requested? incident = none) (still : incident.budget? = none)
    (actor : supervisor.actor? incident = some id)
    (performs : ∀ course tick context station, ∃ documents,
      (Execution.happen supervisor.config.pollInterval ⟨context, station, [], .running course tick⟩
        now happening).Performs documents context station)
    (tells : ∀ course tick context station,
      let execution := Execution.happen supervisor.config.pollInterval
        ⟨context, station, [], .running course tick⟩ now happening
      station.Tells execution.station execution.effects) :
    Outcome supervisor now incident (supervisor.befall now id happening) := by
  cases runs : supervisor.isRunning id with
  | false =>
      rw [befall_of_not_running now runs]
      exact of_chores unheard still .stay
  | true =>
      unfold isRunning at runs
      split at runs
      · rename_i course tick phase
        obtain ⟨call, found, running⟩ := exists_call_of_phaseAt phase
        obtain ⟨documents, acts⟩ := exists_acts_befall found running now
          (performs course tick call.context supervisor.station)
          (tells course tick call.context supervisor.station)
        exact .acts unheard still (fun other same => Option.some.inj (same.symm.trans actor))
          found acts
      · cases runs

theorem of_turn (task : SupervisorTask) (same : incident = .move (.turn task)) :
    Outcome supervisor now incident (supervisor.turn now task) := by
  subst same
  cases task with
  | worker index => exact of_chores rfl rfl (supervisor.chores_workerTurn now index)
  | relay => exact .relays rfl rfl rfl
  | call id =>
      rcases supervisor.callTurn_cases now id with same | ⟨call, documents, found, acts⟩
      · rw [turn, same]
        exact of_chores rfl rfl .stay
      · exact .acts rfl rfl (fun other same => Option.some.inj same.symm) found acts
  | branch index =>
      rcases supervisor.branchTurn_cases now index with
        same | ⟨id, call, documents, isOf, found, besides⟩
      · rw [turn, same]
        exact of_chores rfl rfl .stay
      · refine .besides rfl rfl (fun other actor => ?_) found besides
        rw [actor?, isOf] at actor
        obtain ⟨isActor, running⟩ := Option.filter_eq_some_iff.mp actor
        obtain rfl := Option.some.inj isActor
        exact ⟨rfl, running⟩
  | stop id =>
      cases heard : supervisor.heard? id with
      | none => exact of_chores heard rfl (supervisor.chores_stopTurn_of_unheard now id heard)
      | some reason =>
          exact .requests heard rfl (supervisor.chores_stopTurn_of_heard now id heard).spares

theorem of_move (move : Move) :
    Outcome supervisor now (.move move) (supervisor.step now move) := by
  cases move with
  | execute plan alone => exact of_enterCall plan rfl rfl
  | shutdown onSignal => exact of_chores rfl rfl ((Chores.stay.stops _).trans (chores_wake _ _))
  | signal name => exact of_chores rfl rfl (supervisor.chores_signal name)
  | reset => exact of_station rfl rfl rfl (Station.Passes.stay.watch _) rfl
  | subscribe listener =>
      exact of_station rfl rfl rfl (Station.Passes.stay.change (.subscribe listener)) rfl
  | unsubscribe number =>
      exact of_station rfl rfl rfl (Station.Passes.stay.change (.unsubscribe number)) rfl
  | dispatch document => exact of_station rfl rfl rfl (Station.Passes.stay.dispatch now document) rfl
  | announce event nameless => exact of_publish rfl rfl rfl
  | turn task => exact of_turn task rfl
  | check id =>
      refine of_befall rfl rfl rfl (fun course tick context station => ?_)
        fun course tick context station => ?_
      · exact Execution.exists_performs_check _ course tick context station now
      · exact Execution.tells_happen_check _ course tick context station now
  | finish id result =>
      refine of_befall rfl rfl rfl (fun course tick context station => ?_)
        fun course tick context station => ?_
      · exact Execution.exists_performs_conclude context station now result
      · exact Or.inr (Execution.published_mem_conclude context station now result)

end Outcome

theorem occur_outcome (supervisor : Supervisor) (now : Span) (incident : Incident) :
    Outcome supervisor now incident (supervisor.occur now incident) := by
  cases incident with
  | move move => exact .of_move move
  | execute plan => exact .of_enterCall plan rfl rfl
  | announce event => exact .of_publish rfl rfl rfl
  | abandon id =>
      rcases supervisor.dropCall_cases id with same | ⟨call, found, acts⟩
      · rw [occur, same]
        exact .of_chores rfl rfl .stay
      · exact .acts rfl rfl (fun other actor => nomatch actor) found acts
  | withdraw id =>
      refine .of_chores rfl rfl ?_
      simp only [occur, withdraw]
      split
      · rename_i holds
        exact (supervisor.chores_releaseLock id holds).trans (chores_setStop _ id .ended)
      · exact (Chores.stay.leave id).trans (chores_setStop _ id .ended)
  | hear id name =>
      simp only [occur, hear]
      split
      · rename_i listening
        refine .requests ?_ rfl (chores_unwind _ now id).spares
        simp [requested?, listening, isListening]
      · rename_i deaf
        refine .of_chores ?_ rfl .stay
        cases found : supervisor.stops[id]? with
        | none => simp [requested?, found]
        | some stop =>
            obtain ⟨onSignal, phase⟩ := stop
            cases phase with
            | listening signal => exact absurd found (deaf onSignal signal)
            | _ => simp [requested?, found, isListening]
  | relay budget => exact .relays rfl rfl rfl

theorem occur_of_budget {supervisor : Supervisor} {incident : Incident} {budget : Nat} (now : Span)
    (turn : incident.budget? = some budget) :
    supervisor.occur now incident = supervisor.relayFor now budget := by
  cases supervisor.occur_outcome now incident with
  | relays unheard also same => rw [same, Option.some.inj (turn.symm.trans also)]
  | spares _ still | acts _ still | besides _ still | enters _ still | requests _ still =>
      rw [still] at turn
      cases turn

end Supervisor

end PlanSupervision
