import PlanSupervision.Proofs.Plan.Shown
import PlanSupervision.Proofs.Supervisor.Chores

/-!
Histories of a supervisor: calls from outside and turns of its tasks, each at an instant and in
any order. A plan may come to its end at any time and with any result. Only the turns of a call
act in the name of its plan; everything else stands aside: it leaves the calls in their place in
line, hands over no document and sends no event that carries the name of a plan.
-/

namespace PlanSupervision

def SupervisorTask.call? : SupervisorTask → Option Nat
  | call id => some id
  | worker _ | relay | branch _ | stop _ => none

/-- A change at one place, seen through a map. -/
theorem map_modify {Element Image : Type} {image : Element → Image} {change : Element → Element}
    {shift : Image → Image} (elements : List Element) (index : Nat)
    (shifts : ∀ element, image (change element) = shift (image element)) :
    (elements.modify index change).map image = (elements.map image).modify index shift := by
  apply List.ext_getElem?
  intro position
  simp only [List.getElem?_map, List.getElem?_modify]
  cases elements[position]? with
  | none => simp
  | some element =>
      by_cases here : index = position
      · simp [here, shifts]
      · simp [here]

/-- A lock that is free has nobody waiting for it. -/
def Lock.Fair {Owner : Type} (lock : Lock Owner) : Prop := lock.holder = none → lock.queue = []

/-- The calls that hold the lock or wait for it, in the order in which they are handed it. -/
def Lock.line (lock : Lock SupervisorTask) : List Nat :=
  (lock.holder.toList ++ lock.queue).filterMap SupervisorTask.call?

namespace Lock

variable {Owner : Type} {lock : Lock Owner}

theorem fair_ask (owner : Owner) : (lock.ask owner).Fair := by
  intro free
  cases held : lock.holder <;> simp [ask, held] at free

theorem Fair.leave [DecidableEq Owner] (fair : lock.Fair) (owner : Owner) : (lock.leave owner).Fair := by
  intro free
  rw [Lock.leave, fair free]
  rfl

theorem fair_release (lock : Lock Owner) : lock.release.Fair := by
  intro free
  unfold release at free ⊢
  split at free
  · rfl
  · cases free

theorem holder_ask {owner other : Owner} (held : lock.holder = some other) :
    (lock.ask owner).holder = some other := by
  simp [ask, held]

theorem line_release (lock : Lock SupervisorTask) :
    lock.release.line = lock.queue.filterMap SupervisorTask.call? := by
  unfold release
  split
  · rename_i empty
    rw [empty]
    rfl
  · rename_i next rest waiting
    rw [waiting]
    rfl

theorem line_ask_stop (lock : Lock SupervisorTask) (id : Nat) :
    (lock.ask (.stop id)).line = lock.line := by
  cases held : lock.holder with
  | none =>
      simp only [ask, line, held]
      rfl
  | some holder =>
      simp only [ask, line, held, ← List.append_assoc, List.filterMap_append]
      exact List.append_nil _

theorem line_leave_stop (lock : Lock SupervisorTask) (id : Nat) :
    (lock.leave (.stop id)).line = lock.line := by
  have others : (lock.queue.filter (· != .stop id)).filterMap SupervisorTask.call? =
      lock.queue.filterMap SupervisorTask.call? := by
    rw [List.filterMap_filter]
    congr 1
    funext task
    cases task <;> simp [SupervisorTask.call?]
  rw [line, line, leave, List.filterMap_append, List.filterMap_append, others]

end Lock

/-- The plan of a call acts under its own name and keeps its context to itself. -/
structure Face.Sound (face : Face) : Prop where
  name : face.name = face.plan.name
  alone : PlanStep.Private face.plan.steps
  course : ∀ course tick, face.phase = .running course tick → PlanStep.Private course.remaining

structure Face.Fresh (face : Face) : Prop where
  phase : face.phase = .entering
  sound : face.Sound

/-- A call for the execution of a plan, as it enters. -/
def Plan.face (plan : Plan) : Face := ⟨plan, plan.name, .entering⟩

namespace Supervisor

inductive Move where
  | execute (plan : Plan) (alone : PlanStep.Private plan.steps)
  | shutdown (onSignal : Bool)
  | signal (name : String)
  | reset
  | subscribe (listener : Listener)
  | unsubscribe (number : Nat)
  /-- Others hand a document to the observers. -/
  | dispatch (document : Document)
  /-- Others publish an event on the bus. -/
  | announce (event : Event) (nameless : event.plan = none)
  | turn (task : SupervisorTask)
  /-- The watchdog and the cancellation are looked at, and the plan is not given its turn. -/
  | check (id : Nat)
  /-- The plan of a call that runs comes to its end. -/
  | finish (id : Nat) (result : Except PlanError Unit)

/-- The call whose turn a move is. -/
def Move.call? : Move → Option Nat
  | turn task => task.call?
  | check id | finish id _ => some id
  | _ => none

/-- The plan that a move calls to be executed. -/
def Move.plan? : Move → Option Plan
  | execute plan _ => some plan
  | _ => none

abbrev History := List (Span × Move)

/-- The plans that were called to be executed, in order. -/
def History.plans (history : History) : List Plan := history.filterMap fun entry => entry.2.plan?

/-- Something happens to the plan of a call that runs. -/
def befall (supervisor : Supervisor) (now : Span) (id : Nat)
    (happening : Execution.Happening) : Supervisor :=
  match supervisor.calls[id]? with
  | some ⟨_, context, _, .running course tick⟩ =>
      supervisor.settleTurn id (Execution.happen supervisor.config.pollInterval
        ⟨context, supervisor.station, [], .running course tick⟩ now happening)
  | _ => supervisor

def step (supervisor : Supervisor) (now : Span) : Move → Supervisor
  | .execute plan _ => (supervisor.enterCall plan).wake (.call supervisor.calls.length)
  | .shutdown onSignal => (supervisor.enterStop onSignal).wake (.stop supervisor.stops.length)
  | .signal name => supervisor.signal name
  | .reset => supervisor.withStation (supervisor.station.resetWatchdog now)
  | .subscribe listener => supervisor.withStation { supervisor.station with
      observers := supervisor.station.observers.subscribe listener }
  | .unsubscribe number => supervisor.withStation { supervisor.station with
      observers := supervisor.station.observers.unsubscribe number }
  | .dispatch document => supervisor.withStation (supervisor.station.dispatch now document).1
  | .announce event _ => supervisor.publish now event
  | .turn task => supervisor.turn now task
  | .check id => supervisor.befall now id .check
  | .finish id result => supervisor.befall now id (.finish result)

def run (supervisor : Supervisor) (history : History) : Supervisor :=
  history.foldl (fun supervisor entry => supervisor.step entry.1 entry.2) supervisor

def line (supervisor : Supervisor) : List Nat := supervisor.lock.line

def faces (supervisor : Supervisor) : List Face := supervisor.calls.map Call.face

/-- A step that is not the turn of a call. At most calls enter. -/
structure Aside (before after : Supervisor) (fresh : List Face) : Prop where
  faces : after.faces = before.faces ++ fresh
  areFresh : ∀ face ∈ fresh, face.Fresh
  branches : after.branches = before.branches
  line : after.line = before.line
  holder : ∀ id, before.lock.holder = some (.call id) → after.lock.holder = some (.call id)
  fair : before.lock.Fair → after.lock.Fair
  shows : before.station.Shows after.station []

namespace Aside

variable {before after last : Supervisor} {fresh newer : List Face}

theorem of_lock_eq (faces : after.faces = before.faces) (branches : after.branches = before.branches)
    (lock : after.lock = before.lock) (shows : before.station.Shows after.station []) :
    Aside before after [] := by
  refine ⟨?_, List.forall_mem_nil _, branches, ?_, ?_, ?_, shows⟩
  · rw [faces, List.append_nil]
  · rw [Supervisor.line, Supervisor.line, lock]
  · rw [lock]
    exact fun _ holds => holds
  · rw [lock]
    exact fun fair => fair

theorem of_station_eq (faces : after.faces = before.faces)
    (branches : after.branches = before.branches) (lock : after.lock = before.lock)
    (station : after.station = before.station) : Aside before after [] := by
  apply of_lock_eq faces branches lock
  rw [station]
  exact .refl before.station

theorem refl (supervisor : Supervisor) : Aside supervisor supervisor [] :=
  of_station_eq rfl rfl rfl rfl

theorem trans (first : Aside before after fresh) (second : Aside after last newer) :
    Aside before last (fresh ++ newer) := by
  refine ⟨?_, ?_, second.branches.trans first.branches, second.line.trans first.line, ?_,
    second.fair ∘ first.fair, first.shows.trans second.shows⟩
  · rw [second.faces, first.faces, List.append_assoc]
  · intro face member
    rcases List.mem_append.mp member with old | new
    · exact first.areFresh face old
    · exact second.areFresh face new
  · exact fun id holds => second.holder id (first.holder id holds)

/-- The lock passes between others than calls, and the calls in line keep their places. -/
theorem of_lock (faces : after.faces = before.faces) (branches : after.branches = before.branches)
    (station : after.station = before.station) (line : after.line = before.line)
    (holder : ∀ id, before.lock.holder = some (.call id) →
      after.lock.holder = some (.call id))
    (fair : before.lock.Fair → after.lock.Fair) : Aside before after [] := by
  refine ⟨?_, List.forall_mem_nil _, branches, line, holder, fair, ?_⟩
  · rw [faces, List.append_nil]
  · rw [station]
    exact .refl before.station

end Aside

theorem faces_modifyCall (supervisor : Supervisor) (id : Nat) {change : Call → Call}
    (same : ∀ call, supervisor.calls[id]? = some call → (change call).face = call.face) :
    (supervisor.modifyCall id change).faces = supervisor.faces := by
  apply List.ext_getElem?
  intro position
  simp only [faces, modifyCall, List.getElem?_map, List.getElem?_modify]
  cases found : supervisor.calls[position]? with
  | none => rfl
  | some call =>
      by_cases here : id = position
      · subst here
        simp [same call found]
      · simp [here]

end Supervisor

theorem Entry.deed?_of_routine {entry : Entry} (routine : entry.Routine) : entry.deed? = none := by
  cases entry with
  | published event => simp [deed?, routine.1]
  | received | logged => rfl
  | _ => cases routine

namespace Supervisor

theorem aside_withStation (supervisor : Supervisor) {station : Station}
    (shows : supervisor.station.Shows station []) :
    Aside supervisor (supervisor.withStation station) [] :=
  .of_lock_eq rfl rfl rfl shows

theorem aside_wakeRelay (supervisor : Supervisor) : Aside supervisor supervisor.wakeRelay [] := by
  unfold wakeRelay
  split
  · split
    · exact .of_station_eq rfl rfl rfl rfl
    · exact .refl supervisor
  · exact .refl supervisor

theorem aside_publish (supervisor : Supervisor) (now : Span) {event : Event}
    (nameless : event.plan = none) : Aside supervisor (supervisor.publish now event) [] :=
  (supervisor.aside_withStation (.publish_other _ now nameless)).trans (aside_wakeRelay _)

theorem Chores.aside {before after : Supervisor} (chores : Chores before after) :
    Aside before after [] := by
  induction chores with
  | stay => exact .refl before
  | write _ now silent routine inductionHypothesis =>
      apply inductionHypothesis.trans
      refine .of_lock_eq rfl rfl rfl (.write _ now ?_)
      intro written member
      obtain rfl := List.mem_singleton.mp member
      exact Entry.deed?_of_routine routine
  | send _ now routine inductionHypothesis =>
      exact inductionHypothesis.trans (aside_publish _ now routine.1)
  | watch _ watchdog inductionHypothesis =>
      apply inductionHypothesis.trans
      exact .of_lock_eq rfl rfl rfl (.of_same rfl rfl)
  | desk _ fan woken rested inductionHypothesis =>
      exact inductionHypothesis.trans (.of_station_eq rfl rfl rfl rfl)
  | relay _ change keeps inductionHypothesis =>
      exact inductionHypothesis.trans (.of_station_eq rfl rfl rfl rfl)
  | call _ id change face openRuns inductionHypothesis =>
      apply inductionHypothesis.trans
      exact .of_station_eq (faces_modifyCall _ id fun call _ => face call) rfl rfl rfl
  | stops _ stops inductionHypothesis =>
      exact inductionHypothesis.trans (.of_station_eq rfl rfl rfl rfl)
  | ask _ id inductionHypothesis =>
      apply inductionHypothesis.trans
      exact .of_lock rfl rfl rfl (Lock.line_ask_stop _ id) (fun _ => Lock.holder_ask)
        fun _ => Lock.fair_ask _
  | leave _ id inductionHypothesis =>
      apply inductionHypothesis.trans
      exact .of_lock rfl rfl rfl (Lock.line_leave_stop _ id) (fun _ holds => holds)
        fun fair => fair.leave _
  | release _ holds inductionHypothesis =>
      apply inductionHypothesis.trans
      refine .of_lock rfl rfl rfl ?_ ?_ fun _ => Lock.fair_release _
      · rw [line, line, Lock.line_release, Lock.line, holds]
        rfl
      · intro other held
        rw [holds] at held
        cases held

section Others

variable (supervisor : Supervisor) (now : Span)

theorem Relays.aside {before after : Supervisor} (relays : Relays before after) :
    Aside before after [] := by
  induction relays with
  | stay => exact .refl before
  | chores _ chores inductionHypothesis => exact inductionHypothesis.trans chores.aside
  | set _ change inductionHypothesis =>
      exact inductionHypothesis.trans (.of_station_eq rfl rfl rfl rfl)
  | note _ now missed inductionHypothesis =>
      refine inductionHypothesis.trans (aside_withStation _ (.write _ now ?_))
      intro entry member
      obtain rfl := List.mem_singleton.mp member
      rfl

theorem aside_request (reason : String) :
    Aside supervisor (supervisor.request now reason) [] := by
  cases stopping : supervisor.stopping with
  | true =>
      rw [supervisor.request_of_stopping now stopping]
      exact .refl supervisor
  | false =>
      have told : Aside supervisor (supervisor.publish now (requestEvent reason)) [] :=
        supervisor.aside_publish now rfl
      have closed : ∀ other : Supervisor, Aside other { other with stopping := true } [] :=
        fun _ => .of_station_eq rfl rfl rfl rfl
      exact (told.trans (closed _)).trans (supervisor.chores_request now stopping reason).aside

theorem aside_stopTurn (id : Nat) : Aside supervisor (supervisor.stopTurn now id) [] := by
  cases heard : supervisor.heard? id with
  | none => exact (supervisor.chores_stopTurn_of_unheard now id heard).aside
  | some reason =>
      exact (supervisor.aside_request now reason).trans
        (supervisor.chores_stopTurn_of_heard now id heard).aside

end Others

theorem aside_execute (supervisor : Supervisor) {plan : Plan}
    (alone : PlanStep.Private plan.steps) :
    Aside supervisor (supervisor.enterCall plan) [plan.face] := by
  refine ⟨?_, ?_, rfl, rfl, fun _ holds => holds, id, ?_⟩
  · simp [faces, enterCall, Call.face, Plan.face]
  · intro face member
    obtain rfl := List.mem_singleton.mp member
    refine ⟨rfl, rfl, alone, ?_⟩
    intro course tick runs
    cases runs
  · exact .refl supervisor.station

/-- As long as no plan has started anything beside itself, all moves but the turns of calls and
the documents of others stand aside. A call enters for each plan that is called to be executed. -/
theorem aside_step {supervisor : Supervisor} (alone : supervisor.branches = []) (now : Span)
    {move : Move} (other : move.call? = none) (own : ∀ document, move ≠ .dispatch document) :
    Aside supervisor (supervisor.step now move) (move.plan?.toList.map Plan.face) := by
  cases move with
  | execute plan keeps => exact (supervisor.aside_execute keeps).trans (chores_wake _ _).aside
  | shutdown onSignal => exact ((Chores.stay.stops _).trans (chores_wake _ _)).aside
  | signal name => exact (supervisor.chores_signal name).aside
  | reset => exact supervisor.aside_withStation (.of_same rfl rfl)
  | subscribe listener => exact supervisor.aside_withStation (.of_same rfl rfl)
  | unsubscribe number => exact supervisor.aside_withStation (.of_same rfl rfl)
  | dispatch document => exact absurd rfl (own document)
  | announce event nameless => exact supervisor.aside_publish now nameless
  | check id => cases other
  | finish id result => cases other
  | turn task =>
      cases task with
      | worker index => exact (supervisor.chores_workerTurn now index).aside
      | relay => exact (supervisor.relays_relayFor now turnBudget).aside
      | call id => cases other
      | branch index =>
          have nothing : supervisor.step now (.turn (.branch index)) = supervisor := by
            simp [step, turn, branchTurn, alone]
          rw [nothing]
          exact .refl supervisor
      | stop id => exact supervisor.aside_stopTurn now id

end Supervisor

end PlanSupervision
