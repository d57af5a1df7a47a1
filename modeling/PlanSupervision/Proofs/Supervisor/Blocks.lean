import PlanSupervision.Proofs.Supervisor.Order

/-!
The executions of a supervisor in any history. Every turn of a call is a step in the order of
serving: it asks for the lock, begins or is refused, acts, or comes to its end. So what plans
show is a sequence of blocks, one for each call that was not refused.
-/

namespace PlanSupervision.Supervisor

def phase? (supervisor : Supervisor) (id : Nat) : Option CallPhase := phaseAt supervisor.faces id

/-- The call that asks for the lock in a move. -/
def asks (supervisor : Supervisor) : Move → List Nat
  | .turn (.call id) =>
      match supervisor.phase? id with
      | some .entering => [id]
      | _ => []
  | _ => []

/-- The call that is handed the lock and heeds it in a move. It is refused if the supervisor
shuts down. -/
def serves (supervisor : Supervisor) : Move → List (Nat × Bool)
  | .turn (.call id) =>
      match supervisor.phase? id with
      | some .entering =>
          if (supervisor.lock.ask (.call id)).holder = some (.call id) then
            [(id, supervisor.stopping)]
          else []
      | some .queued =>
          if supervisor.lock.holder = some (.call id) then [(id, supervisor.stopping)] else []
      | _ => []
  | _ => []

theorem asks_of_ne {supervisor : Supervisor} {id : Nat}
    (entered : supervisor.phase? id ≠ some .entering) :
    supervisor.asks (.turn (.call id)) = [] := by
  simp only [asks]

theorem serves_of_ne {supervisor : Supervisor} {id : Nat}
    (entered : supervisor.phase? id ≠ some .entering)
    (begun : supervisor.phase? id ≠ some .queued) :
    supervisor.serves (.turn (.call id)) = [] := by
  simp only [serves]

/-- What is shown of plans from one state to a later one, with the call whose turn it is. -/
def shownBy (before after : Supervisor) (caller : Option Nat) : List (Option Nat × Deed) :=
  (Journal.deeds (after.station.journal.drop before.station.journal.length)).map fun deed =>
    (caller, deed)

/-- What a move shows of plans. A document that others hand to the observers is not one of a
plan. -/
def accountOf (before after : Supervisor) : Move → List (Option Nat × Deed)
  | .dispatch _ => (shownBy before after none).filter fun entry => entry.2.event?.isSome
  | move => shownBy before after move.call?

def asked (supervisor : Supervisor) : History → List Nat
  | [] => []
  | (instant, move) :: later =>
      supervisor.asks move ++ asked (supervisor.step instant move) later

def served (supervisor : Supervisor) : History → List (Nat × Bool)
  | [] => []
  | (instant, move) :: later =>
      supervisor.serves move ++ served (supervisor.step instant move) later

def account (supervisor : Supervisor) : History → List (Option Nat × Deed)
  | [] => []
  | (instant, move) :: later =>
      let after := supervisor.step instant move
      accountOf supervisor after move ++ account after later

/-- A step that leaves the calls, the lock and the station as they are. -/
structure Unmoved (before after : Supervisor) : Prop where
  faces : after.faces = before.faces
  branches : after.branches = before.branches
  lock : after.lock = before.lock
  station : after.station = before.station

namespace Unmoved

variable {before after last : Supervisor}

theorem refl (supervisor : Supervisor) : Unmoved supervisor supervisor := ⟨rfl, rfl, rfl, rfl⟩

theorem trans (first : Unmoved before after) (second : Unmoved after last) :
    Unmoved before last :=
  ⟨second.faces.trans first.faces, second.branches.trans first.branches,
    second.lock.trans first.lock, second.station.trans first.station⟩

theorem wakeRelay (supervisor : Supervisor) : Unmoved supervisor supervisor.wakeRelay := by
  unfold Supervisor.wakeRelay
  split
  · split
    · exact ⟨rfl, rfl, rfl, rfl⟩
    · exact refl supervisor
  · exact refl supervisor

theorem modifyCall (supervisor : Supervisor) (id : Nat) {change : Call → Call}
    (same : ∀ call, (change call).face = call.face) :
    Unmoved supervisor (supervisor.modifyCall id change) :=
  ⟨supervisor.faces_modifyCall id fun call _ => same call, rfl, rfl, rfl⟩

theorem heed (supervisor : Supervisor) (task : SupervisorTask) (id : Nat) {effect : PlanEffect}
    (alone : effect.isBranch = false) : Unmoved supervisor (supervisor.heed task id effect) := by
  cases effect with
  | published => exact wakeRelay supervisor
  | branched steps => cases alone
  | stepsBack => exact ⟨rfl, rfl, rfl, rfl⟩
  | awaitsCancellation =>
      simp only [Supervisor.heed, awaitCancellation]
      split
      · exact refl supervisor
      · exact modifyCall supervisor id fun _ => rfl
  | cancelled =>
      simp only [Supervisor.heed, wakeSleepers]
      split
      · exact refl supervisor
      · rename_i call _
        have woken : Unmoved supervisor (supervisor.wakeAll call.sleepers) := ⟨rfl, rfl, rfl, rfl⟩
        exact woken.trans (modifyCall _ id fun _ => rfl)

theorem heedAll (supervisor : Supervisor) (task : SupervisorTask) (id : Nat)
    {effects : List PlanEffect} (alone : ∀ effect ∈ effects, effect.isBranch = false) :
    Unmoved supervisor (effects.foldl (Supervisor.heed task id) supervisor) := by
  induction effects generalizing supervisor with
  | nil => exact refl supervisor
  | cons effect rest inductionHypothesis =>
      have first := heed supervisor task id (alone effect List.mem_cons_self)
      exact first.trans (inductionHypothesis _ fun other member =>
        alone other (List.mem_cons_of_mem _ member))

end Unmoved

theorem faces_setPhase (supervisor : Supervisor) (id : Nat) (phase : CallPhase) :
    (supervisor.setPhase id phase).faces = setPhaseAt supervisor.faces id phase := by
  apply List.ext_getElem?
  intro position
  rw [getElem?_setPhaseAt]
  simp only [faces, setPhase, modifyCall, List.getElem?_map, List.getElem?_modify]
  cases supervisor.calls[position]? with
  | none => simp
  | some call => by_cases here : id = position <;> simp [here, Call.face]

section Turn

variable {supervisor : Supervisor} {id : Nat} {call : Call} {origin : Station}
  {execution : Execution} {acts : List PlanAct} {ending : Option Ending}

theorem faces_takeOver (found : supervisor.calls[id]? = some call) {context : PlanContext}
    (named : context.plan = call.context.plan) (station : Station) {effects : List PlanEffect}
    (alone : ∀ effect ∈ effects, effect.isBranch = false) :
    let after := supervisor.takeOver (.call id) id context station effects
    after.faces = supervisor.faces ∧ after.branches = supervisor.branches ∧
      after.lock = supervisor.lock ∧ after.station = station := by
  intro after
  have heeded := Unmoved.heedAll
    { supervisor.modifyCall id fun call => { call with context } with station } (.call id) id alone
  refine ⟨heeded.faces.trans ?_, heeded.branches, heeded.lock, heeded.station⟩
  apply supervisor.faces_modifyCall id
  intro other same
  obtain rfl := Option.some.inj (found.symm.trans same)
  simp only [Call.face, named]

/-- The call goes on, or comes to its end and releases the lock. -/
theorem settleTurn_cases (found : supervisor.calls[id]? = some call)
    (tells : execution.Tells call.context.plan origin acts ending) :
    let after := supervisor.settleTurn id execution
    after.branches = supervisor.branches ∧ after.station = execution.station ∧
      ((ending = none ∧ after.lock = supervisor.lock ∧ ∃ course tick,
          PlanStep.Private course.remaining ∧
            after.faces = setPhaseAt supervisor.faces id (.running course tick)) ∨
        ∃ last, ending = some last ∧ after.lock = supervisor.lock.release ∧
          after.faces = setPhaseAt supervisor.faces id (.ended last.result)) := by
  obtain ⟨context, station, effects, standing⟩ := execution
  obtain ⟨named, _, alone, stands⟩ := tells
  obtain ⟨faces, branches, lock, sameStation⟩ := faces_takeOver found named station alone
  cases stands with
  | goesOn course tick keeps =>
      refine ⟨branches, sameStation, Or.inl ⟨rfl, lock, course, tick, keeps, ?_⟩⟩
      rw [← faces]
      exact faces_setPhase _ id _
  | ends last =>
      refine ⟨branches, sameStation, Or.inr ⟨last, rfl, ?_, ?_⟩⟩
      · rw [← lock]
        rfl
      · rw [← faces]
        exact faces_setPhase _ id _

end Turn

def plans (supervisor : Supervisor) : List Plan := supervisor.calls.map Call.plan

section Plans

variable (supervisor : Supervisor) (id : Nat)

theorem plans_eq : supervisor.plans = supervisor.faces.map Face.plan := by
  rw [plans, faces, List.map_map]
  rfl

theorem plans_modifyCall {change : Call → Call} (same : ∀ call, (change call).plan = call.plan) :
    (supervisor.modifyCall id change).plans = supervisor.plans := by
  have keeps : ∀ call : Call, (change call).plan = (fun plan => plan) call.plan := same
  exact (map_modify supervisor.calls id keeps).trans (List.modify_id id _)

theorem plans_setPhase (phase : CallPhase) :
    (supervisor.setPhase id phase).plans = supervisor.plans :=
  supervisor.plans_modifyCall id fun _ => rfl

theorem plans_finish (result : Except PlanError Unit) :
    (supervisor.finish id result).plans = supervisor.plans :=
  supervisor.releaseLock.plans_setPhase id (.ended result)

theorem plans_heed (task : SupervisorTask) (effect : PlanEffect) :
    (supervisor.heed task id effect).plans = supervisor.plans := by
  cases effect with
  | published =>
      simp only [heed, wakeRelay]
      split
      · split <;> rfl
      · rfl
  | branched steps => rfl
  | stepsBack => rfl
  | awaitsCancellation =>
      simp only [heed, awaitCancellation]
      split
      · rfl
      · exact supervisor.plans_modifyCall id fun _ => rfl
  | cancelled =>
      simp only [heed, wakeSleepers]
      split
      · rfl
      · exact plans_modifyCall _ id fun _ => rfl

theorem plans_takeOver (task : SupervisorTask) (context : PlanContext) (station : Station)
    (effects : List PlanEffect) :
    (supervisor.takeOver task id context station effects).plans = supervisor.plans := by
  have heeded : ∀ taken : Supervisor,
      (effects.foldl (Supervisor.heed task id) taken).plans = taken.plans := by
    induction effects with
    | nil => exact fun _ => rfl
    | cons effect rest inductionHypothesis =>
        exact fun taken => (inductionHypothesis _).trans (taken.plans_heed id task effect)
  rw [takeOver, heeded]
  exact supervisor.plans_modifyCall id fun _ => rfl

theorem plans_settleTurn (execution : Execution) :
    (supervisor.settleTurn id execution).plans = supervisor.plans := by
  have taken := supervisor.plans_takeOver id (.call id) execution.context execution.station
    execution.effects
  unfold settleTurn
  dsimp only
  split
  · exact (plans_setPhase _ id _).trans taken
  · exact (plans_finish _ id _).trans taken

theorem plans_begin (now : Span) (call : Call) :
    (supervisor.begin now id call).plans = supervisor.plans := by
  unfold begin
  split
  · exact supervisor.plans_finish id _
  · exact supervisor.plans_settleTurn id _

theorem plans_callTurn (now : Span) : (supervisor.callTurn now id).plans = supervisor.plans := by
  unfold callTurn
  split
  · rfl
  · split
    · dsimp only
      split
      · exact plans_begin _ id now _
      · exact plans_setPhase _ id .queued
    · split
      · exact supervisor.plans_begin id now _
      · rfl
    · exact supervisor.plans_settleTurn id _
    · rfl
    · rfl

theorem plans_befall (now : Span) (happening : Execution.Happening) :
    (supervisor.befall now id happening).plans = supervisor.plans := by
  unfold befall
  split
  · exact supervisor.plans_settleTurn id _
  · rfl

/-- A call enters for each plan that is called to be executed, and for no other. -/
theorem plans_step {supervisor : Supervisor} (alone : supervisor.branches = []) (now : Span)
    (move : Move) : (supervisor.step now move).plans = supervisor.plans ++ move.plan?.toList := by
  have stands : move.call? = none → (∀ document, move ≠ .dispatch document) →
      (supervisor.step now move).plans = supervisor.plans ++ move.plan?.toList := by
    intro other own
    have faces := (aside_step alone now other own).faces
    rw [plans_eq, plans_eq, faces, List.map_append, List.map_map]
    cases move.plan? <;> rfl
  have kept : ∀ {after : Supervisor}, after.plans = supervisor.plans →
      after.plans = supervisor.plans ++ [] := fun same => same.trans (List.append_nil _).symm
  cases move with
  | turn task =>
      cases task with
      | call id => exact kept (supervisor.plans_callTurn id now)
      | worker | relay | branch | stop => exact stands rfl (by simp)
  | check id => exact kept (supervisor.plans_befall id now .check)
  | finish id result => exact kept (supervisor.plans_befall id now (.finish result))
  | dispatch document => exact kept rfl
  | execute | shutdown | signal | reset | subscribe | unsubscribe | announce =>
      exact stands rfl (by simp)

end Plans

/-- The calls of a supervisor are served in order, and this is what was told of them. -/
structure Ordered (supervisor : Supervisor) (asked : List Nat) (served : List (Nat × Bool))
    (told : List (Option Nat × Deed)) : Prop where
  branches : supervisor.branches = []
  sound : ∀ face ∈ supervisor.faces, face.Sound
  blocks : ∃ past current waiting,
    Orderly supervisor.faces supervisor.lock asked served past current waiting ∧
      told = (past ++ current.toList).flatMap Block.account

theorem sound_setPhaseAt {faces : List Face} (sound : ∀ face ∈ faces, face.Sound) (id : Nat)
    {phase : CallPhase}
    (keeps : ∀ course tick, phase = .running course tick → PlanStep.Private course.remaining) :
    ∀ face ∈ setPhaseAt faces id phase, face.Sound := by
  intro face member
  rcases mem_setPhaseAt member with before | ⟨former, isFormer, rfl⟩
  · exact sound face before
  · exact ⟨(sound former isFormer).name, (sound former isFormer).alone, keeps⟩

theorem face_mem {supervisor : Supervisor} {id : Nat} {call : Call}
    (found : supervisor.calls[id]? = some call) : call.face ∈ supervisor.faces :=
  List.mem_map_of_mem (List.mem_of_getElem? found)

theorem phaseAt_faces {supervisor : Supervisor} {id : Nat} {call : Call}
    (found : supervisor.calls[id]? = some call) :
    phaseAt supervisor.faces id = some call.phase := by
  simp [phaseAt, faces, found, Call.face]

theorem exists_call_of_phaseAt {supervisor : Supervisor} {id : Nat} {phase : CallPhase}
    (found : phaseAt supervisor.faces id = some phase) :
    ∃ call, supervisor.calls[id]? = some call ∧ call.phase = phase := by
  rw [phaseAt, faces, List.getElem?_map, Option.map_map] at found
  exact Option.map_eq_some_iff.mp found

theorem planAt_faces {supervisor : Supervisor} {id : Nat} {call : Call}
    (found : supervisor.calls[id]? = some call) : planAt supervisor.faces id = some call.plan := by
  simp [planAt, faces, found, Call.face]

theorem shownBy_of_shows {before after : Supervisor} {deeds : List Deed}
    (shows : before.station.Shows after.station deeds) (caller : Option Nat) :
    shownBy before after caller = deeds.map fun deed => (caller, deed) := by
  rw [shownBy, shows.deeds_eq]

/-- A step keeps the calls in order and adds its account to what was told. -/
structure Proceeds (before after : Supervisor) (asked : List Nat) (served : List (Nat × Bool))
    (told account : List (Option Nat × Deed)) : Prop where
  ordered : Ordered after asked served (told ++ account)
  sent : after.station.planEvents =
    before.station.planEvents ++ account.filterMap fun entry => entry.2.event?

theorem Proceeds.of_shows {before after : Supervisor} {asked : List Nat}
    {served : List (Nat × Bool)} {told : List (Option Nat × Deed)} {caller : Option Nat}
    {deeds : List Deed} (shows : before.station.Shows after.station deeds)
    (ordered : Ordered after asked served (told ++ deeds.map fun deed => (caller, deed))) :
    Proceeds before after asked served told (shownBy before after caller) := by
  rw [← shownBy_of_shows shows] at ordered
  refine ⟨ordered, ?_⟩
  rw [shows.sent, shownBy_of_shows shows, List.filterMap_map]
  rfl

section Call

variable {supervisor : Supervisor} {asked : List Nat} {served : List (Nat × Bool)}
  {told : List (Option Nat × Deed)} {id : Nat} {call : Call} {execution : Execution}
  {acts : List PlanAct} {ending : Option Ending}

/-- What the execution of a plan shows in the turn of its call belongs to its block. -/
theorem Ordered.of_settleTurn {faces : List Face} {past : List Block} {block : Block}
    {waiting : List Nat} {origin : Station} (branches : supervisor.branches = [])
    (sound : ∀ face ∈ supervisor.faces, face.Sound)
    (orderly : Orderly faces supervisor.lock asked served past (some block) waiting)
    (same : ∀ phase, setPhaseAt faces block.call phase =
      setPhaseAt supervisor.faces block.call phase)
    (found : supervisor.calls[block.call]? = some call)
    (shown : execution.Tells call.context.plan origin acts ending) :
    Ordered (supervisor.settleTurn block.call execution) asked served
      (past.flatMap Block.account ++ (block.extend acts ending).account) := by
  obtain ⟨stillAlone, _, comes⟩ := settleTurn_cases found shown
  rcases comes with ⟨rfl, lock, course, tick, keeps, after⟩ | ⟨last, rfl, lock, after⟩
  · refine ⟨stillAlone.trans branches, ?_, past, some (block.extend acts none), waiting, ?_, ?_⟩
    · rw [after]
      apply sound_setPhaseAt sound
      rintro laterCourse laterTick ⟨rfl⟩
      exact keeps
    · rw [after, lock, ← same]
      exact orderly.act acts
    · simp
  · refine ⟨stillAlone.trans branches, ?_, past ++ [block.extend acts (some last)], none, waiting,
      ?_, ?_⟩
    · rw [after]
      apply sound_setPhaseAt sound
      intro course tick running
      cases running
    · rw [after, lock, ← same]
      exact orderly.finish acts last
    · simp

theorem plan_eq_name {faces : List Face} {lock : Lock SupervisorTask} {past : List Block}
    {block : Block} {waiting : List Nat} (sound : ∀ face ∈ supervisor.faces, face.Sound)
    (orderly : Orderly faces lock asked served past (some block) waiting)
    (found : supervisor.calls[block.call]? = some call)
    (known : planAt faces block.call = some call.plan) : block.plan = call.context.plan := by
  have named := orderly.named block (by simp)
  rw [known] at named
  rw [← Option.some.inj named]
  exact (sound _ (face_mem found)).name.symm

/-- A call whose plan is executed adds to its block. -/
theorem Ordered.settleTurn (ordered : Ordered supervisor asked served told)
    (found : supervisor.calls[id]? = some call) {course : Course} {tick : Span}
    (running : call.phase = .running course tick)
    (shown : execution.Tells call.context.plan supervisor.station acts ending) :
    let after := supervisor.settleTurn id execution
    Proceeds supervisor after asked served told (shownBy supervisor after (some id)) := by
  obtain ⟨branches, sound, past, current, waiting, orderly, rfl⟩ := ordered
  have runs : phaseAt supervisor.faces id = some (.running course tick) := by
    rw [phaseAt_faces found, running]
  obtain ⟨block, rfl, rfl⟩ := orderly.runs id course tick runs
  have name := plan_eq_name sound orderly found (planAt_faces found)
  have extended := Ordered.of_settleTurn branches sound orderly (fun _ => rfl) found shown
  have shows := shown.shows
  rw [← (settleTurn_cases found shown).2.1] at shows
  apply Proceeds.of_shows shows
  rw [Block.account_extend (orderly.unfinished block rfl).1, name] at extended
  simpa using extended

/-- A call that holds the lock begins to execute its plan, or is refused. -/
theorem Ordered.begin {faces : List Face} {past : List Block} {current : Option Block}
    {waiting : List Nat} (branches : supervisor.branches = [])
    (sound : ∀ face ∈ supervisor.faces, face.Sound)
    (orderly : Orderly faces supervisor.lock asked served past current waiting)
    (same : ∀ phase, setPhaseAt faces id phase = setPhaseAt supervisor.faces id phase)
    (known : planAt faces id = some call.plan) (queued : phaseAt faces id = some .queued)
    (held : supervisor.lock.holder = some (.call id))
    (found : supervisor.calls[id]? = some call) (now : Span) :
    let after := supervisor.begin now id call
    Proceeds supervisor after asked (served ++ [(id, supervisor.stopping)])
      ((past ++ current.toList).flatMap Block.account)
      (shownBy supervisor after (some id)) := by
  intro after
  obtain ⟨rfl, _, _⟩ := orderly.first held queued
  cases stopping : supervisor.stopping with
  | true =>
      have refused : after = supervisor.finish id refusal := by
        simp only [after, Supervisor.begin, stopping, if_true]
        rfl
      have silent : supervisor.station.Shows (supervisor.finish id refusal).station [] :=
        .of_same rfl rfl
      have faces : (supervisor.finish id refusal).faces =
          setPhaseAt supervisor.faces id (.ended refusal) :=
        faces_setPhase supervisor.releaseLock id _
      rw [refused]
      apply Proceeds.of_shows silent
      refine ⟨branches, ?_, past, none, supervisor.lock.release.line, ?_, ?_⟩
      · rw [faces]
        apply sound_setPhaseAt sound
        intro course tick running
        cases running
      · have lock : (supervisor.finish id refusal).lock = supervisor.lock.release := rfl
        rw [faces, lock, ← same]
        exact orderly.refuse held queued
      · simp
  | false =>
      have alone : PlanStep.Private call.plan.steps := (sound _ (face_mem found)).alone
      have name : call.context.plan = call.plan.name := (sound _ (face_mem found)).name
      obtain ⟨started, acts, ending, shown⟩ := Execution.exists_tells_begin
        supervisor.config.pollInterval call.context supervisor.station now alone
      have settled : after = supervisor.settleTurn id (.begin
          supervisor.config.pollInterval call.plan call.context supervisor.station now) := by
        simp only [after, Supervisor.begin, stopping, Bool.false_eq_true, if_false]
      have extended := Ordered.of_settleTurn branches sound
        (orderly.begin (.ready []) 0 held queued known)
        (fun phase => (setPhaseAt_setPhaseAt faces id _ phase).trans (same phase)) found shown
      have shows := started.trans shown.shows
      rw [← (settleTurn_cases found shown).2.1, name] at shows
      rw [settled]
      apply Proceeds.of_shows shows
      simpa [Block.account, Block.deeds, Block.extend] using extended

/-- A turn of a call that has nothing to do. -/
theorem Ordered.idle (ordered : Ordered supervisor asked served told) (caller : Nat) :
    Proceeds supervisor supervisor asked served told
      (shownBy supervisor supervisor (some caller)) := by
  apply Proceeds.of_shows (.refl supervisor.station)
  rw [List.map_nil, List.append_nil]
  exact ordered

theorem Ordered.enterTurn (ordered : Ordered supervisor asked served told)
    (found : supervisor.calls[id]? = some call) (entering : call.phase = .entering) (now : Span) :
    let after := supervisor.step now (.turn (.call id))
    Proceeds supervisor after (asked ++ [id]) (served ++ supervisor.serves (.turn (.call id)))
      told (shownBy supervisor after (some id)) := by
  intro after
  obtain ⟨branches, sound, past, current, waiting, orderly, rfl⟩ := ordered
  have enters : phaseAt supervisor.faces id = some .entering := by
    rw [phaseAt_faces found, entering]
  have asks := orderly.ask enters
  let asking : Supervisor := { supervisor with lock := supervisor.lock.ask (.call id) }
  by_cases held : (supervisor.lock.ask (.call id)).holder = some (.call id)
  · have begins : after = asking.begin now id call := by
      simp only [after, step, turn, callTurn, found, entering, held, if_true, asking]
    have serves : supervisor.serves (.turn (.call id)) = [(id, supervisor.stopping)] := by
      simp only [serves, phase?, enters, held, if_true]
    have known : planAt (setPhaseAt supervisor.faces id .queued) id = some call.plan := by
      rw [planAt_setPhaseAt, planAt_faces found]
    have alone : asking.branches = [] := branches
    have begun := Ordered.begin alone sound asks (setPhaseAt_setPhaseAt supervisor.faces id _)
      known (phaseAt_self enters) held found now
    rw [serves, begins]
    exact ⟨begun.ordered, begun.sent⟩
  · have waits : after = asking.setPhase id .queued := by
      simp only [after, step, turn, callTurn, found, entering, held, if_false, asking]
    have serves : supervisor.serves (.turn (.call id)) = [] := by
      simp only [serves, phase?, enters, held, if_false]
    have silent : supervisor.station.Shows after.station [] := by
      rw [waits]
      exact .refl _
    have faces : after.faces = setPhaseAt supervisor.faces id .queued := by
      rw [waits]
      exact faces_setPhase asking id .queued
    have lock : after.lock = supervisor.lock.ask (.call id) := by
      rw [waits]
      rfl
    apply Proceeds.of_shows silent
    rw [serves, List.map_nil, List.append_nil, List.append_nil]
    refine ⟨?_, ?_, past, current, waiting ++ [id], ?_, rfl⟩
    · rw [waits]
      exact branches
    · rw [faces]
      apply sound_setPhaseAt sound
      intro course tick running
      cases running
    · rw [faces, lock]
      exact asks

theorem Ordered.queuedTurn (ordered : Ordered supervisor asked served told)
    (found : supervisor.calls[id]? = some call) (queued : call.phase = .queued) (now : Span) :
    let after := supervisor.step now (.turn (.call id))
    Proceeds supervisor after asked (served ++ supervisor.serves (.turn (.call id))) told
      (shownBy supervisor after (some id)) := by
  intro after
  have waits : phaseAt supervisor.faces id = some .queued := by
    rw [phaseAt_faces found, queued]
  by_cases held : supervisor.lock.holder = some (.call id)
  · obtain ⟨branches, sound, past, current, waiting, orderly, rfl⟩ := ordered
    have begins : after = supervisor.begin now id call := by
      simp only [after, step, turn, callTurn, found, queued, held, if_true]
    have serves : supervisor.serves (.turn (.call id)) = [(id, supervisor.stopping)] := by
      simp only [serves, phase?, waits, held, if_true]
    rw [serves, begins]
    exact Ordered.begin branches sound orderly (fun _ => rfl) (planAt_faces found) waits held
      found now
  · have stays : after = supervisor := by
      simp only [after, step, turn, callTurn, found, queued, held, if_false]
    have serves : supervisor.serves (.turn (.call id)) = [] := by
      simp only [serves, phase?, waits, held, if_false]
    rw [serves, List.append_nil, stays]
    exact ordered.idle id

theorem Ordered.callTurn (ordered : Ordered supervisor asked served told) (id : Nat)
    (now : Span) :
    let move := Move.turn (.call id)
    let after := supervisor.step now move
    Proceeds supervisor after (asked ++ supervisor.asks move) (served ++ supervisor.serves move)
      told (shownBy supervisor after (some id)) := by
  intro move after
  have notInLine : supervisor.phase? id ≠ some .entering → supervisor.phase? id ≠ some .queued →
      Proceeds supervisor after asked served told (shownBy supervisor after (some id)) →
        Proceeds supervisor after (asked ++ supervisor.asks move)
          (served ++ supervisor.serves move) told (shownBy supervisor after (some id)) := by
    intro entered begun proceeds
    rw [asks_of_ne entered, serves_of_ne entered begun, List.append_nil, List.append_nil]
    exact proceeds
  cases found : supervisor.calls[id]? with
  | none =>
      have stays : after = supervisor := by simp [after, move, step, turn, Supervisor.callTurn, found]
      have unknown : supervisor.phase? id = none := by simp [phase?, phaseAt, faces, found]
      apply notInLine (by simp [unknown]) (by simp [unknown])
      rw [stays]
      exact ordered.idle id
  | some call =>
      have known : supervisor.phase? id = some call.phase := phaseAt_faces found
      cases phase : call.phase with
      | entering =>
          have asks : supervisor.asks move = [id] := by simp only [move, asks, known, phase]
          rw [asks]
          exact ordered.enterTurn found phase now
      | queued =>
          rw [asks_of_ne (by simp [known, phase]), List.append_nil]
          exact ordered.queuedTurn found phase now
      | running course tick =>
          have alone := (ordered.sound _ (face_mem found)).course course tick phase
          obtain ⟨acts, ending, shown⟩ := Execution.exists_tells_proceed
            supervisor.config.pollInterval tick call.context supervisor.station now alone
          have goes : after = supervisor.settleTurn id (.proceed supervisor.config.pollInterval
              course tick call.context supervisor.station now) := by
            simp only [after, move, step, turn, Supervisor.callTurn, found, phase]
          apply notInLine (by simp [known, phase]) (by simp [known, phase])
          rw [goes]
          exact ordered.settleTurn found phase shown
      | ended | dropped =>
          have stays : after = supervisor := by
            simp only [after, move, step, turn, Supervisor.callTurn, found, phase]
          apply notInLine (by simp [known, phase]) (by simp [known, phase])
          rw [stays]
          exact ordered.idle id

/-- The plan of a call that runs may be stopped, or come to its end, between its turns. -/
theorem Ordered.befall (ordered : Ordered supervisor asked served told) (id : Nat) (now : Span)
    {happening : Execution.Happening}
    (shown : ∀ (course : Course) (tick : Span) (context : PlanContext),
      PlanStep.Private course.remaining → ∃ acts ending,
        (Execution.happen supervisor.config.pollInterval
          ⟨context, supervisor.station, [], .running course tick⟩ now happening).Tells
            context.plan supervisor.station acts ending) :
    let after := supervisor.befall now id happening
    Proceeds supervisor after asked served told (shownBy supervisor after (some id)) := by
  intro after
  simp only [after]
  unfold Supervisor.befall
  split
  · rename_i course tick found
    have alone := (ordered.sound _ (face_mem found)).course course tick rfl
    obtain ⟨acts, ending, tells⟩ := shown course tick _ alone
    exact ordered.settleTurn found rfl tells
  · exact ordered.idle id

end Call

section Steps

variable {supervisor : Supervisor} {asked : List Nat} {served : List (Nat × Bool)}
  {told : List (Option Nat × Deed)}

theorem Ordered.aside {after : Supervisor} {fresh : List Face}
    (ordered : Ordered supervisor asked served told) (aside : Aside supervisor after fresh) :
    Proceeds supervisor after asked served told (shownBy supervisor after none) := by
  obtain ⟨branches, sound, past, current, waiting, orderly, rfl⟩ := ordered
  apply Proceeds.of_shows aside.shows
  refine ⟨aside.branches.trans branches, ?_, past, current, waiting, ?_, List.append_nil _⟩
  · intro face member
    rw [aside.faces] at member
    rcases List.mem_append.mp member with before | new
    · exact sound face before
    · exact (aside.areFresh face new).sound
  · rw [aside.faces]
    exact orderly.aside aside.areFresh aside.fair aside.line aside.holder

/-- A document of others reaches the observers at any point of a block and is not counted to
it. -/
theorem Ordered.dispatch (ordered : Ordered supervisor asked served told) (now : Span)
    (document : Document) :
    let after := supervisor.step now (.dispatch document)
    Proceeds supervisor after asked served told
      (accountOf supervisor after (.dispatch document)) := by
  intro after
  have shows : supervisor.station.Shows after.station [.document document] :=
    .dispatch supervisor.station now document
  have nothing : accountOf supervisor after (.dispatch document) = [] := by
    simp [accountOf, shownBy_of_shows shows, Deed.event?]
  rw [nothing]
  refine ⟨?_, shows.sent⟩
  rw [List.append_nil]
  exact ⟨ordered.branches, ordered.sound, ordered.blocks⟩

/-- Whatever a move does, the calls are served in order. -/
theorem Ordered.step (ordered : Ordered supervisor asked served told) (now : Span) (move : Move) :
    let after := supervisor.step now move
    Proceeds supervisor after (asked ++ supervisor.asks move) (served ++ supervisor.serves move)
      told (accountOf supervisor after move) := by
  intro after
  have stands : move.call? = none → (∀ document, move ≠ .dispatch document) →
      Proceeds supervisor after asked served told (shownBy supervisor after none) := by
    intro other own
    exact ordered.aside (aside_step ordered.branches now other own)
  cases move with
  | turn task =>
      cases task with
      | call id => exact ordered.callTurn id now
      | worker | relay | branch | stop =>
          simp only [asks, serves, List.append_nil]
          exact stands rfl (by simp)
  | check id =>
      simp only [asks, serves, List.append_nil]
      apply ordered.befall id now
      intro course tick context alone
      obtain ⟨ending, tells⟩ := Execution.exists_tells_check supervisor.config.pollInterval tick
        context supervisor.station now alone
      exact ⟨[], ending, tells⟩
  | finish id result =>
      simp only [asks, serves, List.append_nil]
      apply ordered.befall id now
      intro course tick context _
      obtain ⟨ending, tells⟩ :=
        Execution.exists_tells_conclude context supervisor.station now result
      exact ⟨[], some ending, tells⟩
  | dispatch document =>
      simp only [asks, serves, List.append_nil]
      exact ordered.dispatch now document
  | execute | shutdown | signal | reset | subscribe | unsubscribe | announce =>
      simp only [asks, serves, List.append_nil]
      exact stands rfl (by simp)

theorem Ordered.run (ordered : Ordered supervisor asked served told) (history : History) :
    Ordered (supervisor.run history) (asked ++ supervisor.asked history)
        (served ++ supervisor.served history) (told ++ supervisor.account history) ∧
      (supervisor.run history).station.planEvents = supervisor.station.planEvents ++
        (supervisor.account history).filterMap fun entry => entry.2.event? := by
  induction history generalizing supervisor asked served told with
  | nil =>
      simp only [Supervisor.asked, Supervisor.served, account, List.append_nil]
      exact ⟨ordered, (List.append_nil _).symm⟩
  | cons entry later inductionHypothesis =>
      obtain ⟨instant, move⟩ := entry
      have proceeds := ordered.step instant move
      obtain ⟨after, sent⟩ := inductionHypothesis proceeds.ordered
      refine ⟨?_, ?_⟩
      · simp only [List.append_assoc] at after
        exact after
      · rw [account, List.filterMap_append, ← List.append_assoc, ← proceeds.sent]
        exact sent

theorem Ordered.plans_run (ordered : Ordered supervisor asked served told) (history : History) :
    (supervisor.run history).plans = supervisor.plans ++ history.plans := by
  induction history generalizing supervisor asked served told with
  | nil => exact (List.append_nil _).symm
  | cons entry later inductionHypothesis =>
      obtain ⟨instant, move⟩ := entry
      have entered := plans_step ordered.branches instant move
      have after := inductionHypothesis (ordered.step instant move).ordered
      have split : History.plans ((instant, move) :: later) =
          move.plan?.toList ++ History.plans later := by
        rw [History.plans, List.filterMap_cons]
        cases move.plan? <;> rfl
      rw [split, ← List.append_assoc, ← entered]
      exact after

theorem ordered_build (draws : Nat → Uid) (config : Config) (listeners : List Listener)
    (subscribers : List Subscriber) :
    Ordered (buildWith draws config listeners subscribers) [] [] [] :=
  ⟨rfl, List.forall_mem_nil _, [], none, [], .start, rfl⟩

end Steps

theorem asked_append (supervisor : Supervisor) (earlier later : History) :
    supervisor.asked (earlier ++ later) =
      supervisor.asked earlier ++ (supervisor.run earlier).asked later := by
  induction earlier generalizing supervisor with
  | nil => rfl
  | cons entry rest inductionHypothesis =>
      obtain ⟨instant, move⟩ := entry
      have goesOn := inductionHypothesis (supervisor.step instant move)
      rw [List.cons_append, Supervisor.asked, Supervisor.asked, goesOn, List.append_assoc]
      rfl

/-- However the calls for executions, the turns of all tasks, resets, shutdowns, listeners and
subscribers interleave, as long as plans keep their contexts to themselves and no call is given
up: each plan that is called to be executed has a call of its own, which asks for the lock once it
is given a turn. What plans show, documents as well as events, is a sequence of blocks, of which only
the last may be unfinished. There is one for each call that was handed the lock and not refused, and
the calls are handed the lock in the order in which they asked for it. The block of a call carries
the name of its plan and ends as the call does. Only a document that others hand to the observers
may fall into a block without belonging to it. -/
theorem executions_in_blocks (draws : Nat → Uid) (config : Config) (listeners : List Listener)
    (subscribers : List Subscriber) (history : History) :
    let start := buildWith draws config listeners subscribers
    let final := start.run history
    final.calls.map Call.plan = history.plans ∧
    (∀ id call, final.calls[id]? = some call →
      (id ∈ start.asked history ↔ call.phase ≠ .entering) ∧
        ∀ now, id ∈ start.asked (history ++ [(now, .turn (.call id))])) ∧
    ∃ blocks : List Block,
      final.station.planEvents = blocks.flatMap Block.events ∧
      start.account history = blocks.flatMap Block.account ∧
      (∀ block ∈ blocks.dropLast, block.ending.isSome = true) ∧
      (start.asked history).Nodup ∧
      (start.served history).map Prod.fst <+: start.asked history ∧
      blocks.map Block.call =
        ((start.served history).filter fun grant => !grant.2).map Prod.fst ∧
      (∀ block ∈ blocks, ∃ call, final.calls[block.call]? = some call ∧
        block.plan = call.plan.name ∧
        match block.ending with
        | none => ∃ course tick, call.phase = .running course tick
        | some ending => call.phase = .ended ending.result) ∧
      (∀ id, (id, true) ∈ start.served history →
        ∃ call, final.calls[id]? = some call ∧ call.phase = .ended refusal) ∧
      ∀ id call result, final.calls[id]? = some call → call.phase = .ended result →
        id ∈ (start.served history).map Prod.fst := by
  intro start final
  have fresh := ordered_build draws config listeners subscribers
  obtain ⟨ordered, sent⟩ := fresh.run history
  obtain ⟨_, _, past, current, waiting, orderly, account⟩ := ordered
  simp only [List.nil_append] at orderly account
  have planOf : ∀ block ∈ past ++ current.toList, ∀ call,
      final.calls[block.call]? = some call → block.plan = call.plan.name := by
    intro block member call found
    have named := orderly.named block member
    rw [planAt_faces found] at named
    exact (Option.some.inj named).symm
  have asks : ∀ id call, final.calls[id]? = some call →
      (id ∈ start.asked history ↔ call.phase ≠ .entering) := by
    intro id call found
    have phase : phaseAt final.faces id = some call.phase := phaseAt_faces found
    rw [orderly.entered id, phase]
    exact ⟨fun ⟨_, same, different⟩ => Option.some.inj same ▸ different,
      fun different => ⟨_, rfl, different⟩⟩
  refine ⟨fresh.plans_run history, fun id call found => ⟨asks id call found, fun now => ?_⟩,
    past ++ current.toList, ?_, account, ?_, orderly.distinct, ⟨waiting, orderly.order.symm⟩,
    orderly.begun, ?_, ?_, ?_⟩
  · rw [asked_append]
    apply List.mem_append.mpr
    by_cases entering : call.phase = .entering
    · have phase : final.phase? id = some .entering := (phaseAt_faces found).trans (by rw [entering])
      have turn : final.asks (.turn (.call id)) = [id] := by simp only [Supervisor.asks, phase]
      refine Or.inr ?_
      change id ∈ final.asks (.turn (.call id)) ++ []
      simp [turn]
    · exact Or.inl ((asks id call found).mpr entering)
  · rw [sent, account, List.filterMap_flatMap]
    simp only [Block.filterMap_account]
    rfl
  · exact fun block member => orderly.isSome_of_mem_dropLast member
  · intro block member
    rcases List.mem_append.mp member with before | here
    · obtain ⟨ending, ends, ended⟩ := orderly.finished block before
      obtain ⟨call, found, phase⟩ := exists_call_of_phaseAt ended
      refine ⟨call, found, planOf block member call found, ?_⟩
      rw [ends]
      exact phase
    · obtain ⟨goesOn, course, tick, running⟩ := orderly.unfinished block (by simpa using here)
      obtain ⟨call, found, phase⟩ := exists_call_of_phaseAt running
      refine ⟨call, found, planOf block member call found, ?_⟩
      rw [goesOn]
      exact ⟨course, tick, phase⟩
  · exact fun id refused => exists_call_of_phaseAt (orderly.refused id refused)
  · intro id call result found ended
    apply orderly.ended id result
    rw [phaseAt_faces found, ended]

end PlanSupervision.Supervisor
