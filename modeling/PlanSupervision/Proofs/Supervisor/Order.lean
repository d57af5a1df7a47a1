import PlanSupervision.Proofs.Supervisor.Moves

/-!
The order in which calls are served. A call asks for the lock, is handed it in the order of
asking, and either is refused or executes its plan in one block before it releases the lock. At
any time at most the last block is unfinished, and it is that of the call which holds the lock.
-/

namespace PlanSupervision

/-- The execution of one plan, from its start to its end. -/
structure Block where
  call : Nat
  plan : String
  acts : List PlanAct
  /-- How the plan came to its end, if it did. -/
  ending : Option Ending

namespace Block

def deeds (block : Block) : List Deed :=
  .event ((Event.ofKind .planStarting).withPlan block.plan) ::
    (block.acts.map (PlanAct.deed block.plan) ++
      block.ending.toList.flatMap (Ending.deeds block.plan))

/-- Its events: the start, a fault of an observer each time, and what tells the end. -/
def events (block : Block) : List Event :=
  (Event.ofKind .planStarting).withPlan block.plan ::
    ((block.acts.filterMap PlanAct.fault?).map (PlanContext.faultEvent block.plan) ++
      block.ending.toList.flatMap (Ending.events block.plan))

theorem events_eq (block : Block) : block.deeds.filterMap Deed.event? = block.events := by
  have faults : ∀ acts : List PlanAct,
      (acts.map (PlanAct.deed block.plan)).filterMap Deed.event? =
        (acts.filterMap PlanAct.fault?).map (PlanContext.faultEvent block.plan) := by
    intro acts
    induction acts with
    | nil => rfl
    | cons act rest inductionHypothesis =>
        cases act with
        | hands document => exact inductionHypothesis
        | faults fault => exact congrArg (List.cons _) inductionHypothesis
  have told : (block.ending.toList.flatMap (Ending.deeds block.plan)).filterMap Deed.event? =
      block.ending.toList.flatMap (Ending.events block.plan) := by
    cases block.ending with
    | none => rfl
    | some ending => simp [Ending.filterMap_deeds]
  rw [events, ← faults, ← told, ← List.filterMap_append]
  rfl

/-- The deeds of a block, each done in a turn of its call. -/
def account (block : Block) : List (Option Nat × Deed) :=
  block.deeds.map fun deed => (some block.call, deed)

theorem filterMap_account (block : Block) :
    (block.account.filterMap fun entry => entry.2.event?) = block.events := by
  rw [account, List.filterMap_map]
  exact block.events_eq

def extend (block : Block) (acts : List PlanAct) (ending : Option Ending) : Block :=
  { block with acts := block.acts ++ acts, ending }

theorem account_extend {block : Block} (goesOn : block.ending = none) (acts : List PlanAct)
    (ending : Option Ending) :
    (block.extend acts ending).account = block.account ++
      (acts.map (PlanAct.deed block.plan) ++
        ending.toList.flatMap (Ending.deeds block.plan)).map fun deed =>
          (some block.call, deed) := by
  simp [account, deeds, extend, goesOn]

end Block

def phaseAt (faces : List Face) (id : Nat) : Option CallPhase := faces[id]?.map Face.phase

def planAt (faces : List Face) (id : Nat) : Option Plan := faces[id]?.map Face.plan

def setPhaseAt (faces : List Face) (id : Nat) (phase : CallPhase) : List Face :=
  faces.modify id fun face => { face with phase }

section Phases

variable {faces : List Face} {id other : Nat} {old new phase : CallPhase}

theorem getElem?_setPhaseAt (faces : List Face) (id other : Nat) (phase : CallPhase) :
    (setPhaseAt faces id phase)[other]? =
      if id = other then faces[other]?.map fun face => { face with phase } else faces[other]? := by
  rw [setPhaseAt, List.getElem?_modify]
  by_cases same : id = other <;> cases faces[other]? <;> simp [same]

theorem planAt_setPhaseAt (faces : List Face) (id other : Nat) (phase : CallPhase) :
    planAt (setPhaseAt faces id phase) other = planAt faces other := by
  rw [planAt, getElem?_setPhaseAt]
  split
  · rw [Option.map_map]
    rfl
  · rfl

theorem phaseAt_self (known : phaseAt faces id = some old) :
    phaseAt (setPhaseAt faces id new) id = some new := by
  rw [phaseAt, getElem?_setPhaseAt, if_pos rfl, Option.map_map]
  obtain ⟨face, found, _⟩ := Option.map_eq_some_iff.mp known
  rw [found]
  rfl

theorem phaseAt_of_ne (different : other ≠ id) :
    phaseAt (setPhaseAt faces id new) other = phaseAt faces other := by
  rw [phaseAt, getElem?_setPhaseAt, if_neg (Ne.symm different)]
  rfl

/-- The phase of a call is kept if it is not the one that changes. -/
theorem phaseAt_keeps (known : phaseAt faces id = some old)
    (found : phaseAt faces other = some phase) (different : phase ≠ old) :
    phaseAt (setPhaseAt faces id new) other = some phase := by
  have otherCall : other ≠ id := by
    rintro rfl
    exact different (Option.some.inj (found.symm.trans known))
  rw [phaseAt_of_ne otherCall, found]

/-- A phase that is not the new one was there before. -/
theorem phaseAt_of_setPhaseAt (known : phaseAt faces id = some old)
    (found : phaseAt (setPhaseAt faces id new) other = some phase) (different : phase ≠ new) :
    phaseAt faces other = some phase := by
  by_cases same : other = id
  · subst same
    rw [phaseAt_self known] at found
    exact absurd (Option.some.inj found).symm different
  · rwa [phaseAt_of_ne same] at found

theorem setPhaseAt_setPhaseAt (faces : List Face) (id : Nat) (old new : CallPhase) :
    setPhaseAt (setPhaseAt faces id old) id new = setPhaseAt faces id new := by
  rw [setPhaseAt, setPhaseAt, List.modify_modify_eq]
  rfl

theorem mem_setPhaseAt {face : Face} (member : face ∈ setPhaseAt faces id phase) :
    face ∈ faces ∨ ∃ former ∈ faces, face = { former with phase } := by
  obtain ⟨position, found⟩ := List.mem_iff_getElem?.mp member
  rw [getElem?_setPhaseAt] at found
  split at found
  · obtain ⟨former, isFormer, rfl⟩ := Option.map_eq_some_iff.mp found
    exact Or.inr ⟨former, List.mem_of_getElem? isFormer, rfl⟩
  · exact Or.inl (List.mem_of_getElem? found)

end Phases

theorem Lock.line_ask_call {lock : Lock SupervisorTask} (fair : lock.Fair) (id : Nat) :
    (lock.ask (.call id)).line = lock.line ++ [id] := by
  cases held : lock.holder with
  | none => simp [ask, line, held, fair held, SupervisorTask.call?]
  | some holder =>
      simp only [ask, line, held, ← List.append_assoc]
      rw [List.filterMap_append]
      rfl

theorem Lock.line_of_holder {lock : Lock SupervisorTask} {id : Nat}
    (held : lock.holder = some (.call id)) : lock.line = id :: lock.release.line := by
  rw [line_release, line, held]
  rfl

/-- The answer to a call that is handed the lock when the supervisor shuts down. -/
def refusal : Except PlanError Unit := .error (.aborted "supervisor is shutting down")

/-- The calls asked for the lock in this order, and these of them were handed it, each with
whether it was refused. The plans of the others were executed in blocks, of which the current
one goes on. The calls that are left wait in line. -/
structure Orderly (faces : List Face) (lock : Lock SupervisorTask) (asked : List Nat)
    (served : List (Nat × Bool)) (past : List Block) (current : Option Block)
    (waiting : List Nat) : Prop where
  fair : lock.Fair
  line : lock.line = current.toList.map Block.call ++ waiting
  holds : ∀ block ∈ current, lock.holder = some (.call block.call)
  waits : ∀ id ∈ waiting, phaseAt faces id = some .queued
  runs : ∀ id course tick, phaseAt faces id = some (.running course tick) →
    ∃ block ∈ current, block.call = id
  order : asked = served.map Prod.fst ++ waiting
  distinct : asked.Nodup
  entered : ∀ id, id ∈ asked ↔ ∃ phase, phaseAt faces id = some phase ∧ phase ≠ .entering
  begun : (past ++ current.toList).map Block.call =
    (served.filter fun grant => !grant.2).map Prod.fst
  refused : ∀ id, (id, true) ∈ served → phaseAt faces id = some (.ended refusal)
  ended : ∀ id result, phaseAt faces id = some (.ended result) → id ∈ served.map Prod.fst
  finished : ∀ block ∈ past, ∃ ending, block.ending = some ending ∧
    phaseAt faces block.call = some (.ended ending.result)
  unfinished : ∀ block ∈ current, block.ending = none ∧
    ∃ course tick, phaseAt faces block.call = some (.running course tick)
  named : ∀ block ∈ past ++ current.toList,
    (planAt faces block.call).map Plan.name = some block.plan

namespace Orderly

variable {faces : List Face} {lock : Lock SupervisorTask} {asked : List Nat}
  {served : List (Nat × Bool)} {past : List Block} {current : Option Block}
  {waiting : List Nat} {id : Nat}

theorem start : Orderly [] .free [] [] [] none [] := by
  constructor <;> simp [Lock.Fair, Lock.free, Lock.line, phaseAt]

/-- Others pass the lock among themselves, and new calls enter. -/
theorem aside (orderly : Orderly faces lock asked served past current waiting)
    {fresh : List Face} (areFresh : ∀ face ∈ fresh, face.Fresh) {after : Lock SupervisorTask}
    (fair : lock.Fair → after.Fair) (line : after.line = lock.line)
    (holder : ∀ id, lock.holder = some (.call id) → after.holder = some (.call id)) :
    Orderly (faces ++ fresh) after asked served past current waiting := by
  have keeps : ∀ {id phase}, phaseAt faces id = some phase →
      phaseAt (faces ++ fresh) id = some phase := by
    intro id phase found
    obtain ⟨face, known, rfl⟩ := Option.map_eq_some_iff.mp found
    rw [phaseAt, List.getElem?_append_left (List.getElem?_eq_some_iff.mp known).1, known]
    rfl
  have former : ∀ {id phase}, phaseAt (faces ++ fresh) id = some phase → phase ≠ .entering →
      phaseAt faces id = some phase := by
    intro id phase found different
    by_cases known : id < faces.length
    · rwa [phaseAt, List.getElem?_append_left known] at found
    · rw [phaseAt, List.getElem?_append_right (Nat.le_of_not_lt known)] at found
      obtain ⟨face, isFresh, rfl⟩ := Option.map_eq_some_iff.mp found
      exact absurd (areFresh face (List.mem_of_getElem? isFresh)).phase different
  refine ⟨fair orderly.fair, line.trans orderly.line, ?_, ?_, ?_, orderly.order,
    orderly.distinct, ?_, orderly.begun, ?_, ?_, ?_, ?_, ?_⟩
  · exact fun block isCurrent => holder block.call (orderly.holds block isCurrent)
  · exact fun id member => keeps (orderly.waits id member)
  · exact fun id course tick found => orderly.runs id course tick (former found (by simp))
  · intro id
    rw [orderly.entered id]
    exact exists_congr fun phase =>
      ⟨fun ⟨found, different⟩ => ⟨keeps found, different⟩,
        fun ⟨found, different⟩ => ⟨former found different, different⟩⟩
  · exact fun id member => keeps (orderly.refused id member)
  · exact fun id result found => orderly.ended id result (former found (by simp))
  · intro block member
    obtain ⟨ending, ends, found⟩ := orderly.finished block member
    exact ⟨ending, ends, keeps found⟩
  · intro block isCurrent
    obtain ⟨goesOn, course, tick, found⟩ := orderly.unfinished block isCurrent
    exact ⟨goesOn, course, tick, keeps found⟩
  · intro block member
    obtain ⟨plan, found, name⟩ := Option.map_eq_some_iff.mp (orderly.named block member)
    obtain ⟨face, known, rfl⟩ := Option.map_eq_some_iff.mp found
    rw [planAt, List.getElem?_append_left (List.getElem?_eq_some_iff.mp known).1, known]
    exact congrArg some name

/-- What is known of the calls and does not depend on how far one of them has come, as long as it
has not come to its end. -/
structure Elsewhere (faces : List Face) (served : List (Nat × Bool)) (blocks past : List Block)
    (waiting : List Nat) (id : Nat) : Prop where
  refused : ∀ other, (other, true) ∈ served → phaseAt faces other = some (.ended refusal)
  finished : ∀ block ∈ past, ∃ ending, block.ending = some ending ∧
    phaseAt faces block.call = some (.ended ending.result)
  waits : ∀ other ∈ waiting, other ≠ id → phaseAt faces other = some .queued
  named : ∀ block ∈ blocks, (planAt faces block.call).map Plan.name = some block.plan

theorem elsewhere (orderly : Orderly faces lock asked served past current waiting)
    {old : CallPhase} (new : CallPhase) (known : phaseAt faces id = some old)
    (unsettled : ∀ result, old ≠ .ended result) :
    Elsewhere (setPhaseAt faces id new) served (past ++ current.toList) past waiting id := by
  refine ⟨?_, ?_, ?_, ?_⟩
  · exact fun other member =>
      phaseAt_keeps known (orderly.refused other member) (unsettled _).symm
  · intro block member
    obtain ⟨ending, ends, found⟩ := orderly.finished block member
    exact ⟨ending, ends, phaseAt_keeps known found (unsettled _).symm⟩
  · intro other member different
    rw [phaseAt_of_ne different]
    exact orderly.waits other member
  · intro block member
    rw [planAt_setPhaseAt]
    exact orderly.named block member

/-- The calls that asked for the lock, and the one that does now, are those that do not enter any
more. -/
theorem entered_setPhaseAt (orderly : Orderly faces lock asked served past current waiting)
    {old new : CallPhase} (known : phaseAt faces id = some old) (comes : new ≠ .entering)
    (other : Nat) : other ∈ asked ∨ other = id ↔
      ∃ phase, phaseAt (setPhaseAt faces id new) other = some phase ∧ phase ≠ .entering := by
  by_cases same : other = id
  · subst same
    exact iff_of_true (Or.inr rfl) ⟨new, phaseAt_self known, comes⟩
  · rw [phaseAt_of_ne same, or_iff_left same]
    exact orderly.entered other

theorem entered_of_begun (orderly : Orderly faces lock asked served past current waiting)
    {old new : CallPhase} (known : phaseAt faces id = some old) (begun : old ≠ .entering)
    (comes : new ≠ .entering) (other : Nat) : other ∈ asked ↔
      ∃ phase, phaseAt (setPhaseAt faces id new) other = some phase ∧ phase ≠ .entering := by
  have member : id ∈ asked := (orderly.entered id).mpr ⟨old, known, begun⟩
  rw [← orderly.entered_setPhaseAt known comes other, or_iff_left_of_imp]
  rintro rfl
  exact member

/-- A call asks for the lock. -/
theorem ask (orderly : Orderly faces lock asked served past current waiting)
    (entering : phaseAt faces id = some .entering) :
    Orderly (setPhaseAt faces id .queued) (lock.ask (.call id)) (asked ++ [id]) served past
      current (waiting ++ [id]) := by
  have kept := orderly.elsewhere .queued entering (by simp)
  have unknown : id ∉ asked := by
    intro member
    obtain ⟨phase, found, different⟩ := (orderly.entered id).mp member
    exact different (Option.some.inj (found.symm.trans entering))
  refine ⟨Lock.fair_ask _, ?_, ?_, ?_, ?_, ?_, ?_, ?_, orderly.begun, kept.refused, ?_,
    kept.finished, ?_, kept.named⟩
  · rw [Lock.line_ask_call orderly.fair, orderly.line, List.append_assoc]
  · exact fun block isCurrent => Lock.holder_ask (orderly.holds block isCurrent)
  · intro other member
    rcases List.mem_append.mp member with before | here
    · exact phaseAt_keeps entering (orderly.waits other before) (by simp)
    · obtain rfl := List.mem_singleton.mp here
      exact phaseAt_self entering
  · intro other course tick found
    exact orderly.runs other course tick (phaseAt_of_setPhaseAt entering found (by simp))
  · rw [orderly.order, List.append_assoc]
  · refine List.nodup_append.mpr ⟨orderly.distinct, by simp, ?_⟩
    intro other member another here
    obtain rfl := List.mem_singleton.mp here
    rintro rfl
    exact unknown member
  · intro other
    rw [List.mem_append, List.mem_singleton]
    exact orderly.entered_setPhaseAt entering (by simp) other
  · intro other result found
    exact orderly.ended other result (phaseAt_of_setPhaseAt entering found (by simp))
  · intro block isCurrent
    obtain ⟨goesOn, course, tick, found⟩ := orderly.unfinished block isCurrent
    exact ⟨goesOn, course, tick, phaseAt_keeps entering found (by simp)⟩

/-- Who holds the lock and has not begun is the first in line, and no plan runs. -/
theorem first (orderly : Orderly faces lock asked served past current waiting)
    (held : lock.holder = some (.call id)) (queued : phaseAt faces id = some .queued) :
    current = none ∧ waiting = id :: lock.release.line ∧
      ∀ other ∈ lock.release.line, other ≠ id := by
  have nobody : current = none := by
    cases running : current with
    | none => rfl
    | some block =>
        have holds := orderly.holds block running
        rw [held] at holds
        obtain ⟨_, course, tick, found⟩ := orderly.unfinished block running
        cases holds
        rw [queued] at found
        cases found
  have line : waiting = id :: lock.release.line := by
    have line := orderly.line
    rw [Lock.line_of_holder held, nobody] at line
    exact line.symm
  have distinct := orderly.distinct
  rw [orderly.order, line] at distinct
  have others := (List.nodup_cons.mp (List.nodup_append.mp distinct).2.1).1
  refine ⟨nobody, line, ?_⟩
  rintro other member rfl
  exact others member

/-- The first in line begins to execute its plan. -/
theorem begin {plan : Plan} (orderly : Orderly faces lock asked served past current waiting)
    (course : Course) (tick : Span)
    (held : lock.holder = some (.call id)) (queued : phaseAt faces id = some .queued)
    (known : planAt faces id = some plan) :
    Orderly (setPhaseAt faces id (.running course tick)) lock asked (served ++ [(id, false)]) past
      (some ⟨id, plan.name, [], none⟩) lock.release.line := by
  obtain ⟨rfl, rfl, others⟩ := orderly.first held queued
  have kept := orderly.elsewhere (.running course tick) queued (by simp)
  refine ⟨orderly.fair, Lock.line_of_holder held, ?_, ?_, ?_, ?_, orderly.distinct,
    orderly.entered_of_begun queued (by simp) (by simp),
    ?_, ?_, ?_, kept.finished, ?_, ?_⟩
  · rintro block ⟨rfl⟩
    exact held
  · intro other member
    exact kept.waits other (List.mem_cons_of_mem _ member) (others other member)
  · intro other laterCourse laterTick found
    by_cases same : other = id
    · exact ⟨_, rfl, same.symm⟩
    · rw [phaseAt_of_ne same] at found
      obtain ⟨block, isCurrent, _⟩ := orderly.runs other laterCourse laterTick found
      cases isCurrent
  · rw [orderly.order, List.map_append, List.append_assoc]
    rfl
  · have begun := orderly.begun
    rw [Option.toList_none, List.append_nil] at begun
    simp [begun]
  · intro other member
    rcases List.mem_append.mp member with before | here
    · exact kept.refused other before
    · simp at here
  · intro other result found
    rw [List.map_append]
    exact List.mem_append_left _
      (orderly.ended other result (phaseAt_of_setPhaseAt queued found (by simp)))
  · rintro block ⟨rfl⟩
    exact ⟨rfl, course, tick, phaseAt_self queued⟩
  · intro block member
    rcases List.mem_append.mp member with before | here
    · exact kept.named block (List.mem_append_left _ before)
    · obtain rfl := List.mem_singleton.mp here
      rw [planAt_setPhaseAt, known]
      rfl

/-- The first in line is refused. -/
theorem refuse (orderly : Orderly faces lock asked served past current waiting)
    (held : lock.holder = some (.call id)) (queued : phaseAt faces id = some .queued) :
    Orderly (setPhaseAt faces id (.ended refusal)) lock.release asked (served ++ [(id, true)]) past
      none lock.release.line := by
  obtain ⟨rfl, rfl, others⟩ := orderly.first held queued
  have kept := orderly.elsewhere (.ended refusal) queued (by simp)
  refine ⟨lock.fair_release, rfl, by simp, ?_, ?_, ?_, orderly.distinct,
    orderly.entered_of_begun queued (by simp) (by simp), ?_, ?_, ?_,
    kept.finished, by simp, kept.named⟩
  · intro other member
    exact kept.waits other (List.mem_cons_of_mem _ member) (others other member)
  · intro other course tick found
    exact orderly.runs other course tick (phaseAt_of_setPhaseAt queued found (by simp))
  · rw [orderly.order, List.map_append, List.append_assoc]
    rfl
  · rw [orderly.begun]
    simp
  · intro other member
    rcases List.mem_append.mp member with before | here
    · exact kept.refused other before
    · cases List.mem_singleton.mp here
      exact phaseAt_self queued
  · intro other result found
    rw [List.map_append]
    by_cases same : other = id
    · exact List.mem_append_right _ (by simp [same])
    · rw [phaseAt_of_ne same] at found
      exact List.mem_append_left _ (orderly.ended other result found)

variable {block : Block}

/-- Only the last block may be unfinished. -/
theorem isSome_of_mem_dropLast
    (orderly : Orderly faces lock asked served past current waiting)
    (member : block ∈ (past ++ current.toList).dropLast) : block.ending.isSome = true := by
  have isPast : block ∈ past := by
    cases current with
    | none =>
        rw [Option.toList_none, List.append_nil] at member
        exact List.dropLast_subset _ member
    | some running =>
        rwa [Option.toList_some, List.dropLast_concat] at member
  obtain ⟨ending, ends, _⟩ := orderly.finished block isPast
  rw [ends]
  rfl

/-- A block carries the same name after it was extended. -/
theorem Elsewhere.named_extend
    (kept : Elsewhere faces served (past ++ [block]) past waiting id) (acts : List PlanAct)
    (ending : Option Ending) : ∀ other ∈ past ++ [block.extend acts ending],
      (planAt faces other.call).map Plan.name = some other.plan := by
  intro other member
  rcases List.mem_append.mp member with before | here
  · exact kept.named other (List.mem_append_left _ before)
  · obtain rfl := List.mem_singleton.mp here
    exact kept.named block (List.mem_append_right _ (List.mem_singleton.mpr rfl))

/-- The plan that is executed acts, and goes on. -/
theorem act {course : Course} {tick : Span}
    (orderly : Orderly faces lock asked served past (some block) waiting) (acts : List PlanAct) :
    Orderly (setPhaseAt faces block.call (.running course tick)) lock asked served past
      (some (block.extend acts none)) waiting := by
  obtain ⟨_, formerCourse, formerTick, running⟩ := orderly.unfinished block rfl
  have kept := orderly.elsewhere (.running course tick) running (by simp)
  have begun : (past ++ (some (block.extend acts none)).toList).map Block.call =
      (served.filter fun grant => !grant.2).map Prod.fst := by
    rw [← orderly.begun]
    simp [Block.extend]
  refine ⟨orderly.fair, orderly.line, ?_, ?_, ?_, orderly.order, orderly.distinct,
    orderly.entered_of_begun running (by simp) (by simp),
    begun, kept.refused, ?_, kept.finished, ?_, ?_⟩
  · rintro extended ⟨rfl⟩
    exact orderly.holds block rfl
  · intro other member
    exact phaseAt_keeps running (orderly.waits other member) (by simp)
  · intro other laterCourse laterTick found
    by_cases same : other = block.call
    · exact ⟨_, rfl, same.symm⟩
    · rw [phaseAt_of_ne same] at found
      obtain ⟨_, ⟨rfl⟩, isBlock⟩ := orderly.runs other laterCourse laterTick found
      exact ⟨_, rfl, isBlock⟩
  · intro other result found
    exact orderly.ended other result (phaseAt_of_setPhaseAt running found (by simp))
  · rintro extended ⟨rfl⟩
    exact ⟨rfl, course, tick, phaseAt_self running⟩
  · exact kept.named_extend acts none

/-- The plan that is executed comes to its end, and the lock is released. -/
theorem finish (orderly : Orderly faces lock asked served past (some block) waiting)
    (acts : List PlanAct) (ending : Ending) :
    Orderly (setPhaseAt faces block.call (.ended ending.result)) lock.release asked served
      (past ++ [block.extend acts (some ending)]) none waiting := by
  obtain ⟨_, course, tick, running⟩ := orderly.unfinished block rfl
  have kept := orderly.elsewhere (.ended ending.result) running (by simp)
  have begun := orderly.begun
  refine ⟨lock.fair_release, ?_, by simp, ?_, ?_, orderly.order, orderly.distinct,
    orderly.entered_of_begun running (by simp) (by simp),
    ?_, kept.refused, ?_, ?_, by simp, ?_⟩
  · have line := orderly.line
    rw [Lock.line_of_holder (orderly.holds block rfl)] at line
    exact (List.cons.inj line).2
  · intro other member
    exact phaseAt_keeps running (orderly.waits other member) (by simp)
  · intro other laterCourse laterTick found
    by_cases same : other = block.call
    · subst same
      rw [phaseAt_self running] at found
      cases found
    · rw [phaseAt_of_ne same] at found
      obtain ⟨_, ⟨rfl⟩, isBlock⟩ := orderly.runs other laterCourse laterTick found
      exact absurd isBlock.symm same
  · rw [← begun]
    simp [Block.extend]
  · intro other result found
    by_cases same : other = block.call
    · have isServed : block.call ∈ (served.filter fun grant => !grant.2).map Prod.fst := by
        rw [← begun]
        simp
      obtain ⟨grant, member, isCall⟩ := List.mem_map.mp isServed
      rw [same, ← isCall]
      exact List.mem_map_of_mem (List.mem_filter.mp member).1
    · rw [phaseAt_of_ne same] at found
      exact orderly.ended other result found
  · intro other member
    rcases List.mem_append.mp member with before | here
    · exact kept.finished other before
    · obtain rfl := List.mem_singleton.mp here
      exact ⟨ending, rfl, phaseAt_self running⟩
  · rw [Option.toList_none, List.append_nil]
    exact kept.named_extend acts (some ending)

end Orderly

end PlanSupervision
