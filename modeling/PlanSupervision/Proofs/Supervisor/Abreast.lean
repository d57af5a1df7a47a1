import PlanSupervision.Proofs.Supervisor.Solitude

/-!
A call beside a call that is alone. The one executes a plan on a supervisor that others use as well,
the other executes the same plan sooner by a delay on a supervisor of its own. What is done for the
one takes the other as far; what others do leaves both where they are, unless it resets the watchdog.
-/

namespace PlanSupervision

open Supervisor

def CallPhase.delayed (delay : Span) : CallPhase → CallPhase
  | .running course tick => .running (course.delayed delay) (tick + delay)
  | phase => phase

/-- The instants for which a call waits. -/
def CallPhase.deadlines : CallPhase → List Span
  | .running course tick => course.deadline?.toList ++ [tick]
  | _ => []

theorem CallPhase.deadlines_delayed (phase : CallPhase) (delay : Span) :
    (phase.delayed delay).deadlines = phase.deadlines.map (· + delay) := by
  cases phase with
  | running course tick =>
      simp only [delayed, deadlines, course.deadline?_delayed]
      cases course.deadline? <;> rfl
  | entering | queued | ended result | dropped => rfl

def Branch.isOf (id : Nat) (branch : Branch) : Bool := branch.call = id

/-- A branch of the call that is alone, as it is for the call among others. -/
def Branch.delayed (delay : Span) (id : Nat) (branch : Branch) : Branch :=
  ⟨id, branch.course.map (Course.delayed delay)⟩

/-- A branch of the call that is alone, which draws no uid for a run. -/
structure Branch.Single (branch : Branch) : Prop where
  call : branch.call = 0
  explicit : ∀ course, branch.course = some course → course.Explicit

theorem Standing.course?_delayed (standing : Standing) (delay : Span) :
    (standing.delayed delay).course? = standing.course?.map (Course.delayed delay) := by
  cases standing <;> rfl

theorem Standing.eq_open_of_course? {standing : Standing} {course : Course}
    (same : standing.course? = some course) : standing = .open course := by
  cases standing with
  | «open» other => exact congrArg Standing.open (Option.some.inj same)
  | ended result => cases same

section Filter

variable {Element : Type} {keeps : Element → Bool} {elements : List Element} {index : Nat}
  {element : Element} {change : Element → Element}

theorem getElem?_filter_of_kept (found : elements[index]? = some element)
    (kept : keeps element = true) :
    (elements.filter keeps)[(elements.take index).countP keeps]? = some element := by
  induction elements generalizing index with
  | nil => cases found
  | cons head rest inductionHypothesis =>
      cases index with
      | zero =>
          obtain rfl := Option.some.inj found
          simp [kept]
      | succ index =>
          have later := inductionHypothesis found
          cases first : keeps head with
          | true => simp [first, later]
          | false => simp [first, later]

/-- A change at one place, which others do not take for another. -/
theorem filter_modify (same : ∀ element, keeps (change element) = keeps element)
    (found : elements[index]? = some element) :
    (elements.modify index change).filter keeps = if keeps element then
        (elements.filter keeps).modify ((elements.take index).countP keeps) change
      else elements.filter keeps := by
  induction elements generalizing index with
  | nil => cases found
  | cons head rest inductionHypothesis =>
      cases index with
      | zero =>
          obtain rfl := Option.some.inj found
          cases first : keeps head with
          | true => simp [first, same]
          | false => simp [first, same]
      | succ index =>
          have later := inductionHypothesis found
          cases first : keeps head with
          | true =>
              simp only [List.modify_succ_cons, List.filter_cons, List.take_succ_cons,
                List.countP_cons, first, if_true, later]
              split <;> simp
          | false => simp [first, later]

theorem forall_mem_modify {property : Element → Prop} (index : Nat)
    (each : ∀ element ∈ elements, property element)
    (stays : ∀ element, property element → property (change element)) :
    ∀ element ∈ elements.modify index change, property element := by
  intro element member
  obtain ⟨position, found⟩ := List.mem_iff_getElem?.mp member
  rw [List.getElem?_modify] at found
  obtain ⟨before, isThere, same⟩ := Option.map_eq_some_iff.mp found
  have holds := each before (List.mem_of_getElem? isThere)
  split at same
  · exact same ▸ stays before holds
  · exact same ▸ holds

end Filter

namespace Core

/-- The branches that belong to a call. -/
def branchesOf (core : Core) (id : Nat) : List Branch :=
  core.branches.filter (Branch.isOf id)

/-- Which of the branches of a call a branch is. -/
def rank (branches : List Branch) (id index : Nat) : Nat :=
  (branches.take index).countP (Branch.isOf id)

/-- What counts for the plan of the one call is what counts for the plan of the other, later by a
delay. -/
structure Abreast (delay : Span) (id : Nat) (shared alone : Core) : Prop where
  config : shared.config = alone.config
  twins : Station.Twins delay shared.station alone.station
  contexts : ∃ seat twin, shared.seats[id]? = some seat ∧ alone.seats[0]? = some twin ∧
    seat.context = twin.context
  branches : shared.branchesOf id = alone.branches.map (Branch.delayed delay id)
  single : ∀ branch ∈ alone.branches, branch.Single

section Abreast

variable {delay now : Span} {id index : Nat} {shared alone after : Core}

theorem filter_started (delay : Span) (id : Nat) (effects : List PlanEffect) :
    (effects.filterMap (PlanEffect.started? id)).filter (Branch.isOf id) =
      (effects.filterMap (PlanEffect.started? 0)).map (Branch.delayed delay id) := by
  induction effects with
  | nil => rfl
  | cons effect rest inductionHypothesis =>
      cases effect with
      | branched steps =>
          simp [PlanEffect.started?, inductionHypothesis, Branch.isOf, Branch.delayed,
            Course.delayed]
      | _ => exact inductionHypothesis

theorem Abreast.append_started (abreast : Abreast delay id shared alone)
    (effects : List PlanEffect) :
    (shared.branches ++ effects.filterMap (PlanEffect.started? id)).filter (Branch.isOf id) =
      (alone.branches ++ effects.filterMap (PlanEffect.started? 0)).map
        (Branch.delayed delay id) := by
  rw [List.filter_append, List.map_append, filter_started delay]
  exact congrArg (· ++ _) abreast.branches

theorem Abreast.single_started (abreast : Abreast delay id shared alone)
    {effects : List PlanEffect}
    (spawned : ∀ steps, .branched steps ∈ effects → PlanStep.Explicit steps) :
    ∀ branch ∈ alone.branches ++ effects.filterMap (PlanEffect.started? 0), branch.Single := by
  intro branch member
  rcases List.mem_append.mp member with before | new
  · exact abreast.single branch before
  · obtain ⟨effect, isEffect, starts⟩ := List.mem_filterMap.mp new
    cases effect with
    | branched steps =>
        obtain rfl := Option.some.inj starts
        refine ⟨rfl, fun course same => ?_⟩
        obtain rfl := Option.some.inj same
        exact spawned steps isEffect
    | _ => cases starts

theorem Abreast.settle (abreast : Abreast delay id shared alone) {execution other : Execution}
    (alike : Execution.Alike delay shared.station alone.station execution other)
    (explicit : other.Explicit) :
    Abreast delay id (shared.settle id execution) (alone.settle 0 other) := by
  obtain ⟨seat, twin, found, alsoFound, _⟩ := abreast.contexts
  have settled := seats_settle found id execution
  have alsoSettled := seats_settle alsoFound 0 other
  rw [if_pos rfl] at settled alsoSettled
  refine ⟨abreast.config, alike.stations.twins, ⟨_, _, settled, alsoSettled, alike.context⟩, ?_,
    abreast.single_started explicit.spawned⟩
  have started := abreast.append_started execution.effects
  rw [alike.effects] at started
  unfold branchesOf Core.settle takeOver
  rw [alike.effects]
  exact started

/-- A branch of the one call is as far as its counterpart. -/
theorem Abreast.branch (abreast : Abreast delay id shared alone) {course : Option Course}
    (branched : shared.branches[index]? = some ⟨id, course⟩) :
    ∃ twin, alone.branches[rank shared.branches id index]? = some ⟨0, twin⟩ ∧
      course = twin.map (Course.delayed delay) ∧ ∀ course, twin = some course → course.Explicit := by
  have kept : Branch.isOf id ⟨id, course⟩ = true := decide_eq_true rfl
  have filtered : (shared.branchesOf id)[rank shared.branches id index]? = _ :=
    getElem?_filter_of_kept branched kept
  rw [abreast.branches, List.getElem?_map] at filtered
  obtain ⟨⟨call, twin⟩, found, same⟩ := Option.map_eq_some_iff.mp filtered
  obtain ⟨isFirst, explicit⟩ := abreast.single _ (List.mem_of_getElem? found)
  obtain rfl : call = 0 := isFirst
  exact ⟨twin, found, (congrArg Branch.course same).symm, explicit⟩

theorem Abreast.modify_started (abreast : Abreast delay id shared alone) {course : Option Course}
    (branched : shared.branches[index]? = some ⟨id, course⟩) (effects : List PlanEffect)
    (standing : Standing) :
    ((shared.branches ++ effects.filterMap (PlanEffect.started? id)).modify index
        (Branch.movedTo (standing.delayed delay).course?)).filter (Branch.isOf id) =
      ((alone.branches ++ effects.filterMap (PlanEffect.started? 0)).modify
        (rank shared.branches id index) (Branch.movedTo standing.course?)).map
          (Branch.delayed delay id) := by
  have isThere := (List.getElem?_eq_some_iff.mp branched).1
  have found : (shared.branches ++ effects.filterMap (PlanEffect.started? id))[index]? =
      some ⟨id, course⟩ := (List.getElem?_append_left isThere).trans branched
  have kept : Branch.isOf id ⟨id, course⟩ = true := decide_eq_true rfl
  have same : ∀ branch : Branch, Branch.isOf id (branch.movedTo (standing.delayed delay).course?) =
      Branch.isOf id branch := fun _ => rfl
  have shifts : ∀ branch : Branch, (branch.movedTo standing.course?).delayed delay id =
      (branch.delayed delay id).movedTo (standing.delayed delay).course? := by
    intro branch
    rw [standing.course?_delayed]
    rfl
  rw [filter_modify same found, if_pos kept, abreast.append_started effects,
    List.take_append_of_le_length (Nat.le_of_lt isThere), map_modify _ _ shifts]
  rfl

theorem Abreast.goOn (abreast : Abreast delay id shared alone) {course : Course}
    (branched : shared.branches[index]? = some ⟨id, some (course.delayed delay)⟩)
    (explicit : course.Explicit) (context : PlanContext) :
    Abreast delay id (shared.goOn (now + delay) index id (course.delayed delay) context)
      (alone.goOn now (rank shared.branches id index) 0 course context) := by
  obtain ⟨seat, twin, found, alsoFound, _⟩ := abreast.contexts
  have alike := Course.advance_alike abreast.twins context now true explicit
  have goesOn := Course.advance_explicit explicit now true context alone.station
  refine ⟨abreast.config, alike.stations.twins, ?_, ?_, ?_⟩
  · have taken := seat_of_modify id (fun seat => { seat with
      context := ((course.delayed delay).advance (now + delay) true context shared.station).context })
      found
    have alsoTaken := seat_of_modify 0 (fun seat => { seat with
      context := (course.advance now true context alone.station).context }) alsoFound
    rw [if_pos rfl] at taken alsoTaken
    exact ⟨_, _, taken, alsoTaken, alike.context⟩
  · have modified := abreast.modify_started branched
      (course.advance now true context alone.station).effects
      (course.advance now true context alone.station).standing
    rw [← alike.standing] at modified
    rw [branchesOf, branches_goOn, branches_goOn, alike.effects]
    exact modified
  · refine forall_mem_modify _ (abreast.single_started goesOn.spawned) ?_
    refine fun branch single => ⟨single.call, fun later same => goesOn.course later ?_⟩
    exact Standing.eq_open_of_course? same

end Abreast

end Core

/-- The call whose plan an incident carries on. -/
def Supervisor.Incident.owner? (branches : List Branch) : Incident → Option Nat
  | .move (.turn (.branch index)) => branches[index]?.map Branch.call
  | incident => incident.happening?.map Prod.fst

namespace Core

variable {delay now : Span} {id : Nat} {shared alone core after : Core} {incident : Incident}

theorem owner?_of_happening? {branches : List Branch} {happening : Execution.Happening}
    (happens : incident.happening? = some (id, happening)) :
    incident.owner? branches = some id := by
  unfold Incident.owner?
  split
  · cases happens
  · rw [happens]
    rfl

/-- What is done for others leaves a call and what it started in their place, and at most resets the
watchdog. -/
structure Keeps (id : Nat) (now : Span) (core after : Core) : Prop where
  config : after.config = core.config
  station : core.station.Spares now after.station
  seat : after.seats[id]? = core.seats[id]?
  branches : after.branchesOf id = core.branchesOf id

theorem keeps_goOn {index other : Nat} {course : Option Course} {later : Course}
    (context : PlanContext) (branched : core.branches[index]? = some ⟨other, course⟩)
    (stranger : other ≠ id) : Keeps id now core (core.goOn now index other later context) := by
  refine ⟨rfl, later.spares_advance context core.station now true,
    List.getElem?_modify_ne _ _ stranger, ?_⟩
  have isThere := (List.getElem?_eq_some_iff.mp branched).1
  have others : ((later.advance now true context core.station).effects.filterMap
      (PlanEffect.started? other)).filter (Branch.isOf id) = [] := by
    rw [List.filter_eq_nil_iff]
    intro branch member
    rw [Branch.isOf, call_of_started member, decide_eq_false stranger]
    exact Bool.false_ne_true
  have same : ∀ branch : Branch, Branch.isOf id (branch.movedTo
      (later.advance now true context core.station).standing.course?) = Branch.isOf id branch :=
    fun _ => rfl
  have dropped : Branch.isOf id ⟨other, course⟩ = false := decide_eq_false stranger
  rw [branchesOf, branches_goOn, filter_modify same
    ((List.getElem?_append_left isThere).trans branched), dropped, if_neg Bool.false_ne_true,
    List.filter_append, others, List.append_nil]
  rfl

/-- What is not done for a call that runs is done for others. -/
theorem Orderly.keeps (orderly : core.Orderly) (runs : core.Runs id)
    (outline : Outline core now incident after)
    (stranger : incident.owner? core.branches ≠ some id) : Keeps id now core after := by
  have holds := orderly.single id runs
  obtain ⟨seat, course, tick, isThere, running⟩ := runs
  have unchanged : core.station.Spares now core.station := .of_same rfl rfl
  cases outline with
  | aside watchdog faultless => exact ⟨rfl, ⟨Or.inl watchdog, faultless⟩, rfl, rfl⟩
  | resets isReset => exact ⟨rfl, ⟨Or.inr rfl, fun faultless => faultless⟩, rfl, rfl⟩
  | enters plan =>
      have known := (List.getElem?_eq_some_iff.mp isThere).1
      exact ⟨rfl, unchanged, List.getElem?_append_left known, rfl⟩
  | queues found entering holder =>
      refine ⟨rfl, unchanged, List.getElem?_modify_ne _ _ ?_, rfl⟩
      rintro rfl
      obtain rfl := Option.some.inj (isThere.symm.trans found)
      cases entering.symm.trans running
  | begins isTurn found unbegun _ alone =>
      obtain rfl := SupervisorTask.call.inj (alone _ holds)
      obtain rfl := Option.some.inj (isThere.symm.trans found)
      rw [running] at unbegun
      exact absurd unbegun (not_unbegun (.running course tick))
  | works happens found alsoRunning =>
      have other := orderly.single _ ⟨_, _, _, found, alsoRunning⟩
      obtain rfl := SupervisorTask.call.inj (Option.some.inj (other.symm.trans holds))
      exact absurd (owner?_of_happening? happens) stranger
  | branches isTurn branched found =>
      subst isTurn
      apply keeps_goOn _ branched
      rintro rfl
      exact stranger (congrArg (Option.map Branch.call) branched)

/-- What is done for others leaves a call abreast of the one that is alone, once that has been reset
when it was. -/
theorem Abreast.keep (abreast : Abreast delay id shared alone)
    (keeps : Keeps id (now + delay) shared after) :
    (after.station.watchdog = shared.station.watchdog → Abreast delay id after alone) ∧
      (after.station.watchdog ≠ shared.station.watchdog →
        Abreast delay id after { alone with station := alone.station.resetWatchdog now }) := by
  obtain ⟨seat, twin, found, alsoFound, context⟩ := abreast.contexts
  have contexts : ∃ seat twin, after.seats[id]? = some seat ∧ alone.seats[0]? = some twin ∧
      seat.context = twin.context := ⟨seat, twin, keeps.seat.trans found, alsoFound, context⟩
  have config := keeps.config.trans abreast.config
  have branches := keeps.branches.trans abreast.branches
  have faultless := keeps.station.faultless abreast.twins.faultless
  constructor
  · intro same
    exact ⟨config, ⟨same.trans abreast.twins.watchdog, faultless, abreast.twins.twinFaultless⟩,
      contexts, branches, abreast.single⟩
  · intro different
    have reset := keeps.station.watchdog.resolve_left different
    have parallel := (abreast.twins.reset now).twins
    exact ⟨config, ⟨reset.trans parallel.watchdog, faultless, parallel.twinFaultless⟩, contexts,
      branches, abreast.single⟩

end Core

end PlanSupervision
