import PlanSupervision.Proofs.Supervisor.Mirror

/-!
No state leaks from one plan to the next. Whatever the calls before did, the watchdog is found at rest
when a plan begins, so its first turn is that of a call alone, and from there on its mirror follows.
-/

namespace PlanSupervision

namespace Supervisor

open PlanSupervision.Core

variable {id : Nat} {shared supervisor : Supervisor} {incident : Incident}

section Begin

variable {call : Call}

/-- The turn of a call begins its plan. -/
def Begins (supervisor : Supervisor) (now : Span) (id : Nat) : Prop :=
  (∃ phase, supervisor.phase? id = some phase ∧ phase.Unbegun) ∧
    ∃ phase, (supervisor.occur now (.move (.turn (.call id)))).phase? id = some phase ∧
      ¬ phase.Unbegun

theorem core_callTurn_of_entering (goesOn : supervisor.stopping = false) (now : Span)
    (found : supervisor.calls[id]? = some call) (entering : call.phase = .entering)
    (holds : (supervisor.lock.ask (.call id)).holder = some (.call id)) :
    (supervisor.callTurn now id).core =
      Core.settle { supervisor.core with lock := supervisor.lock.ask (.call id) } id
        (.begin supervisor.config.pollInterval call.plan call.context supervisor.station now) := by
  let asked : Supervisor := { supervisor with lock := supervisor.lock.ask (.call id) }
  have begun : (asked.begin now id call).core = _ := asked.core_begin now id goesOn call
  simp only [callTurn, found, entering, holds, if_true]
  exact begun

theorem core_of_begins (goesOn : supervisor.stopping = false) {now : Span}
    (found : supervisor.calls[id]? = some call) (begins : supervisor.Begins now id) :
    ∃ lock : Lock SupervisorTask, (∀ owner, supervisor.lock.holder = some owner → owner = .call id) ∧
      (supervisor.occur now (.move (.turn (.call id)))).core =
        Core.settle { supervisor.core with lock } id
          (.begin supervisor.config.pollInterval call.plan call.context supervisor.station now) := by
  obtain ⟨⟨phase, before, unbegun⟩, after, isAfter, begun⟩ := begins
  obtain rfl := Option.some.inj ((phaseAt_faces found).symm.trans before)
  have waits : (supervisor.callTurn now id).phase? id ≠ some .queued := by
    intro queued
    obtain rfl := Option.some.inj (queued.symm.trans isAfter)
    exact begun (Or.inr rfl)
  rcases unbegun with entering | queued
  · by_cases holds : (supervisor.lock.ask (.call id)).holder = some (.call id)
    · refine ⟨_, fun owner held => ?_, core_callTurn_of_entering goesOn now found entering holds⟩
      exact Option.some.inj ((Lock.holder_ask held).symm.trans holds)
    · refine absurd ?_ waits
      simp only [callTurn, found, entering, holds, if_false]
      rw [Supervisor.phase?, faces_setPhase]
      exact phaseAt_self (phaseAt_faces found)
  · by_cases holds : supervisor.lock.holder = some (.call id)
    · refine ⟨supervisor.lock, fun owner held => Option.some.inj (held.symm.trans holds), ?_⟩
      have begun := supervisor.core_begin now id goesOn call
      have taken : supervisor.callTurn now id = supervisor.begin now id call := by
        simp only [callTurn, found, queued, holds, if_true]
      exact (congrArg Supervisor.core taken).trans begun
    · refine absurd ?_ waits
      simp only [callTurn, found, queued, holds, if_false]
      exact queued ▸ phaseAt_faces found

end Begin

/-- Outside of the plans that are executed nobody moves the watchdog. -/
def Contained : Supervisor → Chronicle → Prop
  | _, [] => True
  | supervisor, (now, incident) :: rest =>
      (incident.happening?.isSome ∨ (∃ id, supervisor.isRunning id) ∨
        (supervisor.occur now incident).station.watchdog = supervisor.station.watchdog) ∧
      Contained (supervisor.occur now incident) rest

section Past

variable {draws : Nat → Uid} {config : Config} {listeners : List Listener}
  {subscribers : List Subscriber}

theorem runs_of_isRunning (running : supervisor.isRunning id = true) : supervisor.core.Runs id := by
  unfold isRunning at running
  split at running
  · rename_i found
    exact runs_of_phase? ((phase?_core supervisor id).trans found)
  · cases running

theorem orderly_build (faultless : ∀ listener ∈ listeners, listener.Faultless) :
    (buildWith draws config listeners subscribers).core.Orderly := by
  have nobody : ∀ id, ¬ (buildWith draws config listeners subscribers).core.Runs id := by
    rintro id ⟨seat, course, tick, found, _⟩
    cases found
  exact ⟨rfl, rfl, Observers.faultless_ofUnnumbered faultless, rfl,
    fun id runs => absurd runs (nobody id), nofun, nofun⟩

theorem rests_build : (buildWith draws config listeners subscribers).core.Rests := fun _ => rfl

/-- Whatever the plans before did, and however they ended, the watchdog is found at rest. -/
theorem past_live {past : Chronicle} (orderly : supervisor.core.Orderly)
    (rests : supervisor.core.Rests) (peaceful : ∀ entry ∈ past, entry.2.Peaceful)
    (contained : supervisor.Contained past) :
    (supervisor.live past).core.Orderly ∧ (supervisor.live past).core.Rests ∧
      (supervisor.live past).config = supervisor.config := by
  induction past generalizing supervisor with
  | nil => exact ⟨orderly, rests, rfl⟩
  | cons entry rest inductionHypothesis =>
      obtain ⟨now, incident⟩ := entry
      obtain ⟨contains, later⟩ := contained
      have outline := outline_occur now orderly.stops orderly.goesOn
        (peaceful (now, incident) List.mem_cons_self)
      have contains : supervisor.core.Contains incident (supervisor.occur now incident).core :=
        contains.imp_right (Or.imp_left fun ⟨id, running⟩ => ⟨id, runs_of_isRunning running⟩)
      obtain ⟨stays, stillRests, config⟩ := inductionHypothesis (orderly.outline outline)
        (rests.outline orderly outline contains)
        (fun other member => peaceful other (List.mem_cons_of_mem _ member)) later
      exact ⟨stays, stillRests, config.trans outline.config⟩

end Past

section Alone

variable (draws : Nat → Uid) {listeners : List Listener} (subscribers : List Subscriber)
  {call : Call} {start : Span}

/-- A supervisor that executes nothing but one plan. -/
def buildFor (draws : Nat → Uid) (config : Config) (listeners : List Listener)
    (subscribers : List Subscriber) (plan : Plan) : Supervisor :=
  (buildWith draws config listeners subscribers).occur 0 (.execute plan)

/-- Before its first turn a call is abreast of the same call alone. -/
theorem abreast_unbegun (orderly : shared.core.Orderly)
    (rests : shared.station.watchdog = .ofWindow shared.config.watchdogWindow)
    (faultless : ∀ listener ∈ listeners, listener.Faultless)
    (found : shared.calls[id]? = some call) (unbegun : call.phase.Unbegun) (delay : Span)
    (lock other : Lock SupervisorTask) :
    Abreast delay id { shared.core with lock }
      { (buildFor draws shared.config listeners subscribers call.plan).core with lock := other } := by
  obtain ⟨context, noBranch⟩ := orderly.fresh id call.seat (seat_of_call found) unbegun
  refine ⟨rfl, ⟨rests, orderly.faultless, Observers.faultless_ofUnnumbered faultless⟩,
    ⟨_, _, seat_of_call found, rfl, context⟩, ?_, nofun⟩
  have none : shared.branches.filter (Branch.isOf id) = [] := by
    rw [List.filter_eq_nil_iff]
    intro branch member
    rw [Branch.isOf, decide_eq_false (noBranch branch member)]
    exact Bool.false_ne_true
  exact none

theorem nobody_runs (orderly : supervisor.core.Orderly) (found : supervisor.calls[id]? = some call)
    (unbegun : call.phase.Unbegun)
    (free : ∀ owner, supervisor.lock.holder = some owner → owner = .call id) (other : Nat) :
    ¬ supervisor.core.Runs other := by
  intro runs
  obtain rfl := SupervisorTask.call.inj (free _ (orderly.single other runs))
  obtain ⟨seat, course, tick, isThere, running⟩ := runs
  obtain rfl := Option.some.inj (isThere.symm.trans (seat_of_call found))
  have running : call.phase = .running course tick := running
  rw [running] at unbegun
  exact Core.not_unbegun (.running course tick) unbegun

/-- The turn that begins a plan begins it alike on a supervisor of its own. -/
theorem begin_step (orderly : shared.core.Orderly) (rests : shared.core.Rests)
    (faultless : ∀ listener ∈ listeners, listener.Faultless)
    (found : shared.calls[id]? = some call) (begins : shared.Begins (0 + start) id)
    (explicit : PlanStep.Explicit call.plan.steps) :
    Level start id (shared.occur (0 + start) (.move (.turn (.call id)))).core
        ((buildFor draws shared.config listeners subscribers call.plan).occur 0
          (.move (.turn (.call 0)))).core ∧
      Shows start id shared (buildFor draws shared.config listeners subscribers call.plan) 0
        (.move (.turn (.call id))) (.move (.turn (.call 0))) := by
  obtain ⟨lock, free, after⟩ := core_of_begins orderly.goesOn found begins
  obtain ⟨⟨phase, before, unbegun⟩, _⟩ := begins
  obtain rfl := Option.some.inj ((phaseAt_faces found).symm.trans before)
  have rested := rests (nobody_runs orderly found unbegun free)
  have context := (orderly.fresh id call.seat (seat_of_call found) unbegun).1
  have fresh : call.context = ⟨call.plan.name, [], false⟩ := context
  have abreast : ∀ other, Abreast start id { shared.core with lock }
      { (buildFor draws shared.config listeners subscribers call.plan).core with lock := other } :=
    abreast_unbegun draws subscribers orderly rested faultless found unbegun start lock
  have aloneOrderly : (buildFor draws shared.config listeners subscribers call.plan).core.Orderly :=
    orderly_occur (orderly_build faultless) 0 trivial
  generalize isAlone : buildFor draws shared.config listeners subscribers call.plan = alone
    at abreast aloneOrderly ⊢
  have isThere : alone.calls[0]? = some ⟨call.plan, call.context, [], .entering⟩ := by
    rw [fresh, ← isAlone]
    rfl
  have holds : (alone.lock.ask (.call 0)).holder = some (.call 0) := isAlone ▸ rfl
  have twinAfter := core_callTurn_of_entering aloneOrderly.goesOn 0 isThere rfl holds
  have beside := abreast (alone.lock.ask (.call 0))
  have sameInterval : shared.config.pollInterval = alone.config.pollInterval :=
    congrArg Config.pollInterval beside.config
  rw [sameInterval] at after
  have alike := Execution.begin_alike beside.twins alone.config.pollInterval explicit call.context 0
  have begun := Execution.begin_explicit explicit alone.config.pollInterval call.context
    alone.station 0
  refine ⟨?_, shows_of_parallel rfl rfl (parallel_of_core after twinAfter alike.stations)⟩
  have stays : (shared.occur (0 + start) (.move (.turn (.call id)))).core.Orderly :=
    orderly_occur orderly (0 + start) trivial
  have alsoStays : (alone.occur 0 (.move (.turn (.call 0)))).core.Orderly :=
    orderly_occur aloneOrderly 0 trivial
  rw [after] at stays ⊢
  have twinAfter : (alone.occur 0 (.move (.turn (.call 0)))).core = _ := twinAfter
  rw [twinAfter] at alsoStays ⊢
  exact beside.level alike begun stays alsoStays

end Alone

/-- No state leaks from one plan to the next. Whatever a supervisor executed before, and however
that ended, a call comes as far as it would on a supervisor of its own: to the same result after the
same time, with the same documents, apart from uids that are drawn, and the same events on the way, if
it is given its turns and the watchdog is reset at the same distance from its beginning. Until its end
both wait for the same instants. If the uids that the one draws for the call are those that the other
comes to draw, the documents are the same throughout. -/
theorem executed_as_alone (draws own : Nat → Uid) (config : Config) {listeners : List Listener}
    (subscribers : List Subscriber) (faultless : ∀ listener ∈ listeners, listener.Faultless)
    (past body : Chronicle) (start : Span) {id : Nat} {call : Call}
    (contained : (buildWith draws config listeners subscribers).Contained past)
    (found : ((buildWith draws config listeners subscribers).live past).calls[id]? = some call)
    (explicit : PlanStep.Explicit call.plan.steps)
    (begins : ((buildWith draws config listeners subscribers).live past).Begins start id)
    (peaceful : ∀ entry ∈ past ++ body, entry.2.Peaceful)
    (later : ∀ entry ∈ body, start ≤ entry.1) :
    let shared := (buildWith draws config listeners subscribers).live past
    let alone := buildFor own config listeners subscribers call.plan
    let episode := (start, .move (.turn (.call id))) :: body
    let mirror := shared.mirror id start episode
    Mirrors start id shared alone episode ∧
      (shared.live episode).deadlines (.call id) =
        ((alone.live mirror).deadlines (.call 0)).map (· + start) ∧
      ((∀ number uid, (shared.traceAlong id episode).drawn[number]? = some uid →
          (own number).text = uid) →
        (shared.traceAlong id episode).documents = (alone.traceAlong 0 mirror).documents) := by
  obtain ⟨orderly, rests, sameConfig⟩ := past_live (orderly_build faultless) rests_build
    (fun entry member => peaceful entry (List.mem_append_left body member)) contained
  have sameConfig : ((buildWith draws config listeners subscribers).live past).config = config :=
    sameConfig
  generalize (buildWith draws config listeners subscribers).live past = shared at *
  subst sameConfig
  obtain ⟨phase, before, unbegun⟩ := begins.1
  have goesOn : shared.hasEnded id = false := by
    rcases unbegun with rfl | rfl
    · simp only [hasEnded, before]
    · simp only [hasEnded, before]
  have calm : ∀ entry ∈ body, entry.2.Peaceful := fun entry member =>
    peaceful entry (List.mem_append_right past member)
  have sooner : 0 + start = start := Nat.zero_add start
  rw [← sooner] at begins
  obtain ⟨level, shows⟩ := begin_step own subscribers orderly rests faultless found begins explicit
  have stays : (shared.occur (0 + start) (.move (.turn (.call id)))).core.Orderly :=
    orderly_occur orderly (0 + start) trivial
  have mirrors := Mirrors.own goesOn rfl rfl shows (mirrors_of_level level stays calm later)
  rw [sooner] at mirrors
  exact ⟨mirrors, mirrors.deadlines, mirrors.documents rfl⟩

/-- A plan that leaves a run open until the watchdog expires. -/
def lapsing : Plan :=
  ⟨"lapsing", [(.reset, false), (.openRun (.ofUid "run"), false),
    (.descriptor "run" "primary", false), (.wait (.ofSeconds 100), false)]⟩

def looking : Plan :=
  ⟨"looking", [(.openRun (.ofUid "look"), false), (.descriptor "look" "primary", false),
    (.view, false), (.wait (.ofSeconds 2), false)]⟩

def lapse : Chronicle :=
  [(0, .execute lapsing), (0, .move (.turn (.call 0))), (.ofSeconds 31, .move (.turn (.call 0))),
    (.ofSeconds 32, .execute looking)]

def lapsed : Supervisor := (buildWith .counted .standard [] []).live lapse

def look : Chronicle :=
  [(.ofSeconds 33, .move (.turn (.call 1))), (.ofSeconds 35, .move (.turn (.call 1)))]

/-- After a plan that expired the next one sees and does what it does alone, where the first uid to be
drawn is the one that was the second. -/
theorem look_after_lapse :
    let own := fun number => Uid.counted (number + 1)
    let alone := buildFor own .standard [] [] looking
    Mirrors (.ofSeconds 33) 1 lapsed alone look ∧
      lapsed.phase? 0 = some (.ended (.error (.watchdogExpired (.ofSeconds 30)))) ∧
      (lapsed.live look).phase? 1 = some (.ended (.ok ())) ∧
      (alone.traceAlong 0 (lapsed.mirror 1 (.ofSeconds 33) look)).documents =
        [.start (.ofUid "look"), .descriptor ⟨"uuid-1", "look", "primary"⟩] := by
  intro own alone
  have faultless : ∀ listener ∈ ([] : List Listener), listener.Faultless := nofun
  have contained : (buildWith .counted .standard [] []).Contained lapse :=
    ⟨Or.inr (Or.inr rfl), Or.inl rfl, Or.inl rfl, Or.inr (Or.inr rfl), trivial⟩
  have found : lapsed.calls[1]? = some ⟨looking, ⟨"looking", [], false⟩, [], .entering⟩ := rfl
  have explicit : PlanStep.Explicit looking.steps := by
    simp only [PlanStep.Explicit, looking, List.forall_mem_cons]
    exact ⟨.other nofun nofun, .other nofun nofun, .other nofun nofun, .other nofun nofun, nofun⟩
  have begins : lapsed.Begins (.ofSeconds 33) 1 := by
    refine ⟨⟨_, rfl, Or.inl rfl⟩, _, rfl, ?_⟩
    rintro (entering | queued)
    · cases entering
    · cases queued
  have peaceful : ∀ entry ∈ lapse ++ look.tail, entry.2.Peaceful := by
    simp [lapse, look, Incident.Peaceful]
  have later : ∀ entry ∈ look.tail, Span.ofSeconds 33 ≤ entry.1 :=
    List.forall_mem_singleton.mpr (by decide)
  have drawn : (lapsed.traceAlong 1 look).drawn = ["uuid-1"] := rfl
  have shown : (lapsed.traceAlong 1 look).documents =
      [.start (.ofUid "look"), .descriptor ⟨"uuid-1", "look", "primary"⟩] := rfl
  obtain ⟨mirrors, _, documents⟩ := executed_as_alone .counted own .standard [] faultless lapse
    look.tail (.ofSeconds 33) contained found explicit begins peaceful later
  refine ⟨mirrors, rfl, rfl, ?_⟩
  have same : ∀ number uid, (lapsed.traceAlong 1 look).drawn[number]? = some uid →
      (own number).text = uid := by
    intro number uid isDrawn
    rw [drawn, List.getElem?_singleton] at isDrawn
    split at isDrawn
    · rename_i first
      subst first
      exact Option.some.inj isDrawn
    · cases isDrawn
  exact (documents same).symm.trans shown

end Supervisor

end PlanSupervision
