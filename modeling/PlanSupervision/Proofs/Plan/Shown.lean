import PlanSupervision.Proofs.Plan.Happening

/-!
What a plan shows of itself: the documents that are handed over in its turns and the events
that carry its name. From its start to its end these form one block.
-/

namespace PlanSupervision

/-- A document that is handed over, or an event that carries the name of a plan. -/
inductive Deed where
  | document (document : Document)
  | event (event : Event)

def Deed.event? : Deed → Option Event
  | document _ => none
  | event sent => some sent

def Entry.deed? : Entry → Option Deed
  | handed document => some (.document document)
  | published event => if event.plan.isSome then some (.event event) else none
  | _ => none

def Journal.deeds (journal : Journal) : List Deed := journal.filterMap fun entry => entry.2.deed?

theorem Journal.deeds_append (earlier later : Journal) :
    Journal.deeds (earlier ++ later) = Journal.deeds earlier ++ Journal.deeds later :=
  List.filterMap_append

theorem Entry.deed?_of_isReaction {entry : Entry} (reaction : entry.isReaction = true) :
    entry.deed? = none := by
  cases entry with
  | delivered | logged => rfl
  | _ => cases reaction

theorem Journal.deeds_of_silent {entries : List Entry} (now : Span)
    (silent : ∀ entry ∈ entries, entry.deed? = none) :
    Journal.deeds (entries.map fun entry => (now, entry)) = [] := by
  rw [Journal.deeds, List.filterMap_map, List.filterMap_eq_nil_iff]
  exact silent

namespace Station

/-- The events sent so far that carry the name of a plan. -/
def planEvents (station : Station) : List Event :=
  station.bus.sent.filter fun event => event.plan.isSome

/-- From one state of a station to a later one these deeds were done. -/
structure Shows (before after : Station) (deeds : List Deed) : Prop where
  journal : ∃ written : Journal, after.journal = before.journal ++ written ∧
    written.deeds = deeds
  sent : after.planEvents = before.planEvents ++ deeds.filterMap Deed.event?

namespace Shows

variable {before after last : Station} {deeds more : List Deed}

theorem of_same (journal : after.journal = before.journal) (bus : after.bus = before.bus) :
    Shows before after [] := by
  refine ⟨⟨[], ?_, rfl⟩, ?_⟩
  · rw [journal, List.append_nil]
  · rw [planEvents, planEvents, bus]
    exact (List.append_nil _).symm

theorem refl (station : Station) : Shows station station [] := of_same rfl rfl

theorem trans (first : Shows before after deeds) (second : Shows after last more) :
    Shows before last (deeds ++ more) := by
  obtain ⟨⟨earlier, earlierJournal, rfl⟩, earlierSent⟩ := first
  obtain ⟨⟨later, laterJournal, rfl⟩, laterSent⟩ := second
  refine ⟨⟨earlier ++ later, ?_, Journal.deeds_append earlier later⟩, ?_⟩
  · rw [laterJournal, earlierJournal, List.append_assoc]
  · rw [laterSent, earlierSent, List.filterMap_append, List.append_assoc]

/-- What was done between two states of a station is written in its journal. -/
theorem deeds_eq (shows : Shows before after deeds) :
    Journal.deeds (after.journal.drop before.journal.length) = deeds := by
  obtain ⟨⟨written, journal, rfl⟩, _⟩ := shows
  rw [journal, List.drop_left]

theorem write (station : Station) (now : Span) {entries : List Entry}
    (silent : ∀ entry ∈ entries, entry.deed? = none) :
    Shows station (station.write now entries) [] :=
  ⟨⟨_, rfl, Journal.deeds_of_silent now silent⟩, (List.append_nil _).symm⟩

theorem publish (station : Station) (now : Span) {event : Event} (named : event.plan.isSome = true) :
    Shows station (station.publish now event) [.event event] := by
  refine ⟨⟨[(now, .published event)], rfl, ?_⟩, ?_⟩
  · simp [Journal.deeds, Entry.deed?, named]
  · simp [planEvents, Station.publish, Broadcast.send, named, Deed.event?]

theorem publish_other (station : Station) (now : Span) {event : Event}
    (nameless : event.plan = none) : Shows station (station.publish now event) [] := by
  refine ⟨⟨[(now, .published event)], rfl, ?_⟩, ?_⟩
  · simp [Journal.deeds, Entry.deed?, nameless]
  · simp [planEvents, Station.publish, Broadcast.send, nameless]

theorem dispatch (station : Station) (now : Span) (document : Document) :
    Shows station (station.dispatch now document).1 [.document document] := by
  have silent : ∀ entry ∈ (station.observers.dispatch document).entries, entry.deed? = none := by
    intro entry member
    exact Entry.deed?_of_isReaction
      (station.observers.isReaction_of_mem_deliver document _ entry member)
  refine ⟨⟨_, rfl, ?_⟩, (List.append_nil _).symm⟩
  change Deed.document document :: Journal.deeds (List.map _ _) = [.document document]
  rw [Journal.deeds_of_silent now silent]

end Shows

end Station

/-- An act of a plan that is seen outside: a document is handed over, or the fault of an
observer is published. -/
inductive PlanAct where
  | hands (document : Document)
  | faults (fault : DispatchFault)

def PlanAct.deed (plan : String) : PlanAct → Deed
  | hands document => .document document
  | faults fault => .event (PlanContext.faultEvent plan fault)

def PlanAct.fault? : PlanAct → Option DispatchFault
  | hands _ => none
  | faults fault => some fault

def PlanAction.isBranch : PlanAction → Bool
  | branch _ => true
  | _ => false

/-- Steps that keep the context of their plan to themselves. -/
def PlanStep.Private (steps : List PlanStep) : Prop :=
  ∀ step ∈ steps, step.1.isBranch = false

def PlanEffect.isBranch : PlanEffect → Bool
  | branched _ => true
  | _ => false

/-- Work in the name of a plan that leads from one context and station to later ones. -/
structure Carries (context : PlanContext) (station : Station) (laterContext : PlanContext)
    (laterStation : Station) : Prop where
  plan : laterContext.plan = context.plan
  acts : ∃ acts : List PlanAct, station.Shows laterStation (acts.map (PlanAct.deed context.plan))

namespace Carries

variable {context laterContext lastContext : PlanContext}
  {station laterStation lastStation : Station}

theorem of_shows (plan : laterContext.plan = context.plan)
    (shows : station.Shows laterStation []) : Carries context station laterContext laterStation :=
  ⟨plan, [], shows⟩

theorem refl (context : PlanContext) (station : Station) : Carries context station context station :=
  of_shows rfl (.refl station)

theorem trans (first : Carries context station laterContext laterStation)
    (second : Carries laterContext laterStation lastContext lastStation) :
    Carries context station lastContext lastStation := by
  obtain ⟨plan, acts, shows⟩ := first
  obtain ⟨laterPlan, laterActs, laterShows⟩ := second
  refine ⟨laterPlan.trans plan, acts ++ laterActs, ?_⟩
  rw [plan] at laterShows
  rw [List.map_append]
  exact shows.trans laterShows

end Carries

namespace PlanContext

variable (context : PlanContext) (station : Station) (now : Span)

theorem submit_carries {Value : Type} {handover : Except PlanError Handover} (value : Value)
    (plan : ∀ accepted, handover = .ok accepted → accepted.context.plan = context.plan) :
    let after := context.submit station now handover value
    Carries context station after.context after.station := by
  cases handover with
  | error error => exact .refl context station
  | ok accepted =>
      have dispatched := Station.Shows.dispatch station now accepted.document
      simp only [submit]
      split
      · rename_i same
        rw [same] at dispatched
        exact ⟨plan accepted rfl, [.hands accepted.document], dispatched⟩
      · rename_i fault same
        rw [same] at dispatched
        refine ⟨plan accepted rfl, [.hands accepted.document, .faults fault], ?_⟩
        exact dispatched.trans (.publish _ now rfl)

theorem Handover.plan_of_check {checked handover : Handover}
    (passed : checked.check = .ok handover) : handover.context.plan = checked.context.plan := by
  rw [(Handover.check_ok passed).1]

theorem plan_of_describe {descriptorUid runUid name : String} {handover : Handover}
    (described : context.describe descriptorUid runUid name = .ok handover) :
    handover.context.plan = context.plan := by
  unfold describe at described
  split at described
  · rw [← Except.ok.inj described]
  · cases described

theorem plan_of_closeRun {runUid : String} {exitStatus : ExitStatus} {handover : Handover}
    (closed : context.closeRun runUid exitStatus = .ok handover) :
    handover.context.plan = context.plan := by
  unfold closeRun at closed
  split at closed
  · cases closed
  · rw [← Except.ok.inj closed]

theorem act_carries (action : PlanAction) :
    let after := context.act station now action
    Carries context station after.context after.station := by
  have made : Carries context station context station.makeUid.2 := .of_shows rfl (.of_same rfl rfl)
  cases action with
  | openRun run => exact context.submit_carries station now _ fun _ => Handover.plan_of_check
  | generateRun activateCallbacks =>
      exact made.trans (context.submit_carries _ now _ fun _ => Handover.plan_of_check)
  | descriptor runUid name =>
      simp only [act]
      split
      · exact made.trans (context.submit_carries _ now _ fun _ => context.plan_of_describe)
      · exact context.submit_carries station now _ fun _ => context.plan_of_describe
  | event descriptorUid data =>
      exact context.submit_carries station now _ fun _ => Handover.plan_of_check
  | closeRun runUid status =>
      exact context.submit_carries station now _ fun _ => context.plan_of_closeRun
  | reset => exact .of_shows rfl (.of_same rfl rfl)
  | sleep duration =>
      simp only [act]
      split <;> exact .refl context station
  | wait | checkpoint | view | fail | abort | branch => exact .refl context station

end PlanContext

namespace Course

open PlanContext

variable {context : PlanContext} {station : Station} {now : Span} {branched : Bool}

theorem record_carries (context : PlanContext) (station : Station) (now : Span) (branched : Bool)
    (step : PlanStep) (result : Except PlanError StepResult) :
    Carries context station context (record context station now branched step result) := by
  apply Carries.of_shows rfl
  apply Station.Shows.write station now
  intro entry member
  obtain rfl := List.mem_singleton.mp member
  rfl

/-- A turn that starts nothing beside the plan, now or later. -/
structure Discreet (advance : Advance) : Prop where
  effects : ∀ effect ∈ advance.effects, effect.isBranch = false
  standing : ∀ course, advance.standing = .open course → PlanStep.Private course.remaining

theorem isBranch_of_pause? {action : PlanAction} {pause : Pause} {effects : List PlanEffect}
    (pauses : pause? context now action = some (pause, effects)) :
    ∀ effect ∈ effects, effect.isBranch = false := by
  unfold pause? at pauses
  split at pauses <;> try split at pauses
  all_goals
    cases pauses
    try simp [PlanEffect.isBranch]

theorem isBranch_of_effects {action : PlanAction} (alone : action.isBranch = false)
    (before after : Station) : ∀ effect ∈ effects before after action, effect.isBranch = false := by
  intro effect member
  unfold effects at member
  split at member
  · cases alone
  · split at member
    · cases member
    · obtain rfl := List.mem_singleton.mp member
      rfl

theorem run_carries (context : PlanContext) (station : Station) (now : Span) (branched : Bool)
    (steps : List PlanStep) :
    let advance := run now branched context station steps
    Carries context station advance.context advance.station ∧
      (PlanStep.Private steps → Discreet advance) := by
  induction steps generalizing context station with
  | nil =>
      refine ⟨.refl context station, fun _ => ⟨List.forall_mem_nil _, ?_⟩⟩
      intro course opened
      cases opened
  | cons step rest inductionHypothesis =>
      intro advance
      cases pauses : pause? context now step.1 with
      | some pause =>
          have stops : advance =
              ⟨context, station, pause.2, .open (.paused pause.1 step rest)⟩ := by
            simp only [advance, run, pauses]
          rw [stops]
          refine ⟨.refl context station, fun alone => ⟨isBranch_of_pause? pauses, ?_⟩⟩
          rintro course ⟨rfl⟩
          exact fun other member => alone other (List.mem_cons_of_mem _ member)
      | none =>
          have acted := (context.act_carries station now step.1).trans
            (record_carries _ _ now branched step (context.act station now step.1).result)
          obtain ⟨carried, discreet⟩ := inductionHypothesis
            (context.act station now step.1).context
            (record (context.act station now step.1).context
              (context.act station now step.1).station now branched step
              (context.act station now step.1).result)
          simp only [advance, run, pauses]
          split
          · refine ⟨acted, fun alone => ⟨?_, ?_⟩⟩
            · exact isBranch_of_effects (alone step List.mem_cons_self) _ _
            · intro course opened
              cases opened
          · refine ⟨acted.trans carried, fun alone => ⟨?_, ?_⟩⟩
            · intro effect member
              rcases List.mem_append.mp member with first | later
              · exact isBranch_of_effects (alone step List.mem_cons_self) _ _ effect first
              · exact (discreet fun other found =>
                  alone other (List.mem_cons_of_mem _ found)).effects effect later
            · exact (discreet fun other found =>
                alone other (List.mem_cons_of_mem _ found)).standing

theorem advance_carries (course : Course) (now : Span) (branched : Bool) (context : PlanContext)
    (station : Station) :
    let advance := course.advance now branched context station
    Carries context station advance.context advance.station ∧
      (PlanStep.Private course.remaining → Discreet advance) := by
  cases course with
  | ready steps => exact run_carries context station now branched steps
  | paused pause step rest =>
      intro advance
      cases resumes : resume? context now pause with
      | none =>
          have stays : advance = ⟨context, station, [], .open (.paused pause step rest)⟩ := by
            simp only [advance, Course.advance, resumes]
          rw [stays]
          refine ⟨.refl context station, fun alone => ⟨List.forall_mem_nil _, ?_⟩⟩
          rintro course ⟨rfl⟩
          exact alone
      | some result =>
          have recorded := record_carries context station now branched step result
          obtain ⟨carried, discreet⟩ :=
            run_carries context (record context station now branched step result) now branched rest
          simp only [advance, Course.advance, resumes]
          split
          · refine ⟨recorded, fun _ => ⟨List.forall_mem_nil _, ?_⟩⟩
            intro course opened
            cases opened
          · exact ⟨recorded.trans carried, discreet⟩

end Course

/-- How a plan ends. After a failure the runs that are still open are closed; the notice of an
expired watchdog tells its window. -/
inductive Ending where
  | success
  | failure (error : PlanError) (window : Span) (openRuns : List String)

namespace Ending

def result : Ending → Except PlanError Unit
  | success => .ok ()
  | failure error _ _ => .error error

def expiryNotice (plan : String) (window : Span) : PlanError → List Event
  | .watchdogExpired _ =>
      [((Event.ofKind .watchdogExpired).withPlan plan).withTimeout window]
  | _ => []

def closings (error : PlanError) (openRuns : List String) : List Document :=
  openRuns.reverse.map fun runUid =>
    .stop ⟨runUid, Execution.closingStatus error, some error.message⟩

def deeds (plan : String) : Ending → List Deed
  | success => [.event ((Event.ofKind .planFinished).withPlan plan)]
  | failure error window openRuns =>
      (expiryNotice plan window error).map .event ++ (closings error openRuns).map .document ++
        [.event (((Event.ofKind .planFailed).withPlan plan).withReason error.message)]

def events (plan : String) : Ending → List Event
  | success => [(Event.ofKind .planFinished).withPlan plan]
  | failure error window _ =>
      expiryNotice plan window error ++
        [((Event.ofKind .planFailed).withPlan plan).withReason error.message]

theorem filterMap_deeds (plan : String) (ending : Ending) :
    (ending.deeds plan).filterMap Deed.event? = ending.events plan := by
  cases ending with
  | success => rfl
  | failure error window openRuns =>
      simp [deeds, events, List.filterMap_map, Function.comp_def, Deed.event?]

end Ending

namespace Execution

open PlanContext

variable {context : PlanContext} {station : Station}

theorem shows_handClosing (plan : String) (now : Span) (station : Station) (closing : RunStop) :
    station.Shows (handClosing plan now station closing) [.document (.stop closing)] := by
  have dispatched := Station.Shows.dispatch station now (.stop closing)
  unfold handClosing
  split
  · rename_i same
    rw [same] at dispatched
    exact dispatched
  · rename_i fault same
    rw [same] at dispatched
    refine dispatched.trans (.write _ now ?_)
    intro entry member
    obtain rfl := List.mem_singleton.mp member
    rfl

theorem shows_closings (plan : String) (now : Span) (station : Station)
    (closings : List RunStop) :
    station.Shows (closings.foldl (handClosing plan now) station)
      (closings.map fun closing => .document (.stop closing)) := by
  induction closings generalizing station with
  | nil => exact .refl station
  | cons closing later inductionHypothesis =>
      exact (shows_handClosing plan now station closing).trans (inductionHypothesis _)

/-- An execution goes on with steps that keep its context to themselves, or has come to its
end. -/
inductive StandsBy : Option Ending → ExecutionStanding → Prop where
  | goesOn (course : Course) (tick : Span) (alone : PlanStep.Private course.remaining) :
      StandsBy none (.running course tick)
  | ends (ending : Ending) : StandsBy (some ending) (.ended ending.result)

/-- What an execution shows in a turn: acts of its plan, and its ending if it ends. -/
structure Tells (plan : String) (station : Station) (execution : Execution)
    (acts : List PlanAct) (ending : Option Ending) : Prop where
  named : execution.context.plan = plan
  shows : station.Shows execution.station
    (acts.map (PlanAct.deed plan) ++ ending.toList.flatMap (Ending.deeds plan))
  effects : ∀ effect ∈ execution.effects, effect.isBranch = false
  standing : StandsBy ending execution.standing

theorem tells_succeed (context : PlanContext) (station : Station) (now : Span) :
    Tells context.plan station (succeed context station now) [] (some .success) := by
  have disarmed : station.Shows station.disarmWatchdog [] := .of_same rfl rfl
  refine ⟨rfl, disarmed.trans (.publish _ now rfl), ?_, .ends .success⟩
  intro effect member
  obtain rfl := List.mem_singleton.mp member
  rfl

theorem shows_noteExpiry (context : PlanContext) (station : Station) (now : Span)
    (error : PlanError) :
    let noted := noteExpiry context station now error
    station.Shows noted.2.1
        ((Ending.expiryNotice context.plan station.watchdog.window error).map .event) ∧
      noted.1.plan = context.plan ∧ ∀ effect ∈ noted.2.2, effect.isBranch = false := by
  cases error with
  | watchdogExpired window =>
      exact ⟨.publish station now rfl, rfl, by simp [noteExpiry, PlanEffect.isBranch]⟩
  | _ => exact ⟨.refl station, rfl, List.forall_mem_nil _⟩

theorem tells_fail (context : PlanContext) (station : Station) (now : Span) (error : PlanError) :
    Tells context.plan station (fail context station now error) []
      (some (.failure error station.watchdog.window context.openRuns)) := by
  have disarmed : station.Shows station.disarmWatchdog [] := .of_same rfl rfl
  obtain ⟨noted, plan, alone⟩ := shows_noteExpiry context station.disarmWatchdog now error
  have sameRuns := noteExpiry_openRuns context station.disarmWatchdog now error
  refine ⟨plan, ?_, ?_, .ends (.failure error _ _)⟩
  · have closed := (disarmed.trans noted).trans (shows_closings
      (noteExpiry context station.disarmWatchdog now error).1.plan now _
      ((noteExpiry context station.disarmWatchdog now error).1.closingStops
        (closingStatus error) error.message))
    have handed : ((noteExpiry context station.disarmWatchdog now error).1.closingStops
        (closingStatus error) error.message).map (fun closing => Deed.document (.stop closing)) =
        (Ending.closings error context.openRuns).map .document := by
      simp [closingStops, sameRuns, Ending.closings, Function.comp_def]
    rw [handed] at closed
    let failed := fun plan => ((Event.ofKind .planFailed).withPlan plan).withReason error.message
    have published : station.Shows (fail context station now error).station
        (_ ++ [.event (failed (noteExpiry context station.disarmWatchdog now error).1.plan)]) :=
      closed.trans (.publish _ now rfl)
    have window : station.disarmWatchdog.watchdog.window = station.watchdog.window := rfl
    rw [plan, window] at published
    simpa [Ending.deeds, failed] using published
  · intro effect member
    rcases List.mem_append.mp member with noticed | told
    · exact alone effect noticed
    · obtain rfl := List.mem_singleton.mp told
      rfl

theorem exists_tells_conclude (context : PlanContext) (station : Station) (now : Span)
    (result : Except PlanError Unit) :
    ∃ ending, Tells context.plan station (conclude context station now result) [] (some ending) := by
  cases result with
  | ok value => exact ⟨_, tells_succeed context station now⟩
  | error error => exact ⟨_, tells_fail context station now error⟩

theorem Tells.after {laterContext : PlanContext} {laterStation : Station} {execution : Execution}
    {acts : List PlanAct} {ending : Option Ending} {earlier : List PlanEffect}
    (carries : Carries context station laterContext laterStation)
    (alone : ∀ effect ∈ earlier, effect.isBranch = false)
    (tells : Tells laterContext.plan laterStation execution acts ending) :
    ∃ acts, Tells context.plan station { execution with effects := earlier ++ execution.effects }
      acts ending := by
  obtain ⟨plan, before, shown⟩ := carries
  obtain ⟨named, shows, effects, standing⟩ := tells
  rw [plan] at named shows
  refine ⟨before ++ acts, named, ?_, ?_, standing⟩
  · rw [List.map_append, List.append_assoc]
    exact shown.trans shows
  · intro effect member
    rcases List.mem_append.mp member with first | later
    · exact alone effect first
    · exact effects effect later

theorem exists_tells_proceed (interval : Span) {course : Course} (tick : Span)
    (context : PlanContext) (station : Station) (now : Span)
    (alone : PlanStep.Private course.remaining) :
    ∃ acts ending,
      Tells context.plan station (proceed interval course tick context station now) acts
        ending := by
  obtain ⟨carries, discreet⟩ := course.advance_carries now false context station
  obtain ⟨effects, standing⟩ := discreet alone
  unfold proceed
  cases stands : (course.advance now false context station).standing with
  | ended result =>
      obtain ⟨ending, concludes⟩ := exists_tells_conclude
        (course.advance now false context station).context
        (course.advance now false context station).station now result
      obtain ⟨acts, tells⟩ := concludes.after carries effects
      refine ⟨acts, some ending, ?_⟩
      simpa only [stands] using tells
  | «open» later =>
      cases interrupts : interruption? (course.advance now false context station).context
          (course.advance now false context station).station now tick with
      | some error =>
          obtain ⟨acts, tells⟩ := (tells_fail (course.advance now false context station).context
            (course.advance now false context station).station now error).after carries effects
          refine ⟨acts, some (.failure error
            (course.advance now false context station).station.watchdog.window
            (course.advance now false context station).context.openRuns), ?_⟩
          simpa only [stands, interrupts] using tells
      | none =>
          have goes : Tells (course.advance now false context station).context.plan
              (course.advance now false context station).station
              ⟨(course.advance now false context station).context,
                (course.advance now false context station).station, [],
                .running later (tickAfter interval now tick)⟩ [] none :=
            ⟨rfl, .refl _, List.forall_mem_nil _, .goesOn later _ (standing later stands)⟩
          obtain ⟨acts, tells⟩ := goes.after carries effects
          refine ⟨acts, none, ?_⟩
          simpa only [stands, interrupts] using tells

/-- A plan starts with an event. A watchdog that has expired before ends it at once. -/
theorem exists_tells_begin (interval : Span) {plan : Plan} (context : PlanContext)
    (station : Station) (now : Span) (alone : PlanStep.Private plan.steps) :
    let started := (station.armWatchdog now).publish now
      ((Event.ofKind .planStarting).withPlan context.plan)
    station.Shows started [.event ((Event.ofKind .planStarting).withPlan context.plan)] ∧
      ∃ acts ending,
        Tells context.plan started (begin interval plan context station now) acts ending := by
  intro started
  have armed : station.Shows (station.armWatchdog now) [] := .of_same rfl rfl
  have told : ∀ {execution : Execution} {acts : List PlanAct} {ending : Option Ending},
      Tells context.plan started execution acts ending →
        ∃ acts ending, Tells context.plan started
          { execution with effects := .published :: execution.effects } acts ending := by
    intro execution acts ending tells
    have published : ∀ effect ∈ [PlanEffect.published], effect.isBranch = false := by
      simp [PlanEffect.isBranch]
    obtain ⟨acts, tells⟩ := tells.after (.refl context started) published
    exact ⟨acts, ending, tells⟩
  refine ⟨armed.trans (.publish _ now rfl), ?_⟩
  unfold begin
  cases stale : started.hasExpired now with
  | true =>
      simpa only [started, stale, if_true] using told (tells_fail context started now
        (.watchdogExpired started.watchdog.window))
  | false =>
      have ready : PlanStep.Private (Course.ready plan.steps).remaining := alone
      obtain ⟨acts, ending, tells⟩ :=
        exists_tells_proceed interval now context started now ready
      simpa only [started, stale, Bool.false_eq_true, if_false] using told tells

/-- A look at the watchdog and the cancellation ends an execution or leaves it as it is. -/
theorem exists_tells_check (interval : Span) {course : Course} (tick : Span)
    (context : PlanContext) (station : Station) (now : Span)
    (alone : PlanStep.Private course.remaining) :
    ∃ ending, Tells context.plan station
      (happen interval ⟨context, station, [], .running course tick⟩ now .check) [] ending := by
  unfold happen
  cases interrupts : interruption? context station now tick with
  | some error =>
      refine ⟨some (.failure error station.watchdog.window context.openRuns), ?_⟩
      simpa only [interrupts] using tells_fail context station now error
  | none =>
      refine ⟨none, ?_⟩
      simp only [interrupts]
      exact ⟨rfl, .refl station, List.forall_mem_nil _, .goesOn course _ alone⟩

end Execution

end PlanSupervision
