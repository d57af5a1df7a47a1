import PlanSupervision.Proofs.Plan.Happening

/-!
The passage of a station from one state to a later one. Whatever acts on it does so in steps of
a few kinds: it writes, publishes an event, hands over a document, sets the watchdog, makes an
identifier or changes the subscriptions. The work of a plan is such a passage, in which the runs
that are open are at any time those that the documents leave open.
-/

namespace PlanSupervision

def Entry.event? : Entry → Option Event
  | published event => some event
  | _ => none

/-- An entry that tells of neither a document nor an event. -/
structure Entry.Silent (entry : Entry) : Prop where
  noEvent : entry.event? = none
  noDocument : entry.document? = none

/-- An entry that a delivery leaves: the document, or what an observer did with it. -/
def Entry.OfDelivery : Entry → Prop
  | handed _ | delivered _ _ => True
  | logged line => line.message = "gated handler failed"
  | _ => False

/-- An entry that the work of a plan may leave, apart from its deliveries. -/
def Entry.OfPlan : Entry → Prop
  | stepped _ => True
  | published event =>
      event.kind ∈ [.listenerFault, .planFinished, .planFailed, .watchdogExpired]
  | logged line => line.message = "observer fault while closing run"
  | _ => False

theorem Observers.ofDelivery_of_mem_deliver (observers : Observers) (document : Document)
    (order : List Nat) :
    ∀ entry ∈ (observers.deliver document order).entries, entry.OfDelivery := by
  refine observers.forall_mem_deliver ?_ order
  intro listener entry member
  rcases Listener.mem_receive member with ⟨_, rfl⟩ | ⟨_, _, rfl⟩
  · exact trivial
  · rfl

namespace Station

/-- A station comes from one state to a later one in steps that hand over these documents. Only
entries that are allowed are written on the way, apart from those of the deliveries. -/
inductive Passes (allowed : Entry → Prop) (origin : Station) : List Document → Station → Prop where
  | stay : Passes allowed origin [] origin
  | write {documents : List Document} {station : Station}
      (passes : Passes allowed origin documents station) (now : Span) {entries : List Entry}
      (silent : ∀ entry ∈ entries, entry.Silent) (fine : ∀ entry ∈ entries, allowed entry) :
      Passes allowed origin documents (station.write now entries)
  | publish {documents : List Document} {station : Station}
      (passes : Passes allowed origin documents station) (now : Span) {event : Event}
      (fine : allowed (.published event)) :
      Passes allowed origin documents (station.publish now event)
  | dispatch {documents : List Document} {station : Station}
      (passes : Passes allowed origin documents station) (now : Span) (document : Document) :
      Passes allowed origin (documents ++ [document]) (station.dispatch now document).1
  | watch {documents : List Document} {station : Station}
      (passes : Passes allowed origin documents station) (watchdog : Watchdog) :
      Passes allowed origin documents { station with watchdog }
  | count {documents : List Document} {station : Station}
      (passes : Passes allowed origin documents station) (madeUids : Nat) :
      Passes allowed origin documents { station with madeUids }
  | change {documents : List Document} {station : Station}
      (passes : Passes allowed origin documents station) (change : SubscriptionChange Listener) :
      Passes allowed origin documents
        { station with observers := station.observers.change change }

namespace Passes

variable {allowed permitted : Entry → Prop} {origin station last : Station}
  {documents more : List Document}

theorem trans (first : Passes allowed origin documents station)
    (second : Passes allowed station more last) : Passes allowed origin (documents ++ more) last := by
  induction second with
  | stay =>
      rw [List.append_nil]
      exact first
  | write _ now silent fine inductionHypothesis => exact inductionHypothesis.write now silent fine
  | publish _ now fine inductionHypothesis => exact inductionHypothesis.publish now fine
  | dispatch _ now document inductionHypothesis =>
      rw [← List.append_assoc]
      exact inductionHypothesis.dispatch now document
  | watch _ watchdog inductionHypothesis => exact inductionHypothesis.watch watchdog
  | count _ madeUids inductionHypothesis => exact inductionHypothesis.count madeUids
  | change _ change inductionHypothesis => exact inductionHypothesis.change change

theorem mono (allows : ∀ entry, allowed entry → permitted entry)
    (passes : Passes allowed origin documents station) :
    Passes permitted origin documents station := by
  induction passes with
  | stay => exact .stay
  | write _ now silent fine inductionHypothesis =>
      exact inductionHypothesis.write now silent fun entry member => allows entry (fine entry member)
  | publish _ now fine inductionHypothesis => exact inductionHypothesis.publish now (allows _ fine)
  | dispatch _ now document inductionHypothesis => exact inductionHypothesis.dispatch now document
  | watch _ watchdog inductionHypothesis => exact inductionHypothesis.watch watchdog
  | count _ madeUids inductionHypothesis => exact inductionHypothesis.count madeUids
  | change _ change inductionHypothesis => exact inductionHypothesis.change change

/-- Events are only ever sent behind all others, and only events that are allowed. -/
theorem sent (passes : Passes allowed origin documents station) :
    ∃ events,
      station.bus = ⟨origin.bus.capacity, origin.bus.sent ++ events, origin.bus.closed⟩ ∧
        ∀ event ∈ events, allowed (.published event) := by
  induction passes with
  | stay => exact ⟨[], by rw [List.append_nil], List.forall_mem_nil _⟩
  | publish _ now fine inductionHypothesis =>
      rename_i event
      obtain ⟨events, bus, areFine⟩ := inductionHypothesis
      refine ⟨events ++ [event], ?_, ?_⟩
      · simp [Station.publish, Broadcast.send, bus]
      · intro other member
        rcases List.mem_append.mp member with earlier | here
        · exact areFine other earlier
        · obtain rfl := List.mem_singleton.mp here
          exact fine
  | write _ _ _ _ inductionHypothesis => exact inductionHypothesis
  | dispatch _ _ _ inductionHypothesis => exact inductionHypothesis
  | watch _ _ inductionHypothesis => exact inductionHypothesis
  | count _ _ inductionHypothesis => exact inductionHypothesis
  | change _ _ inductionHypothesis => exact inductionHypothesis

/-- What was written on the way: the documents and the entries of their deliveries, and beside
these only what is allowed. -/
theorem written (passes : Passes allowed origin documents station) :
    ∃ written : Journal, station.journal = origin.journal ++ written ∧
      written.documents = documents ∧
      ∀ entry ∈ written, allowed entry.2 ∨ entry.2.OfDelivery := by
  induction passes with
  | stay => exact ⟨[], (List.append_nil _).symm, rfl, List.forall_mem_nil _⟩
  | write _ now silent fine inductionHypothesis =>
      rename_i entries
      obtain ⟨written, journal, handed, areFine⟩ := inductionHypothesis
      have noDocuments : Journal.documents (entries.map fun entry => (now, entry)) = [] := by
        rw [Journal.documents, List.filterMap_map, List.filterMap_eq_nil_iff]
        exact fun entry member => (silent entry member).noDocument
      refine ⟨written ++ entries.map fun entry => (now, entry), ?_, ?_, ?_⟩
      · rw [← List.append_assoc, ← journal]
        rfl
      · rw [Journal.documents_append, noDocuments, handed, List.append_nil]
      · intro entry member
        rcases List.mem_append.mp member with earlier | here
        · exact areFine entry earlier
        · obtain ⟨note, isNote, rfl⟩ := List.mem_map.mp here
          exact Or.inl (fine note isNote)
  | publish _ now fine inductionHypothesis =>
      rename_i event
      obtain ⟨written, journal, handed, areFine⟩ := inductionHypothesis
      refine ⟨written ++ [(now, .published event)], ?_, ?_, ?_⟩
      · rw [← List.append_assoc, ← journal]
        rfl
      · rw [Journal.documents_append, handed]
        exact List.append_nil _
      · intro entry member
        rcases List.mem_append.mp member with earlier | here
        · exact areFine entry earlier
        · obtain rfl := List.mem_singleton.mp here
          exact Or.inl fine
  | dispatch _ now document inductionHypothesis =>
      rename_i station _
      obtain ⟨written, journal, handed, areFine⟩ := inductionHypothesis
      obtain ⟨delivery, deliveryJournal, deliveryHanded, _⟩ :=
        station.writes_dispatch now document
      have entries : delivery = (Entry.handed document ::
          (station.observers.dispatch document).entries).map fun entry => (now, entry) :=
        List.append_cancel_left deliveryJournal.symm
      refine ⟨written ++ delivery, ?_, ?_, ?_⟩
      · rw [deliveryJournal, journal, List.append_assoc]
      · rw [Journal.documents_append, handed, deliveryHanded]
      · intro entry member
        rcases List.mem_append.mp member with earlier | here
        · exact areFine entry earlier
        · rw [entries] at here
          obtain ⟨note, isNote, rfl⟩ := List.mem_map.mp here
          rcases List.mem_cons.mp isNote with rfl | reaction
          · exact Or.inr trivial
          · exact Or.inr (station.observers.ofDelivery_of_mem_deliver document _ note reaction)
  | watch _ _ inductionHypothesis => exact inductionHypothesis
  | count _ _ inductionHypothesis => exact inductionHypothesis
  | change _ _ inductionHypothesis => exact inductionHypothesis

theorem handedUntil_eq (passes : Passes allowed origin documents station) :
    origin.handedUntil station = documents := by
  obtain ⟨written, journal, handed, _⟩ := passes.written
  rw [handedUntil, journal, List.drop_left, handed]

end Passes

/-- Whoever waits for events is told if any was published. -/
def Tells (before after : Station) (effects : List PlanEffect) : Prop :=
  after.bus.position = before.bus.position ∨ .published ∈ effects

theorem Tells.trans {first second third : Station} {effects more : List PlanEffect}
    (earlier : Tells first second effects) (later : Tells second third more) :
    Tells first third (effects ++ more) := by
  rcases earlier with quiet | told
  · rcases later with stillQuiet | told
    · exact Or.inl (stillQuiet.trans quiet)
    · exact Or.inr (List.mem_append_right _ told)
  · exact Or.inr (List.mem_append_left _ told)

end Station

namespace PlanContext

/-- Work of a plan that hands over these documents. -/
structure Works (documents : List Document) (context : PlanContext) (station : Station)
    (laterContext : PlanContext) (laterStation : Station) : Prop where
  passes : station.Passes Entry.OfPlan documents laterStation
  openRuns : laterContext.openRuns = documents.foldl Document.track context.openRuns

variable {context laterContext lastContext : PlanContext}
  {station laterStation lastStation : Station} {documents more : List Document}

namespace Works

theorem of_passes (passes : station.Passes Entry.OfPlan [] laterStation)
    (openRuns : laterContext.openRuns = context.openRuns) :
    Works [] context station laterContext laterStation :=
  ⟨passes, openRuns⟩

theorem refl (context : PlanContext) (station : Station) :
    Works [] context station context station :=
  of_passes .stay rfl

theorem trans (first : Works documents context station laterContext laterStation)
    (second : Works more laterContext laterStation lastContext lastStation) :
    Works (documents ++ more) context station lastContext lastStation := by
  refine ⟨first.passes.trans second.passes, ?_⟩
  rw [List.foldl_append, ← first.openRuns]
  exact second.openRuns

end Works

/-- The runs that the context of a handover has open are those that its document leaves open. -/
def Handover.Tracks (context : PlanContext) (handover : Handover) : Prop :=
  handover.context.openRuns = handover.document.track context.openRuns

theorem tracks_openRun {run : RunStart} {handover : Handover}
    (opened : context.openRun run = .ok handover) : handover.Tracks context := by
  obtain ⟨rfl, _⟩ := Handover.check_ok opened
  rfl

theorem tracks_emitEvent {descriptorUid : String} {data : Table Json} {handover : Handover}
    (emitted : context.emitEvent descriptorUid data = .ok handover) : handover.Tracks context := by
  obtain ⟨rfl, _⟩ := Handover.check_ok emitted
  rfl

theorem tracks_describe {descriptorUid runUid name : String} {handover : Handover}
    (described : context.describe descriptorUid runUid name = .ok handover) :
    handover.Tracks context := by
  unfold describe at described
  split at described
  · obtain rfl := Except.ok.inj described
    rfl
  · cases described

theorem tracks_closeRun {runUid : String} {exitStatus : ExitStatus} {handover : Handover}
    (closed : context.closeRun runUid exitStatus = .ok handover) : handover.Tracks context := by
  unfold closeRun at closed
  rw [eraseLast?_eq] at closed
  by_cases isOpen : runUid ∈ context.openRuns
  · simp only [isOpen, if_true] at closed
    obtain rfl := Except.ok.inj closed
    rfl
  · simp only [isOpen, if_false] at closed
    cases closed

/-- An operation that is refused leaves no trace. Otherwise its document is handed over, and a
fault of the observers is published. -/
theorem exists_works_submit {Value : Type} (context : PlanContext) (station : Station) (now : Span)
    {handover : Except PlanError Handover} (value : Value)
    (tracks : ∀ accepted, handover = .ok accepted → accepted.Tracks context) :
    let after := context.submit station now handover value
    ∃ documents, Works documents context station after.context after.station := by
  cases handover with
  | error error => exact ⟨[], .refl context station⟩
  | ok accepted =>
      have dispatched : station.Passes Entry.OfPlan [accepted.document]
          (station.dispatch now accepted.document).1 :=
        Station.Passes.stay.dispatch now accepted.document
      refine ⟨[accepted.document], ?_, ?_⟩
      · simp only [submit]
        split
        · rename_i same
          rw [same] at dispatched
          exact dispatched
        · rename_i fault same
          rw [same] at dispatched
          apply dispatched.publish now
          simp [Entry.OfPlan, faultEvent, Event.withReason, Event.withPlan, Event.ofKind]
      · simp only [submit]
        split <;> exact tracks accepted rfl

theorem exists_works_act (context : PlanContext) (station : Station) (now : Span)
    (action : PlanAction) :
    let after := context.act station now action
    ∃ documents, Works documents context station after.context after.station := by
  have made : Works [] context station context station.makeUid.2 :=
    .of_passes (Station.Passes.stay.count _) rfl
  cases action with
  | openRun run => exact context.exists_works_submit station now _ fun _ => tracks_openRun
  | generateRun activateCallbacks =>
      have tracks : ∀ accepted,
          context.openRun { RunStart.ofUid station.makeUid.1 with activateCallbacks } =
            .ok accepted → accepted.Tracks context := fun _ => tracks_openRun
      obtain ⟨documents, works⟩ := context.exists_works_submit station.makeUid.2 now
        (StepResult.uid station.makeUid.1) tracks
      exact ⟨documents, made.trans works⟩
  | descriptor runUid name =>
      have tracks : ∀ accepted, context.describe station.makeUid.1 runUid name = .ok accepted →
          accepted.Tracks context := fun _ => tracks_describe
      simp only [act]
      split
      · obtain ⟨documents, works⟩ := context.exists_works_submit station.makeUid.2 now
          (StepResult.uid station.makeUid.1) tracks
        exact ⟨documents, made.trans works⟩
      · exact context.exists_works_submit station now _ tracks
  | event descriptorUid data =>
      exact context.exists_works_submit station now _ fun _ => tracks_emitEvent
  | closeRun runUid status =>
      exact context.exists_works_submit station now _ fun _ => tracks_closeRun
  | reset => exact ⟨[], .of_passes (Station.Passes.stay.watch _) rfl⟩
  | sleep duration =>
      simp only [act]
      split <;> exact ⟨[], .refl context station⟩
  | wait | checkpoint | view | fail | abort | branch => exact ⟨[], .refl context station⟩

end PlanContext

namespace Course

open PlanContext

theorem works_record (context : PlanContext) (station : Station) (now : Span) (branched : Bool)
    (step : PlanStep) (result : Except PlanError StepResult) :
    Works [] context station context (record context station now branched step result) := by
  apply Works.of_passes _ rfl
  apply Station.Passes.stay.write now
  all_goals
    intro entry member
    obtain rfl := List.mem_singleton.mp member
  · exact ⟨rfl, rfl⟩
  · exact trivial

theorem exists_works_run (context : PlanContext) (station : Station) (now : Span)
    (branched : Bool) (steps : List PlanStep) :
    let advance := run now branched context station steps
    ∃ documents, Works documents context station advance.context advance.station := by
  induction steps generalizing context station with
  | nil => exact ⟨[], .refl context station⟩
  | cons step rest inductionHypothesis =>
      intro advance
      cases pauses : pause? context now step.1 with
      | some pause =>
          have stops : advance =
              ⟨context, station, pause.2, .open (.paused pause.1 step rest)⟩ := by
            simp only [advance, run, pauses]
          rw [stops]
          exact ⟨[], .refl context station⟩
      | none =>
          obtain ⟨documents, acts⟩ := context.exists_works_act station now step.1
          have acted := acts.trans
            (works_record _ _ now branched step (context.act station now step.1).result)
          rcases run_cons station branched rest pauses with ⟨effects, error, _, ends⟩ | ⟨effects, goes⟩
          · simp only [advance, ends]
            exact ⟨_, acted⟩
          · simp only [advance, goes]
            obtain ⟨more, works⟩ := inductionHypothesis (context.act station now step.1).context
              (record (context.act station now step.1).context
                (context.act station now step.1).station now branched step
                (context.act station now step.1).result)
            exact ⟨_, acted.trans works⟩

theorem exists_works_advance (course : Course) (now : Span) (branched : Bool)
    (context : PlanContext) (station : Station) :
    let advance := course.advance now branched context station
    ∃ documents, Works documents context station advance.context advance.station := by
  cases course with
  | ready steps => exact exists_works_run context station now branched steps
  | paused pause step rest =>
      intro advance
      cases resumes : resume? context now pause with
      | none =>
          have stays : advance = ⟨context, station, [], .open (.paused pause step rest)⟩ := by
            simp only [advance, Course.advance, resumes]
          rw [stays]
          exact ⟨[], .refl context station⟩
      | some result =>
          have recorded := works_record context station now branched step result
          obtain ⟨documents, works⟩ := exists_works_run context
            (record context station now branched step result) now branched rest
          simp only [advance, Course.advance, resumes]
          split
          · exact ⟨[], recorded⟩
          · exact ⟨documents, recorded.trans works⟩

/-- What an action publishes is told to whoever runs the plan. -/
theorem tells_act (context : PlanContext) (station : Station) (now : Span) (action : PlanAction) :
    let after := (context.act station now action).station
    station.Tells after (effects station after action) := by
  intro after
  by_cases same : after.bus.position = station.bus.position
  · exact Or.inl same
  · have told : effects station after action = [.published] := by
      cases action with
      | branch steps => exact absurd rfl same
      | _ => simp only [effects, same, if_false]
    rw [told]
    exact Or.inr List.mem_cons_self

theorem tells_run (context : PlanContext) (station : Station) (now : Span) (branched : Bool)
    (steps : List PlanStep) :
    let advance := run now branched context station steps
    station.Tells advance.station advance.effects := by
  induction steps generalizing context station with
  | nil => exact Or.inl rfl
  | cons step rest inductionHypothesis =>
      have acts := tells_act context station now step.1
      simp only [run]
      split
      · exact Or.inl rfl
      · split
        · exact acts
        · exact Station.Tells.trans acts (inductionHypothesis _ _)

theorem tells_advance (course : Course) (now : Span) (branched : Bool) (context : PlanContext)
    (station : Station) :
    let advance := course.advance now branched context station
    station.Tells advance.station advance.effects := by
  unfold advance
  split
  · exact tells_run context station now branched _
  · split
    · exact Or.inl rfl
    · dsimp only
      split
      · exact Or.inl rfl
      · exact tells_run context _ now branched _

end Course

namespace Execution

open PlanContext

theorem published_mem_conclude (context : PlanContext) (station : Station) (now : Span)
    (result : Except PlanError Unit) :
    .published ∈ (conclude context station now result).effects := by
  cases result with
  | ok value => exact List.mem_cons_self
  | error error => exact List.mem_append_right _ List.mem_cons_self

theorem tells_proceed (interval : Span) (course : Course) (tick : Span) (context : PlanContext)
    (station : Station) (now : Span) :
    let execution := proceed interval course tick context station now
    station.Tells execution.station execution.effects := by
  have advances := course.tells_advance now false context station
  unfold proceed
  dsimp only
  split
  · exact Or.inr (List.mem_append_right _ (published_mem_conclude _ _ now _))
  · split
    · exact Or.inr (List.mem_append_right _ (published_mem_conclude _ _ now (.error _)))
    · rw [List.append_nil]
      exact advances

/-- What the check of a plan, or its end, publishes is told as well. -/
theorem tells_happen_check (interval : Span) (course : Course) (tick : Span)
    (context : PlanContext) (station : Station) (now : Span) :
    let execution := happen interval ⟨context, station, [], .running course tick⟩ now .check
    station.Tells execution.station execution.effects := by
  unfold happen
  dsimp only
  split
  · exact Or.inr (published_mem_conclude context station now (.error _))
  · exact Or.inl rfl

theorem passes_handClosing (plan : String) (now : Span) (station : Station) (closing : RunStop) :
    station.Passes Entry.OfPlan [.stop closing] (handClosing plan now station closing) := by
  have dispatched : station.Passes Entry.OfPlan [.stop closing]
      (station.dispatch now (.stop closing)).1 :=
    Station.Passes.stay.dispatch now (.stop closing)
  unfold handClosing
  split
  · rename_i same
    rw [same] at dispatched
    exact dispatched
  · rename_i fault same
    rw [same] at dispatched
    apply dispatched.write now
    all_goals
      intro entry member
      obtain rfl := List.mem_singleton.mp member
    · exact ⟨rfl, rfl⟩
    · rfl

theorem passes_closings (plan : String) (now : Span) (station : Station)
    (closings : List RunStop) :
    station.Passes Entry.OfPlan (closings.map .stop)
      (closings.foldl (handClosing plan now) station) := by
  induction closings generalizing station with
  | nil => exact .stay
  | cons closing later inductionHypothesis =>
      exact (passes_handClosing plan now station closing).trans (inductionHypothesis _)

end Execution

/-- The stops of all runs that are open, innermost first, leave none open. -/
theorem Document.foldl_track_closing (openRuns : List String) (closingOf : String → RunStop)
    (closes : ∀ runUid, (closingOf runUid).runStart = runUid) :
    (openRuns.reverse.map fun runUid => stop (closingOf runUid)).foldl track openRuns = [] := by
  induction stack : openRuns.reverse generalizing openRuns with
  | nil => exact List.reverse_eq_nil_iff.mp stack
  | cons runUid rest inductionHypothesis =>
      have innermost : (stop (closingOf runUid)).track openRuns = rest.reverse := by
        simp [track, stack, closes]
      rw [List.map_cons, List.foldl_cons, innermost]
      exact inductionHypothesis rest.reverse (List.reverse_reverse rest)

namespace Execution

open PlanContext

variable (context : PlanContext) (station : Station) (now : Span)

theorem works_succeed :
    let ended := succeed context station now
    Works [] context station ended.context ended.station := by
  apply Works.of_passes _ rfl
  apply (Station.Passes.stay.watch _).publish now
  simp [Entry.OfPlan, Event.withPlan, Event.ofKind]

theorem works_noteExpiry (error : PlanError) :
    let noted := noteExpiry context station now error
    Works [] context station noted.1 noted.2.1 := by
  cases error with
  | watchdogExpired window =>
      refine .of_passes (Station.Passes.stay.publish now ?_) rfl
      simp [Entry.OfPlan, Event.withTimeout, Event.withPlan, Event.ofKind]
  | _ => exact .refl context station

/-- What an execution does and how it stands comes of the work of its plan from this context and
station. When it fails, no run is left open. -/
structure Performs (documents : List Document) (context : PlanContext) (station : Station)
    (execution : Execution) : Prop where
  works : Works documents context station execution.context execution.station
  closed : ∀ error, execution.standing = .ended (.error error) → execution.context.openRuns = []

theorem exists_performs_fail (error : PlanError) :
    ∃ documents, Performs documents context station (fail context station now error) := by
  let ended := fail context station now error
  let noted := noteExpiry context station.disarmWatchdog now error
  let stops := noted.1.closingStops (closingStatus error) error.message
  have disarmed : Works [] context station context station.disarmWatchdog :=
    .of_passes (Station.Passes.stay.watch _) rfl
  have first := disarmed.trans (works_noteExpiry context station.disarmWatchdog now error)
  have closed : Works (stops.map .stop) noted.1 noted.2.1 { noted.1 with openRuns := [] }
      (stops.foldl (handClosing noted.1.plan now) noted.2.1) := by
    refine ⟨passes_closings noted.1.plan now noted.2.1 stops, ?_⟩
    have noneLeft := Document.foldl_track_closing noted.1.openRuns
      (fun runUid => ⟨runUid, closingStatus error, some error.message⟩) fun _ => rfl
    simp only [stops, closingStops, List.map_map]
    exact noneLeft.symm
  have published : Works [] { noted.1 with openRuns := [] }
      (stops.foldl (handClosing noted.1.plan now) noted.2.1) ended.context ended.station := by
    refine .of_passes (Station.Passes.stay.publish now ?_) rfl
    simp [Entry.OfPlan, Event.withReason, Event.withPlan, Event.ofKind]
  exact ⟨_, (first.trans closed).trans published, fun _ _ => rfl⟩

theorem exists_performs_conclude (result : Except PlanError Unit) :
    ∃ documents, Performs documents context station (conclude context station now result) := by
  cases result with
  | ok value => exact ⟨[], works_succeed context station now, fun _ failed => nomatch failed⟩
  | error error => exact exists_performs_fail context station now error

variable {context station now}

theorem Performs.after {earlierContext : PlanContext} {earlierStation : Station}
    {documents more : List Document} {execution : Execution}
    (works : Works documents earlierContext earlierStation context station)
    (performs : Performs more context station execution) :
    Performs (documents ++ more) earlierContext earlierStation execution :=
  ⟨works.trans performs.works, performs.closed⟩

theorem Performs.of_standsAs {documents : List Document} {execution other : Execution}
    (stands : execution.StandsAs other) (performs : Performs documents context station other) :
    Performs documents context station execution := by
  obtain ⟨works, closed⟩ := performs
  rw [← stands.context, ← stands.station] at works
  refine ⟨works, fun error failed => ?_⟩
  rw [stands.context]
  exact closed error (stands.standing.symm.trans failed)

theorem exists_performs_proceed (interval : Span) (course : Course) (tick : Span)
    (context : PlanContext) (station : Station) (now : Span) :
    ∃ documents, Performs documents context station
      (proceed interval course tick context station now) := by
  obtain ⟨documents, works⟩ := course.exists_works_advance now false context station
  rcases proceed_cases context station now interval course tick with
    ⟨result, _, stands⟩ | ⟨later, _, ⟨error, _, stands⟩ | ⟨_, stands⟩⟩
  · obtain ⟨more, performs⟩ := exists_performs_conclude _ _ now result
    exact ⟨_, (performs.after works).of_standsAs stands⟩
  · obtain ⟨more, performs⟩ := exists_performs_fail _ _ now error
    exact ⟨_, (performs.after works).of_standsAs stands⟩
  · refine ⟨documents, ?_, fun error failed => ?_⟩
    · rw [stands.context, stands.station]
      exact works
    · rw [stands.standing] at failed
      cases failed

theorem exists_performs_check (interval : Span) (course : Course) (tick : Span)
    (context : PlanContext) (station : Station) (now : Span) :
    ∃ documents, Performs documents context station
      (happen interval ⟨context, station, [], .running course tick⟩ now .check) := by
  unfold happen
  cases interrupts : interruption? context station now tick with
  | some error =>
      simp only [interrupts]
      exact exists_performs_fail context station now error
  | none =>
      simp only [interrupts]
      exact ⟨[], .refl context station, fun _ failed => nomatch failed⟩

/-- The work of a plan begins once the watchdog is armed and the start is published. -/
theorem exists_performs_begin (interval : Span) (plan : Plan) (context : PlanContext)
    (station : Station) (now : Span) :
    let started := (station.armWatchdog now).publish now
      ((Event.ofKind .planStarting).withPlan context.plan)
    ∃ documents, Performs documents context started (begin interval plan context station now) := by
  intro started
  unfold begin
  cases stale : started.hasExpired now with
  | true =>
      obtain ⟨documents, performs⟩ := exists_performs_fail context started now
        (.watchdogExpired started.watchdog.window)
      simp only [started] at stale
      simp only [stale, if_true]
      exact ⟨documents, performs.works, performs.closed⟩
  | false =>
      obtain ⟨documents, performs⟩ :=
        exists_performs_proceed interval (.ready plan.steps) now context started now
      simp only [started] at stale
      simp only [stale, Bool.false_eq_true, if_false]
      exact ⟨documents, performs.works, performs.closed⟩

end Execution

end PlanSupervision
