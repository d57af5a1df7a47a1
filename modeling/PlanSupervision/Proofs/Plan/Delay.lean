import PlanSupervision.Proofs.Plan.Remains

/-!
An execution that is put off. What a plan does and sees depends on instants only by how long after
its beginning they come: of two executions of one plan, one of which begins later and is given its
turns later by the same delay, the later one always stands where the other stood, and shows the
same, later by the delay. Where the observers never fault, it does not matter who they are. Uids
that are drawn at random are left out of the comparison, and accounted for on their own.
-/

namespace PlanSupervision

namespace Watchdog

variable {watchdog : Watchdog} {delay now : Span}

def delayed (delay : Span) (watchdog : Watchdog) : Watchdog :=
  { watchdog with
    deadline := watchdog.deadline.map (· + delay)
    armedAt := watchdog.armedAt.map (· + delay) }

theorem reset_delayed :
    (watchdog.delayed delay).reset (now + delay) = (watchdog.reset now).delayed delay := by
  simp [reset, delayed, Nat.add_right_comm]

theorem status_delayed : (watchdog.delayed delay).status (now + delay) = watchdog.status now := by
  obtain ⟨window, deadline, armedAt⟩ := watchdog
  cases armedAt with
  | none => rfl
  | some armed =>
      cases deadline with
      | none =>
          have same : now + delay ≤ armed + delay + window ↔ now ≤ armed + window := by
            rw [Nat.add_right_comm]
            exact Nat.add_le_add_iff_right
          simp only [status, delayed, Option.map_none, Option.map_some, same]
      | some deadline =>
          have same : now + delay ≤ deadline + delay ↔ now ≤ deadline :=
            Nat.add_le_add_iff_right
          simp only [status, delayed, Option.map_some, same]

end Watchdog

def Pause.delayed (delay : Span) : Pause → Pause
  | .until due => .until (due + delay)
  | .sleeping due => .sleeping (due + delay)
  | .yielding => .yielding

def Course.delayed (delay : Span) : Course → Course
  | .ready steps => .ready steps
  | .paused pause step rest => .paused (pause.delayed delay) step rest

theorem Course.deadline?_delayed (course : Course) (delay : Span) :
    (course.delayed delay).deadline? = course.deadline?.map (· + delay) := by
  cases course with
  | ready steps => rfl
  | paused pause step rest => cases pause <;> rfl

def Standing.delayed (delay : Span) : Standing → Standing
  | .open course => .open (course.delayed delay)
  | .ended result => .ended result

def ExecutionStanding.delayed (delay : Span) : ExecutionStanding → ExecutionStanding
  | .running course tick => .running (course.delayed delay) (tick + delay)
  | .ended result => .ended result

theorem Execution.tickAfter_delayed (interval now tick delay : Span) :
    tickAfter interval (now + delay) (tick + delay) = tickAfter interval now tick + delay := by
  have passed : now + delay - (tick + delay) = now - tick := Nat.add_sub_add_right now delay tick
  have before : now + delay < tick + delay ↔ now < tick := Nat.add_lt_add_iff_right
  have inTime : now + delay ≤ tick + delay + tickTolerance ↔ now ≤ tick + tickTolerance := by
    rw [Nat.add_right_comm]
    exact Nat.add_le_add_iff_right
  simp only [tickAfter, passed, before, inTime]
  split
  · rfl
  · split
    · exact Nat.add_right_comm tick delay _
    · exact Nat.add_right_comm now delay _

/-- What a plan sees of a step, with the instants that it sees put off. The uid of a descriptor is
drawn at random. -/
def StepResult.sight (delay : Span) (action : PlanAction) : StepResult → StepResult
  | done => done
  | uid value =>
      match action with
      | .descriptor _ _ => done
      | _ => uid value
  | view value => view { value with deadline := value.deadline.map (· + delay) }

def Document.undrawn : Document → Document
  | descriptor content => descriptor { content with descriptorUid := "" }
  | document => document

/-- The uid that is drawn for a descriptor. -/
def Document.drawn? : Document → Option String
  | descriptor content => some content.descriptorUid
  | _ => none

theorem Document.isSome_drawn?_undrawn (document : Document) :
    document.undrawn.drawn?.isSome = document.drawn?.isSome := by
  cases document <;> rfl

/-- A document is what is left of it without the uid that is drawn, and that uid. -/
theorem Document.eq_of_undrawn {document other : Document}
    (same : document.undrawn = other.undrawn) (drawn : document.drawn? = other.drawn?) :
    document = other := by
  cases document with
  | descriptor content =>
      cases other with
      | descriptor otherContent =>
          obtain ⟨_, rest⟩ := Descriptor.mk.inj (Document.descriptor.inj same)
          obtain ⟨runUid, name⟩ := rest
          cases content
          cases otherContent
          simp_all [drawn?]
      | _ => cases drawn
  | _ =>
      cases other with
      | descriptor otherContent => cases drawn
      | _ => exact same

/-- A document that is handed over, an event or a step of a plan, with the instants that the plan
sees put off and without the uids that are drawn. -/
def Entry.sight? (delay : Span) : Entry → Option Entry
  | handed document => some (.handed document.undrawn)
  | published event => some (.published event)
  | stepped record => some (.stepped { record with
      result := record.result.map (StepResult.sight delay record.action) })
  | _ => none

namespace Journal

/-- What a journal tells of a plan, each at its instant put off. -/
def sights (delay : Span) (journal : Journal) : Journal :=
  journal.filterMap fun entry =>
    (entry.2.sight? delay).map fun sight => (entry.1 + delay, sight)

theorem sights_append (delay : Span) (earlier later : Journal) :
    sights delay (earlier ++ later) = sights delay earlier ++ sights delay later :=
  List.filterMap_append

/-- The uids that were drawn for descriptors, in order. -/
def drawn (journal : Journal) : List String := journal.documents.filterMap Document.drawn?

theorem drawn_append (earlier later : Journal) :
    drawn (earlier ++ later) = earlier.drawn ++ later.drawn := by
  rw [drawn, documents_append, List.filterMap_append]
  rfl

end Journal

theorem Journal.sights_entries (delay now : Span) (entries : List Entry) :
    Journal.sights delay (entries.map fun entry => (now, entry)) =
      (entries.filterMap (Entry.sight? delay)).map fun sight => (now + delay, sight) := by
  rw [Journal.sights, List.filterMap_map, List.map_filterMap]
  rfl

theorem Entry.sight?_of_isReaction {entry : Entry} (delay : Span)
    (reaction : entry.isReaction = true) : entry.sight? delay = none := by
  cases entry with
  | delivered | logged => rfl
  | _ => cases reaction

/-- What is seen tells the documents up to the uids that are drawn. -/
theorem Journal.undrawn_of_sights {journal other : Journal} {delay sooner : Span}
    (same : journal.sights delay = other.sights sooner) :
    journal.documents.map Document.undrawn = other.documents.map Document.undrawn := by
  have told : ∀ (delay : Span) (journal : Journal),
      (journal.sights delay).documents = journal.documents.map Document.undrawn := by
    intro delay journal
    rw [documents, sights, List.filterMap_filterMap, documents, List.map_filterMap]
    congr 1
    funext written
    obtain ⟨instant, entry⟩ := written
    cases entry <;> rfl
  rw [← told delay, ← told sooner, same]

theorem Journal.length_drawn_of_sights {journal other : Journal} {delay sooner : Span}
    (same : journal.sights delay = other.sights sooner) :
    journal.drawn.length = other.drawn.length := by
  have counted : ∀ journal : Journal, journal.drawn.length =
      (journal.documents.map Document.undrawn).countP fun document => document.drawn?.isSome := by
    intro journal
    rw [drawn, List.length_filterMap_eq_countP, List.countP_map]
    congr 1
    funext document
    exact document.isSome_drawn?_undrawn.symm
  rw [counted, counted, undrawn_of_sights same]

/-- Journals in which the same is seen and the same uids are drawn tell the same documents. -/
theorem Journal.documents_eq {journal other : Journal} {delay sooner : Span}
    (same : journal.sights delay = other.sights sooner) (drawn : journal.drawn = other.drawn) :
    journal.documents = other.documents := by
  have undrawn := undrawn_of_sights same
  unfold Journal.drawn at drawn
  generalize journal.documents = documents at undrawn drawn
  generalize other.documents = others at undrawn drawn
  induction documents generalizing others with
  | nil => exact (List.map_eq_nil_iff.mp undrawn.symm).symm
  | cons document rest inductionHypothesis =>
      cases others with
      | nil => cases undrawn
      | cons twin later =>
          obtain ⟨first, behind⟩ := List.cons.inj undrawn
          have both : document.drawn?.isSome = twin.drawn?.isSome := by
            rw [← document.isSome_drawn?_undrawn, first, twin.isSome_drawn?_undrawn]
          rw [List.filterMap_cons, List.filterMap_cons] at drawn
          cases isDrawn : document.drawn? with
          | none =>
              have alsoNone : twin.drawn? = none := by simpa [isDrawn] using both
              rw [isDrawn, alsoNone] at drawn
              rw [Document.eq_of_undrawn first (isDrawn.trans alsoNone.symm),
                inductionHypothesis later behind drawn]
          | some uid =>
              obtain ⟨twinUid, alsoDrawn⟩ : ∃ uid, twin.drawn? = some uid := by
                simpa [isDrawn, Option.isSome_iff_exists] using both.symm
              rw [isDrawn, alsoDrawn] at drawn
              obtain ⟨sameUid, others⟩ := List.cons.inj drawn
              rw [Document.eq_of_undrawn first (by rw [isDrawn, alsoDrawn, sameUid]),
                inductionHypothesis later behind others]

namespace Station

/-- From one state of a station to a later one these uids were drawn: the next ones, in order. -/
structure Draws (before after : Station) (uids : List String) : Prop where
  draws : after.draws = before.draws
  made : after.madeUids = before.madeUids + uids.length
  inOrder : uids =
    (List.range' before.madeUids uids.length).map fun number => (before.draws number).text

theorem Draws.none {before after : Station} (draws : after.draws = before.draws)
    (made : after.madeUids = before.madeUids) : Draws before after [] := ⟨draws, made, rfl⟩

theorem Draws.trans {before middle after : Station} {uids more : List String}
    (first : Draws before middle uids) (second : Draws middle after more) :
    Draws before after (uids ++ more) := by
  refine ⟨second.draws.trans first.draws, ?_, ?_⟩
  · rw [second.made, first.made, List.length_append, Nat.add_assoc]
  · have later := second.inOrder
    rw [first.made, first.draws] at later
    rw [List.length_append, ← List.range'_append_1, List.map_append, ← first.inOrder, ← later]

/-- As far as a plan can tell, a station is as its twin is sooner by a delay. -/
structure Twins (delay : Span) (station twin : Station) : Prop where
  watchdog : station.watchdog = twin.watchdog.delayed delay
  faultless : station.observers.Faultless
  twinFaultless : twin.observers.Faultless

/-- From one state of two stations to a later one the same is seen at both, at the one later by a
delay. The uids that the twin draws are those of its descriptors. -/
structure Parallel (delay : Span) (before after twin twinAfter : Station) : Prop where
  seen : ∃ written twinWritten : Journal, after.journal = before.journal ++ written ∧
    twinAfter.journal = twin.journal ++ twinWritten ∧
      written.sights 0 = twinWritten.sights delay ∧ Draws twin twinAfter twinWritten.drawn
  twins : Twins delay after twinAfter

variable {delay now : Span} {station twin : Station}

theorem Twins.unseen {after twinAfter : Station} (twins : Twins delay after twinAfter)
    (journal : after.journal = station.journal) (twinJournal : twinAfter.journal = twin.journal)
    (draws : twinAfter.draws = twin.draws) (made : twinAfter.madeUids = twin.madeUids) :
    Parallel delay station after twin twinAfter :=
  ⟨⟨[], [], journal.trans (List.append_nil _).symm, twinJournal.trans (List.append_nil _).symm, rfl,
    .none draws made⟩, twins⟩

theorem Twins.parallel (twins : Twins delay station twin) :
    Parallel delay station station twin twin := twins.unseen rfl rfl rfl rfl

theorem Parallel.trans {after twinAfter last twinLast : Station}
    (first : Parallel delay station after twin twinAfter)
    (second : Parallel delay after last twinAfter twinLast) :
    Parallel delay station last twin twinLast := by
  obtain ⟨written, twinWritten, journal, twinJournal, same, drawn⟩ := first.seen
  obtain ⟨more, twinMore, later, twinLater, alsoSame, alsoDrawn⟩ := second.seen
  refine ⟨⟨written ++ more, twinWritten ++ twinMore, ?_, ?_, ?_, ?_⟩, second.twins⟩
  · rw [later, journal, List.append_assoc]
  · rw [twinLater, twinJournal, List.append_assoc]
  · rw [Journal.sights_append, Journal.sights_append, same, alsoSame]
  · rw [Journal.drawn_append]
    exact drawn.trans alsoDrawn

/-- One entry is written that hands nothing over. -/
theorem Twins.write (twins : Twins delay station twin) (now : Span) {entry twinEntry : Entry}
    (same : entry.sight? 0 = twinEntry.sight? delay) (noDocument : twinEntry.document? = none) :
    Parallel delay station (station.write (now + delay) [entry]) twin
      (twin.write now [twinEntry]) := by
  have nothing : Journal.drawn [(now, twinEntry)] = [] := by
    simp [Journal.drawn, Journal.documents, noDocument]
  refine ⟨⟨_, _, rfl, rfl, ?_, ?_⟩, twins.watchdog, twins.faultless, twins.twinFaultless⟩
  · rw [Journal.sights_entries, Journal.sights_entries, List.filterMap_cons, List.filterMap_cons, same]
    rfl
  · change Draws _ _ (Journal.drawn [(now, twinEntry)])
    rw [nothing]
    exact .none rfl rfl

theorem Twins.publish (twins : Twins delay station twin) (now : Span) (event : Event) :
    Parallel delay station (station.publish (now + delay) event) twin (twin.publish now event) := by
  have same : (Entry.published event).sight? 0 = (Entry.published event).sight? delay := rfl
  have written := twins.write now same rfl
  have sent : Twins delay (station.publish (now + delay) event) (twin.publish now event) :=
    ⟨twins.watchdog, twins.faultless, twins.twinFaultless⟩
  exact written.trans (sent.unseen rfl rfl rfl rfl)

theorem sight?_of_mem_dispatch (delay : Span) (station : Station) (document : Document) :
    (station.observers.dispatch document).entries.filterMap (Entry.sight? delay) = [] := by
  rw [List.filterMap_eq_nil_iff]
  intro entry member
  exact Entry.sight?_of_isReaction delay
    (station.observers.isReaction_of_mem_deliver document _ entry member)

theorem drawn_dispatch (station : Station) (now : Span) (document : Document) :
    Journal.drawn ((Entry.handed document :: (station.observers.dispatch document).entries).map
      fun entry => (now, entry)) = document.drawn?.toList := by
  have alone : Journal.documents ((station.observers.dispatch document).entries.map
      fun entry => (now, entry)) = [] :=
    documents_of_aside now (station.observers.deliver_aside document _)
  have handed : Journal.documents ((Entry.handed document ::
      (station.observers.dispatch document).entries).map fun entry => (now, entry)) = [document] :=
    congrArg (document :: ·) alone
  rw [Journal.drawn, handed]
  cases document <;> rfl

/-- Documents that differ in nothing but drawn uids are handed over, by stations at which no more
has happened since than that their uids were drawn. -/
theorem Twins.hand {drawing twinDrawing : Station} (twins : Twins delay drawing twinDrawing)
    (journal : drawing.journal = station.journal) (twinJournal : twinDrawing.journal = twin.journal)
    (now : Span) {document other : Document} (same : document.undrawn = other.undrawn)
    (drawn : Draws twin twinDrawing other.drawn?.toList) :
    Parallel delay station (drawing.dispatch (now + delay) document).1 twin
      (twinDrawing.dispatch now other).1 := by
  have handed : ∀ (delay : Span) (document : Document), (Entry.handed document).sight? delay =
      some (.handed document.undrawn) := fun _ _ => rfl
  refine ⟨⟨_, _, congrArg (· ++ _) journal, congrArg (· ++ _) twinJournal, ?_, ?_⟩,
    twins.watchdog, (twins.faultless.deliver document _).2, (twins.twinFaultless.deliver other _).2⟩
  · rw [Journal.sights_entries, Journal.sights_entries, List.filterMap_cons_some (handed 0 document),
      List.filterMap_cons_some (handed delay other), sight?_of_mem_dispatch, sight?_of_mem_dispatch,
      same]
    rfl
  · rw [drawn_dispatch]
    exact ⟨drawn.draws, drawn.made, drawn.inOrder⟩

/-- A document for which no uid is drawn is handed over. -/
theorem Twins.dispatch (twins : Twins delay station twin) (now : Span) {document : Document}
    (undrawn : document.drawn? = none) :
    Parallel delay station (station.dispatch (now + delay) document).1 twin
      (twin.dispatch now document).1 := by
  apply twins.hand rfl rfl now rfl
  rw [undrawn]
  exact .none rfl rfl

/-- The next uid of each is drawn for a descriptor, and the descriptor is handed over. -/
theorem Twins.describe (twins : Twins delay station twin) (now : Span) (runUid name : String) :
    Parallel delay station
      (station.makeUid.2.dispatch (now + delay)
        (.descriptor ⟨station.makeUid.1, runUid, name⟩)).1 twin
      (twin.makeUid.2.dispatch now (.descriptor ⟨twin.makeUid.1, runUid, name⟩)).1 := by
  have drawing : Twins delay station.makeUid.2 twin.makeUid.2 :=
    ⟨twins.watchdog, twins.faultless, twins.twinFaultless⟩
  have journal : station.makeUid.2.journal = station.journal := rfl
  have twinJournal : twin.makeUid.2.journal = twin.journal := rfl
  exact drawing.hand journal twinJournal now rfl ⟨rfl, rfl, rfl⟩

theorem Twins.withWatchdog (twins : Twins delay station twin) {watchdog twinWatchdog : Watchdog}
    (same : watchdog = twinWatchdog.delayed delay) :
    Parallel delay station { station with watchdog } twin { twin with watchdog := twinWatchdog } :=
  Twins.unseen ⟨same, twins.faultless, twins.twinFaultless⟩ rfl rfl rfl rfl

theorem Twins.reset (twins : Twins delay station twin) (now : Span) :
    Parallel delay station (station.resetWatchdog (now + delay)) twin (twin.resetWatchdog now) := by
  apply twins.withWatchdog
  rw [twins.watchdog, Watchdog.reset_delayed]

theorem Twins.arm (twins : Twins delay station twin) (now : Span) :
    Parallel delay station (station.armWatchdog (now + delay)) twin (twin.armWatchdog now) := by
  apply twins.withWatchdog
  rw [twins.watchdog]
  rfl

theorem Twins.disarm (twins : Twins delay station twin) :
    Parallel delay station station.disarmWatchdog twin twin.disarmWatchdog := by
  apply twins.withWatchdog
  rw [twins.watchdog]
  rfl

theorem Twins.hasExpired (twins : Twins delay station twin) (now : Span) :
    station.hasExpired (now + delay) = twin.hasExpired now := by
  rw [Station.hasExpired, twins.watchdog, Watchdog.status_delayed]
  rfl

end Station

/-- An action that draws no uid for a run, nor does what it starts beside itself. -/
inductive PlanAction.Explicit : PlanAction → Prop where
  | branch {steps : List PlanStep} (each : ∀ step ∈ steps, Explicit step.1) :
      Explicit (.branch steps)
  | other {action : PlanAction} (alone : ∀ steps, action ≠ .branch steps)
      (named : ∀ activateCallbacks, action ≠ .generateRun activateCallbacks) : Explicit action

/-- Steps that draw no uid for a run. -/
def PlanStep.Explicit (steps : List PlanStep) : Prop := ∀ step ∈ steps, step.1.Explicit

def Course.Explicit (course : Course) : Prop := PlanStep.Explicit course.remaining

namespace PlanContext

/-- Two operations, of which one comes later by a delay, do and answer the same. -/
structure After.Alike (delay : Span) (action : PlanAction) (station twin : Station)
    (after other : After StepResult) : Prop where
  context : after.context = other.context
  stations : Station.Parallel delay station after.station twin other.station
  result : after.result.map (StepResult.sight 0 action) =
    other.result.map (StepResult.sight delay action)
  bus : after.station.bus = station.bus
  twinBus : other.station.bus = twin.bus

section Operations

variable {delay : Span} {station twin : Station} {action : PlanAction}

/-- Operations that are refused alike, or hand over one document, for which no uid is drawn. -/
theorem submit_alike (twins : Station.Twins delay station twin) (context : PlanContext)
    (now : Span) {handover : Except PlanError Handover} {value : StepResult}
    (undrawn : ∀ taken, handover = .ok taken → taken.document.drawn? = none)
    (sameValue : value.sight 0 action = value.sight delay action) :
    After.Alike delay action station twin (context.submit station (now + delay) handover value)
      (context.submit twin now handover value) := by
  cases handover with
  | error error => exact ⟨rfl, twins.parallel, rfl, rfl, rfl⟩
  | ok taken =>
      rw [submit_of_faultless twins.faultless, submit_of_faultless twins.twinFaultless]
      exact ⟨rfl, twins.dispatch now (undrawn taken rfl), congrArg Except.ok sameValue, rfl, rfl⟩

theorem undrawn_of_check {handover taken : Handover} (checked : handover.check = .ok taken)
    (undrawn : handover.document.drawn? = none) : taken.document.drawn? = none := by
  unfold Handover.check at checked
  split at checked
  · exact Except.ok.inj checked ▸ undrawn
  · cases checked

/-- The uid that is drawn for a descriptor makes no difference but in its document. -/
theorem descriptor_alike (twins : Station.Twins delay station twin) (context : PlanContext)
    (now : Span) (runUid name : String) :
    After.Alike delay (.descriptor runUid name) station twin
      (context.act station (now + delay) (.descriptor runUid name))
      (context.act twin now (.descriptor runUid name)) := by
  by_cases isOpen : runUid ∈ context.openRuns
  · have described : ∀ uid, context.describe uid runUid name =
        .ok ⟨context, .descriptor ⟨uid, runUid, name⟩⟩ := fun _ => if_pos isOpen
    have made : ∀ station : Station, station.observers.Faultless →
        station.makeUid.2.observers.Faultless := fun _ faultless => faultless
    simp only [act, described, Except.isOk, Except.toBool, if_true]
    rw [submit_of_faultless (made station twins.faultless),
      submit_of_faultless (made twin twins.twinFaultless)]
    exact ⟨rfl, twins.describe now runUid name, rfl, rfl, rfl⟩
  · have refused : ∀ uid, context.describe uid runUid name =
        .error (.document (.unknownRun runUid)) := fun _ => if_neg isOpen
    simp only [act, refused]
    exact ⟨rfl, twins.parallel, rfl, rfl, rfl⟩

theorem view_alike (twins : Station.Twins delay station twin) (context : PlanContext)
    (now : Span) :
    (StepResult.view (context.view station (now + delay))).sight 0 .view =
      (StepResult.view (context.view twin now)).sight delay .view := by
  simp only [StepResult.sight, view, twins.watchdog, Watchdog.status_delayed]
  simp [Watchdog.delayed, Function.comp_def]

theorem act_alike (twins : Station.Twins delay station twin) (context : PlanContext) (now : Span)
    (explicit : action.Explicit) :
    After.Alike delay action station twin (context.act station (now + delay) action)
      (context.act twin now action) := by
  cases action with
  | openRun run =>
      have undrawn : ∀ taken, context.openRun run = .ok taken → taken.document.drawn? = none :=
        fun taken checked => undrawn_of_check checked rfl
      exact submit_alike twins context now undrawn rfl
  | generateRun activateCallbacks =>
      cases explicit with
      | other alone named => exact absurd rfl (named activateCallbacks)
  | descriptor runUid name => exact descriptor_alike twins context now runUid name
  | event descriptorUid data =>
      have undrawn : ∀ taken, context.emitEvent descriptorUid data = .ok taken →
          taken.document.drawn? = none := fun taken checked => undrawn_of_check checked rfl
      exact submit_alike twins context now undrawn rfl
  | closeRun runUid status =>
      have undrawn : ∀ taken, context.closeRun runUid status = .ok taken →
          taken.document.drawn? = none := by
        intro taken closes
        unfold closeRun at closes
        split at closes
        · cases closes
        · exact Except.ok.inj closes ▸ rfl
      exact submit_alike twins context now undrawn rfl
  | reset => exact ⟨rfl, twins.reset now, rfl, rfl, rfl⟩
  | view =>
      exact ⟨rfl, twins.parallel, congrArg Except.ok (view_alike twins context now), rfl, rfl⟩
  | sleep duration =>
      simp only [act]
      split
      · exact ⟨rfl, twins.parallel, rfl, rfl, rfl⟩
      · exact ⟨rfl, twins.parallel, rfl, rfl, rfl⟩
  | fail | abort | wait | checkpoint | branch => exact ⟨rfl, twins.parallel, rfl, rfl, rfl⟩

end Operations

end PlanContext

/-- Two turns of a course, of which one comes later by a delay, lead to the same. -/
structure Advance.Alike (delay : Span) (station twin : Station) (advance other : Advance) :
    Prop where
  context : advance.context = other.context
  standing : advance.standing = other.standing.delayed delay
  effects : advance.effects = other.effects
  stations : Station.Parallel delay station advance.station twin other.station

theorem Advance.Alike.after {delay : Span} {station middle twin twinMiddle : Station}
    {advance other : Advance} {effects otherEffects : List PlanEffect}
    (first : Station.Parallel delay station middle twin twinMiddle)
    (sameEffects : effects = otherEffects) (alike : Alike delay middle twinMiddle advance other) :
    Alike delay station twin { advance with effects := effects ++ advance.effects }
      { other with effects := otherEffects ++ other.effects } := by
  refine ⟨alike.context, alike.standing, ?_, first.trans alike.stations⟩
  rw [sameEffects, alike.effects]

namespace Course

variable {delay now : Span} {station twin : Station}

theorem pause?_delayed (context : PlanContext) (now delay : Span) (action : PlanAction) :
    pause? context (now + delay) action =
      (pause? context now action).map fun pause => (pause.1.delayed delay, pause.2) := by
  cases action with
  | wait duration =>
      simp only [pause?]
      split
      · rfl
      · simp [Pause.delayed, Nat.add_right_comm]
  | sleep duration =>
      simp only [pause?]
      split
      · rfl
      · simp [Pause.delayed, Nat.add_right_comm]
  | _ => rfl

theorem resume?_delayed (context : PlanContext) (now delay : Span) (pause : Pause) :
    resume? context (now + delay) (pause.delayed delay) = resume? context now pause := by
  cases pause with
  | «until» due | sleeping due =>
      have same : due + delay ≤ now + delay ↔ due ≤ now := Nat.add_le_add_iff_right
      simp only [resume?, Pause.delayed, same]
  | yielding => rfl

theorem record_parallel (twins : Station.Twins delay station twin) (context : PlanContext)
    (now : Span) (branched : Bool) (step : PlanStep) {result other : Except PlanError StepResult}
    (same : result.map (StepResult.sight 0 step.1) = other.map (StepResult.sight delay step.1)) :
    Station.Parallel delay station (record context station (now + delay) branched step result)
      twin (record context twin now branched step other) := by
  apply twins.write now _ rfl
  simp only [Entry.sight?, same]

theorem effects_of_bus {before after : Station} (same : after.bus = before.bus)
    (action : PlanAction) : effects before after action = effects before before action := by
  cases action <;> simp only [effects, same]

theorem effects_self (before other : Station) (action : PlanAction) :
    effects before before action = effects other other action := by
  cases action <;> simp only [effects, if_true]

/-- The steps up to the first that waits or ends the course do the same later. -/
theorem run_alike (twins : Station.Twins delay station twin) (context : PlanContext) (now : Span)
    (branched : Bool) {steps : List PlanStep} (explicit : PlanStep.Explicit steps) :
    Advance.Alike delay station twin (run (now + delay) branched context station steps)
      (run now branched context twin steps) := by
  induction steps generalizing context station twin with
  | nil => exact ⟨rfl, rfl, rfl, twins.parallel⟩
  | cons step rest inductionHypothesis =>
      have later : PlanStep.Explicit rest := fun other member =>
        explicit other (List.mem_cons_of_mem step member)
      simp only [run, pause?_delayed]
      cases pause? context now step.1 with
      | some pause => exact ⟨rfl, rfl, rfl, twins.parallel⟩
      | none =>
          obtain ⟨sameContext, stations, result, bus, twinBus⟩ :=
            PlanContext.act_alike twins context now (explicit step List.mem_cons_self)
          have sameEffects := (effects_of_bus bus step.1).trans
            ((effects_self station twin step.1).trans (effects_of_bus twinBus step.1).symm)
          have recorded := stations.trans (record_parallel stations.twins
            (context.act twin now step.1).context now branched step result)
          have goesOn := Advance.Alike.after recorded sameEffects
            (inductionHypothesis recorded.twins (context.act twin now step.1).context later)
          simp only [sameContext]
          cases answer : (context.act station (now + delay) step.1).result with
          | error error =>
              cases twinAnswer : (context.act twin now step.1).result with
              | ok value => simp [answer, twinAnswer, Except.map] at result
              | error twinError =>
                  obtain rfl : error = twinError := by
                    simpa [answer, twinAnswer, Except.map] using result
                  rw [answer, twinAnswer] at recorded goesOn
                  cases step.2 with
                  | false => exact ⟨rfl, rfl, sameEffects, recorded⟩
                  | true => exact goesOn
          | ok value =>
              cases twinAnswer : (context.act twin now step.1).result with
              | error twinError => simp [answer, twinAnswer, Except.map] at result
              | ok twinValue =>
                  rw [answer, twinAnswer] at goesOn
                  exact goesOn

/-- The end of a pause shows no instant. -/
theorem sight_of_resume? {context : PlanContext} {pause : Pause}
    {result : Except PlanError StepResult} (resumes : resume? context now pause = some result)
    (delay : Span) (action : PlanAction) :
    result.map (StepResult.sight 0 action) = result.map (StepResult.sight delay action) := by
  cases result with
  | error error => rfl
  | ok value =>
      cases value with
      | view view =>
          unfold resume? at resumes
          split at resumes <;> split at resumes <;> simp_all
      | done | uid value => rfl

theorem advance_alike (twins : Station.Twins delay station twin) (context : PlanContext)
    (now : Span) (branched : Bool) {course : Course} (explicit : course.Explicit) :
    Advance.Alike delay station twin
      ((course.delayed delay).advance (now + delay) branched context station)
      (course.advance now branched context twin) := by
  cases course with
  | ready steps => exact run_alike twins context now branched explicit
  | paused pause step rest =>
      simp only [delayed, advance, resume?_delayed]
      cases resumes : resume? context now pause with
      | none => exact ⟨rfl, rfl, rfl, twins.parallel⟩
      | some result =>
          have same := sight_of_resume? resumes delay step.1
          have recorded := record_parallel twins context now branched step same
          have rest := run_alike recorded.twins context now branched explicit
          have goesOn := recorded.trans rest.stations
          dsimp only
          cases result with
          | error error =>
              cases step.2 with
              | false => exact ⟨rfl, rfl, rfl, recorded⟩
              | true => exact ⟨rest.context, rest.standing, rest.effects, goesOn⟩
          | ok value => exact ⟨rest.context, rest.standing, rest.effects, goesOn⟩

/-- What a turn leaves to do, after a pause or beside the plan, draws no uid for a run. -/
structure Advance.Explicit (advance : Advance) : Prop where
  course : ∀ course, advance.standing = .open course → course.Explicit
  spawned : ∀ steps, .branched steps ∈ advance.effects → PlanStep.Explicit steps

theorem explicit_of_mem_pause? {context : PlanContext} {now : Span} {action : PlanAction}
    {pause : Pause} {effects : List PlanEffect}
    (pauses : pause? context now action = some (pause, effects)) (steps : List PlanStep) :
    .branched steps ∉ effects := by
  unfold pause? at pauses
  split at pauses
  · split at pauses <;> cases pauses
    exact List.not_mem_nil
  · split at pauses <;> cases pauses
    simp
  · cases pauses
    simp
  · cases pauses

theorem explicit_of_mem_effects {before after : Station} {action : PlanAction}
    (explicit : action.Explicit) {steps : List PlanStep}
    (spawned : .branched steps ∈ effects before after action) : PlanStep.Explicit steps := by
  unfold effects at spawned
  split at spawned
  · obtain rfl := PlanEffect.branched.inj (List.mem_singleton.mp spawned)
    cases explicit with
    | branch each => exact each
    | other alone named => exact absurd rfl (alone _)
  · split at spawned <;> simp at spawned

theorem run_explicit (context : PlanContext) (station : Station) (now : Span) (branched : Bool)
    {steps : List PlanStep} (explicit : PlanStep.Explicit steps) :
    Advance.Explicit (run now branched context station steps) := by
  have closed : ∀ result course, Standing.ended result = .open course → course.Explicit := by
    intro result course same
    cases same
  induction steps generalizing context station with
  | nil => exact ⟨closed _, fun _ member => absurd member List.not_mem_nil⟩
  | cons step rest inductionHypothesis =>
      have later : PlanStep.Explicit rest := fun other member =>
        explicit other (List.mem_cons_of_mem step member)
      cases pauses : pause? context now step.1 with
      | some waiting =>
          obtain ⟨pause, effects⟩ := waiting
          simp only [run, pauses]
          refine ⟨fun course same => ?_, fun steps member => ?_⟩
          · obtain rfl := Standing.open.inj same
            exact later
          · exact absurd member (explicit_of_mem_pause? pauses steps)
      | none =>
          simp only [run, pauses]
          generalize (context.act station now step.1).result = result
          obtain ⟨course, spawned⟩ := inductionHypothesis (context.act station now step.1).context
            (record (context.act station now step.1).context
              (context.act station now step.1).station now branched step result) later
          have own : ∀ steps, .branched steps ∈ effects station
              (context.act station now step.1).station step.1 → PlanStep.Explicit steps :=
            fun _ => explicit_of_mem_effects (explicit step List.mem_cons_self)
          have both : ∀ steps, .branched steps ∈ effects station
              (context.act station now step.1).station step.1 ++ _ → PlanStep.Explicit steps :=
            fun steps member => (List.mem_append.mp member).elim (own steps) (spawned steps)
          cases result with
          | ok value => exact ⟨course, both⟩
          | error error =>
              cases step.2 with
              | false => exact ⟨closed _, own⟩
              | true => exact ⟨course, both⟩

theorem advance_explicit {course : Course} (explicit : course.Explicit) (now : Span)
    (branched : Bool) (context : PlanContext) (station : Station) :
    Advance.Explicit (course.advance now branched context station) := by
  cases course with
  | ready steps => exact run_explicit context station now branched explicit
  | paused pause step rest =>
      unfold advance
      dsimp only
      split
      · refine ⟨fun course same => ?_, fun _ member => absurd member List.not_mem_nil⟩
        obtain rfl := Standing.open.inj same
        exact explicit
      · split
        · exact ⟨nofun, fun _ member => absurd member List.not_mem_nil⟩
        · exact run_explicit _ _ now branched explicit

end Course

namespace Execution

open PlanContext

/-- Two turns of an execution, of which one comes later by a delay, lead to the same. -/
structure Alike (delay : Span) (station twin : Station) (execution other : Execution) : Prop where
  context : execution.context = other.context
  standing : execution.standing = other.standing.delayed delay
  effects : execution.effects = other.effects
  stations : Station.Parallel delay station execution.station twin other.station

variable {delay now : Span} {station twin : Station}

theorem closings_parallel (twins : Station.Twins delay station twin) (plan : String) (now : Span)
    (closings : List RunStop) :
    Station.Parallel delay station (closings.foldl (handClosing plan (now + delay)) station) twin
      (closings.foldl (handClosing plan now) twin) := by
  induction closings generalizing station twin with
  | nil => exact twins.parallel
  | cons closing rest inductionHypothesis =>
      rw [List.foldl_cons, List.foldl_cons, handClosing_of_faultless twins.faultless,
        handClosing_of_faultless twins.twinFaultless]
      have closed := twins.dispatch now (rfl : (Document.stop closing).drawn? = none)
      exact closed.trans (inductionHypothesis closed.twins)

theorem noteExpiry_alike (twins : Station.Twins delay station twin) (context : PlanContext)
    (now : Span) (error : PlanError) :
    (noteExpiry context station (now + delay) error).1 = (noteExpiry context twin now error).1 ∧
      (noteExpiry context station (now + delay) error).2.2 =
        (noteExpiry context twin now error).2.2 ∧
      Station.Parallel delay station (noteExpiry context station (now + delay) error).2.1 twin
        (noteExpiry context twin now error).2.1 := by
  cases error with
  | watchdogExpired window =>
      have sameWindow : station.watchdog.window = twin.watchdog.window := by
        rw [twins.watchdog]
        rfl
      refine ⟨rfl, rfl, ?_⟩
      simp only [noteExpiry, sameWindow]
      exact twins.publish now _
  | _ => exact ⟨rfl, rfl, twins.parallel⟩

theorem fail_alike (twins : Station.Twins delay station twin) (context : PlanContext)
    (now : Span) (error : PlanError) :
    Alike delay station twin (fail context station (now + delay) error)
      (fail context twin now error) := by
  have disarmed := twins.disarm
  obtain ⟨sameContext, sameEffects, noted⟩ :=
    noteExpiry_alike disarmed.twins context now error
  have closed := closings_parallel noted.twins (noteExpiry context twin.disarmWatchdog now error).1.plan
    now ((noteExpiry context twin.disarmWatchdog now error).1.closingStops (closingStatus error)
      error.message)
  have published := closed.twins.publish now (((Event.ofKind .planFailed).withPlan
    (noteExpiry context twin.disarmWatchdog now error).1.plan).withReason error.message)
  have all := ((disarmed.trans noted).trans closed).trans published
  unfold fail closeOpenRuns
  dsimp only
  rw [sameContext, sameEffects]
  exact ⟨rfl, rfl, rfl, all⟩

theorem conclude_alike (twins : Station.Twins delay station twin) (context : PlanContext)
    (now : Span) (result : Except PlanError Unit) :
    Alike delay station twin (conclude context station (now + delay) result)
      (conclude context twin now result) := by
  cases result with
  | error error => exact fail_alike twins context now error
  | ok value =>
      exact ⟨rfl, rfl, rfl, twins.disarm.trans (twins.disarm.twins.publish now _)⟩

theorem interruption?_delayed (twins : Station.Twins delay station twin) (context : PlanContext)
    (now tick : Span) :
    interruption? context station (now + delay) (tick + delay) =
      interruption? context twin now tick := by
  have sameWindow : station.watchdog.window = twin.watchdog.window := by
    rw [twins.watchdog]
    rfl
  have due : tick + delay ≤ now + delay ↔ tick ≤ now := Nat.add_le_add_iff_right
  simp only [interruption?, twins.hasExpired, sameWindow, due]

/-- The watchdog and the cancellation are looked at. -/
theorem look_alike (twins : Station.Twins delay station twin) (interval : Span) (course : Course)
    (tick : Span) (context : PlanContext) (now : Span) (effects : List PlanEffect) :
    Alike delay station twin
      (match interruption? context station (now + delay) (tick + delay) with
        | some error => fail context station (now + delay) error
        | none => ⟨context, station, effects,
            .running (course.delayed delay) (tickAfter interval (now + delay) (tick + delay))⟩)
      (match interruption? context twin now tick with
        | some error => fail context twin now error
        | none => ⟨context, twin, effects, .running course (tickAfter interval now tick)⟩) := by
  rw [interruption?_delayed twins, tickAfter_delayed]
  split
  · exact fail_alike twins context now _
  · exact ⟨rfl, rfl, rfl, twins.parallel⟩

theorem Alike.after {middle twinMiddle : Station} {execution other : Execution}
    {effects otherEffects : List PlanEffect}
    (first : Station.Parallel delay station middle twin twinMiddle)
    (sameEffects : effects = otherEffects)
    (alike : Alike delay middle twinMiddle execution other) :
    Alike delay station twin { execution with effects := effects ++ execution.effects }
      { other with effects := otherEffects ++ other.effects } := by
  refine ⟨alike.context, alike.standing, ?_, first.trans alike.stations⟩
  rw [sameEffects, alike.effects]

theorem proceed_alike (twins : Station.Twins delay station twin) (interval : Span)
    {course : Course} (explicit : course.Explicit) (tick : Span) (context : PlanContext)
    (now : Span) :
    Alike delay station twin
      (proceed interval (course.delayed delay) (tick + delay) context station (now + delay))
      (proceed interval course tick context twin now) := by
  obtain ⟨sameContext, standing, effects, stations⟩ :=
    Course.advance_alike twins context now false explicit
  unfold proceed
  apply Alike.after stations effects
  rw [standing, sameContext]
  cases (course.advance now false context twin).standing with
  | ended result => exact conclude_alike stations.twins _ now result
  | «open» later => exact look_alike stations.twins interval later tick _ now []

theorem begin_alike (twins : Station.Twins delay station twin) (interval : Span) {plan : Plan}
    (explicit : PlanStep.Explicit plan.steps) (context : PlanContext) (now : Span) :
    Alike delay station twin (begin interval plan context station (now + delay))
      (begin interval plan context twin now) := by
  have armed := twins.arm now
  have started := armed.trans
    (armed.twins.publish now ((Event.ofKind .planStarting).withPlan context.plan))
  have sameWindow := congrArg Watchdog.window started.twins.watchdog
  unfold begin
  dsimp only
  have ready : (Course.ready plan.steps).Explicit := explicit
  have announced : [PlanEffect.published] = [.published] := rfl
  refine Alike.after started announced ?_
  rw [started.twins.hasExpired, sameWindow]
  split
  · exact fail_alike started.twins context now _
  · exact proceed_alike started.twins interval ready now context now

/-- What a turn of an execution leaves to do draws no uid for a run. -/
structure Explicit (execution : Execution) : Prop where
  course : ∀ course tick, execution.standing = .running course tick → course.Explicit
  spawned : ∀ steps, .branched steps ∈ execution.effects → PlanStep.Explicit steps

theorem fail_explicit (context : PlanContext) (station : Station) (now : Span) (error : PlanError) :
    Explicit (fail context station now error) := by
  refine ⟨nofun, fun steps member => ?_⟩
  cases error <;> simp [fail, noteExpiry] at member

theorem conclude_explicit (context : PlanContext) (station : Station) (now : Span)
    (result : Except PlanError Unit) : Explicit (conclude context station now result) := by
  cases result with
  | error error => exact fail_explicit context station now error
  | ok value => exact ⟨nofun, fun steps member => by simp [conclude, succeed] at member⟩

theorem Explicit.after {execution : Execution} (explicit : execution.Explicit)
    {effects : List PlanEffect}
    (spawned : ∀ steps, .branched steps ∈ effects → PlanStep.Explicit steps) :
    Explicit { execution with effects := effects ++ execution.effects } := by
  refine ⟨explicit.course, fun steps member => ?_⟩
  rcases List.mem_append.mp member with first | later
  · exact spawned steps first
  · exact explicit.spawned steps later

theorem proceed_explicit {course : Course} (explicit : course.Explicit) (interval tick : Span)
    (context : PlanContext) (station : Station) (now : Span) :
    Explicit (proceed interval course tick context station now) := by
  obtain ⟨goesOn, spawned⟩ := Course.advance_explicit explicit now false context station
  unfold proceed
  refine Explicit.after ?_ spawned
  split
  · exact conclude_explicit _ _ now _
  · rename_i later stands
    split
    · exact fail_explicit _ _ now _
    · refine ⟨fun course tick same => ?_, fun _ member => absurd member List.not_mem_nil⟩
      obtain ⟨rfl, _⟩ := ExecutionStanding.running.inj same
      exact goesOn later stands

theorem begin_explicit {plan : Plan} (explicit : PlanStep.Explicit plan.steps) (interval : Span)
    (context : PlanContext) (station : Station) (now : Span) :
    Explicit (begin interval plan context station now) := by
  have announced : ∀ steps, .branched steps ∈ [PlanEffect.published] → PlanStep.Explicit steps :=
    fun _ member => by simp at member
  unfold begin
  dsimp only
  have ready : (Course.ready plan.steps).Explicit := explicit
  refine Explicit.after ?_ announced
  split
  · exact fail_explicit context _ now _
  · exact proceed_explicit ready interval now context _ now

end Execution

end PlanSupervision
