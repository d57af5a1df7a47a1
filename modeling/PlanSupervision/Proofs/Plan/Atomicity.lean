import PlanSupervision.Proofs.Plan.Operation

/-!
The operations of a plan's context are all or nothing. One that is refused leaves no trace; any
other hands over one document and leaves the same runs open whether or not an observer fails on
it, and only such a failure is published.
-/

namespace PlanSupervision

namespace PlanAction

/-- The call is refused while these runs are open: an identifier is empty, or a run is not among
them. -/
inductive Refused (openRuns : List String) : PlanAction → DocumentError → Prop where
  | openRun {run : RunStart} (empty : run.runUid = "") :
      Refused openRuns (.openRun run) (.emptyField ⟨.start, "run_uid"⟩)
  | descriptor {runUid : String} (name : String) (unknown : runUid ∉ openRuns) :
      Refused openRuns (.descriptor runUid name) (.unknownRun runUid)
  | event {descriptorUid : String} (data : Table Json) (empty : descriptorUid = "") :
      Refused openRuns (.event descriptorUid data) (.emptyField ⟨.event, "descriptor_uid"⟩)
  | closeRun {runUid : String} (status : ExitStatus) (unknown : runUid ∉ openRuns) :
      Refused openRuns (.closeRun runUid status) (.unknownRun runUid)

/-- What a call asks for while these runs are open: the document that is handed over, the runs
that are open then, and the answer if no observer fails. A new identifier would be `uid`. -/
inductive Asks (openRuns : List String) (uid : String) :
    PlanAction → Document → List String → StepResult → Prop where
  | openRun (run : RunStart) :
      Asks openRuns uid (.openRun run) (.start run) (openRuns ++ [run.runUid]) (.uid run.runUid)
  | generateRun (names : Option (List String)) :
      Asks openRuns uid (.generateRun names)
        (.start { RunStart.ofUid uid with activateCallbacks := names }) (openRuns ++ [uid])
        (.uid uid)
  | descriptor (runUid name : String) :
      Asks openRuns uid (.descriptor runUid name) (.descriptor ⟨uid, runUid, name⟩) openRuns
        (.uid uid)
  | event (descriptorUid : String) (data : Table Json) :
      Asks openRuns uid (.event descriptorUid data) (.event ⟨descriptorUid, data⟩) openRuns .done
  /-- Of the runs of this uid the innermost is closed. -/
  | closeRun {runUid : String} (status : ExitStatus) {outer inner : List String}
      (stack : openRuns = outer ++ runUid :: inner) (innermost : runUid ∉ inner) :
      Asks openRuns uid (.closeRun runUid status) (.stop ⟨runUid, status, none⟩) (outer ++ inner)
        .done

/-- The calls that use a new identifier. -/
def generates : PlanAction → Bool
  | generateRun _ | descriptor _ _ => true
  | _ => false

end PlanAction

theorem eraseLast?_innermost {Element : Type} [DecidableEq Element] {element : Element}
    (outer : List Element) {inner : List Element} (innermost : element ∉ inner) :
    eraseLast? element (outer ++ element :: inner) = some (outer ++ inner) := by
  have reversed : (outer ++ element :: inner).reverse =
      inner.reverse ++ element :: outer.reverse := by simp
  rw [eraseLast?_eq, if_pos (List.mem_append_right _ List.mem_cons_self), reversed,
    List.erase_append_right _ (by simpa using innermost), List.erase_cons_head]
  simp

theorem exists_innermost {Element : Type} {element : Element} {list : List Element}
    (member : element ∈ list) :
    ∃ outer inner, list = outer ++ element :: inner ∧ element ∉ inner := by
  obtain ⟨later, earlier, reversed, innermost⟩ :=
    List.eq_append_cons_of_mem (List.mem_reverse.mpr member)
  refine ⟨earlier.reverse, later.reverse, ?_, by simpa using innermost⟩
  simpa using congrArg List.reverse reversed

namespace PlanContext

/-- One document was handed over, and these runs are open afterwards whatever the observers
answered. If one of them failed, that is published and returned; else nothing is published. -/
structure HandsOver (context : PlanContext) (station : Station) (document : Document)
    (openRuns : List String) (value : StepResult) (after : After StepResult) : Prop where
  left : after.context = { context with openRuns }
  handed : station.handedUntil after.station = [document]
  observers : after.station.observers = (station.observers.dispatch document).observers
  answer : match (station.observers.dispatch document).outcome with
    | .ok () => after.station.bus = station.bus ∧ after.result = .ok value
    | .error fault =>
        after.station.bus = station.bus.send
            (((Event.ofKind .listenerFault).withPlan context.plan).withReason fault.message) ∧
          after.result = .error (.dispatch fault)

theorem HandsOver.result_of_fault {context : PlanContext} {station : Station}
    {document : Document} {openRuns : List String} {value : StepResult} {after : After StepResult}
    (hands : context.HandsOver station document openRuns value after) {fault : DispatchFault}
    (fails : (station.observers.dispatch document).outcome = .error fault) :
    after.result = .error (.dispatch fault) := by
  have answer := hands.answer
  rw [fails] at answer
  exact answer.2

variable (context : PlanContext) (station : Station) (now : Span)

theorem submit_handsOver (document : Document) (openRuns : List String) (value : StepResult) :
    let after := context.submit station now (.ok ⟨{ context with openRuns }, document⟩) value
    context.HandsOver station document openRuns value after ∧
      after.station.madeUids = station.madeUids := by
  intro after
  have handed := station.writes_dispatch now document
  cases outcome : (station.observers.dispatch document).outcome with
  | ok _ =>
      have same : after = ⟨{ context with openRuns }, (station.dispatch now document).1,
          .ok value⟩ := by
        simp only [after, submit, Station.dispatch, outcome]
      rw [same]
      refine ⟨⟨rfl, handed.handedUntil_eq, rfl, ?_⟩, rfl⟩
      rw [outcome]
      exact ⟨rfl, rfl⟩
  | error fault =>
      have same : after = ⟨{ context with openRuns },
          (station.dispatch now document).1.publish now (faultEvent context.plan fault),
          .error (.dispatch fault)⟩ := by
        simp only [after, submit, Station.dispatch, outcome]
      have published := handed.trans (Station.writes_publish _ now (faultEvent context.plan fault))
      rw [same]
      refine ⟨⟨rfl, published.handedUntil_eq, rfl, ?_⟩, rfl⟩
      rw [outcome]
      exact ⟨rfl, rfl⟩

theorem act_of_refused {action : PlanAction} {error : DocumentError}
    (refused : action.Refused context.openRuns error) :
    context.act station now action = ⟨context, station, .error (.document error)⟩ := by
  cases refused with
  | openRun empty =>
      simp [act, openRun, Handover.check, Document.validate, Document.identifiers, empty, submit,
        Document.kind]
  | descriptor name unknown => simp [act, describe, unknown, submit, Except.isOk, Except.toBool]
  | event data empty =>
      simp [act, emitEvent, Handover.check, Document.validate, Document.identifiers, empty, submit,
        Document.kind]
  | closeRun status unknown => simp [act, closeRun, eraseLast?_eq, unknown, submit]

theorem check_of_valid {handover : Handover} (valid : handover.document.validate = .ok ()) :
    handover.check = .ok handover := by
  rw [Handover.check, valid]

/-- Making an identifier changes nothing that a call is told by. -/
theorem HandsOver.of_makeUid {context : PlanContext} {station : Station} {document : Document}
    {openRuns : List String} {value : StepResult} {after : After StepResult}
    (hands : context.HandsOver station.makeUid.2 document openRuns value after) :
    context.HandsOver station document openRuns value after :=
  ⟨hands.left, hands.handed, hands.observers, hands.answer⟩

/-- Any other call does what it asks for. -/
theorem act_of_not_refused {action : PlanAction} (isCall : action.isCall = true)
    (accepted : ∀ error, ¬ action.Refused context.openRuns error) :
    ∃ document openRuns value,
      action.Asks context.openRuns station.makeUid.1 document openRuns value ∧
        let after := context.act station now action
        context.HandsOver station document openRuns value after ∧
          after.station.madeUids = station.madeUids + (if action.generates then 1 else 0) := by
  cases action with
  | openRun run =>
      have named : run.runUid ≠ "" := fun empty => accepted _ (.openRun empty)
      have opened : context.openRun run =
          .ok ⟨{ context with openRuns := context.openRuns ++ [run.runUid] }, .start run⟩ :=
        check_of_valid (by simp [Document.validate, Document.identifiers, named])
      refine ⟨_, _, _, .openRun run, ?_⟩
      simp only [act, opened]
      exact context.submit_handsOver station now _ _ _
  | generateRun names =>
      have named := station.makeUid_nonempty
      have opened : context.openRun
            { RunStart.ofUid station.makeUid.1 with activateCallbacks := names } =
          .ok ⟨{ context with openRuns := context.openRuns ++ [station.makeUid.1] },
            .start { RunStart.ofUid station.makeUid.1 with activateCallbacks := names }⟩ :=
        check_of_valid (by
          simp only [Document.validate, Document.identifiers, RunStart.ofUid, List.find?, named])
      refine ⟨_, _, _, .generateRun names, ?_⟩
      simp only [act, opened]
      obtain ⟨hands, made⟩ := context.submit_handsOver station.makeUid.2 now
        (.start { RunStart.ofUid station.makeUid.1 with activateCallbacks := names })
        (context.openRuns ++ [station.makeUid.1]) (.uid station.makeUid.1)
      exact ⟨hands.of_makeUid, made⟩
  | descriptor runUid name =>
      have isOpen : runUid ∈ context.openRuns :=
        Decidable.byContradiction fun unknown => accepted _ (.descriptor name unknown)
      have described : context.describe station.makeUid.1 runUid name =
          .ok ⟨context, .descriptor ⟨station.makeUid.1, runUid, name⟩⟩ := if_pos isOpen
      refine ⟨_, _, _, .descriptor runUid name, ?_⟩
      simp only [act, described]
      obtain ⟨hands, made⟩ := context.submit_handsOver station.makeUid.2 now
        (.descriptor ⟨station.makeUid.1, runUid, name⟩) context.openRuns (.uid station.makeUid.1)
      exact ⟨hands.of_makeUid, made⟩
  | event descriptorUid data =>
      have named : descriptorUid ≠ "" := fun empty => accepted _ (.event data empty)
      have emitted : context.emitEvent descriptorUid data =
          .ok ⟨context, .event ⟨descriptorUid, data⟩⟩ :=
        check_of_valid (by simp [Document.validate, Document.identifiers, named])
      refine ⟨_, _, _, .event descriptorUid data, ?_⟩
      simp only [act, emitted]
      exact context.submit_handsOver station now _ context.openRuns _
  | closeRun runUid status =>
      have isOpen : runUid ∈ context.openRuns :=
        Decidable.byContradiction fun unknown => accepted _ (.closeRun status unknown)
      obtain ⟨outer, inner, stack, innermost⟩ := exists_innermost isOpen
      have closed : context.closeRun runUid status =
          .ok ⟨{ context with openRuns := outer ++ inner }, .stop ⟨runUid, status, none⟩⟩ := by
        rw [closeRun, stack, eraseLast?_innermost outer innermost]
      refine ⟨_, _, _, .closeRun status stack innermost, ?_⟩
      simp only [act, closed]
      exact context.submit_handsOver station now _ _ _
  | _ => cases isCall

end PlanContext

namespace Operation

open PlanContext

/-- Whatever operations led to the runs that are open: a call that is refused has no effect but
its error. Any other call hands over one document, which carries all its identifiers and fits
the runs that are open; whether or not an observer fails on it, the call changes the runs that
are open in the same way and makes the same identifiers. -/
theorem refused_or_handed_once {earlier : List Operation} (chained : Chained [] earlier)
    (operation : Operation) (continues : operation.context.openRuns = openAfter [] earlier)
    (isCall : operation.action.isCall = true) :
    let ⟨context, station, _, action⟩ := operation
    let after := operation.after
    (∀ error, action.Refused context.openRuns error →
        after = ⟨context, station, .error (.document error)⟩) ∧
      ((∀ error, ¬ action.Refused context.openRuns error) →
        ∃ document openRuns value,
          action.Asks context.openRuns station.makeUid.1 document openRuns value ∧
            document.Fits context.openRuns ∧
            context.HandsOver station document openRuns value after ∧
            after.station.madeUids =
              station.madeUids + (if action.generates then 1 else 0)) := by
  have named : Named operation.context.openRuns := by
    obtain ⟨nested, same⟩ := chained.account fun _ member => nomatch member
    rw [continues, same]
    exact nested.foldl_nonempty fun _ member => nomatch member
  have accounted := operation.accounted named
  obtain ⟨context, station, now, action⟩ := operation
  refine ⟨fun error refused => context.act_of_refused station now refused, fun accepted => ?_⟩
  obtain ⟨document, openRuns, value, asks, hands, made⟩ :=
    context.act_of_not_refused station now isCall accepted
  have nested := accounted.nested
  have documents : Operation.documents ⟨context, station, now, action⟩ = [document] := hands.handed
  rw [documents] at nested
  exact ⟨document, openRuns, value, asks, nested.1, hands, made⟩

/-- An observer that fails on every document keeps no run from being opened or closed. Of two
runs of one uid the inner one is closed. -/
theorem closed_once_under_fault :
    let observer : Listener := .plain "writer" 0 (fun _ _ => []) fun _ _ => some "disk full"
    let station : Station :=
      ⟨.ofUnnumbered [observer], .ofCapacity 8, .ofWindow 0, .counted, 0, []⟩
    let first : Operation := ⟨⟨"scan", [], false⟩, station, 0, .openRun (.ofUid "r")⟩
    let second : Operation := ⟨first.after.context, first.after.station, 1, .openRun (.ofUid "s")⟩
    let third : Operation := ⟨second.after.context, second.after.station, 2, .openRun (.ofUid "r")⟩
    let closing : Operation :=
      ⟨third.after.context, third.after.station, 3, .closeRun "r" .success⟩
    Chained [] [first, second, third] ∧
      closing.context.openRuns = openAfter [] [first, second, third] ∧
      closing.action.isCall = true ∧
      closing.context.openRuns = ["r", "s", "r"] ∧
      closing.after.context.openRuns = ["r", "s"] ∧
      closing.documents = [.stop ⟨"r", .success, none⟩] ∧
      closing.after.result = .error (.dispatch ⟨"writer", .stop, "disk full"⟩) := by
  intro observer station first second third closing
  have chained : Chained [] [first, second, third] := ⟨rfl, rfl, rfl, trivial⟩
  have stack : closing.context.openRuns = ["r", "s", "r"] := rfl
  have accepted : ∀ error, ¬ closing.action.Refused closing.context.openRuns error := by
    rintro error ⟨⟩
    simp_all
  obtain ⟨document, openRuns, value, asks, _, hands, _⟩ :=
    (refused_or_handed_once chained closing rfl rfl).2 accepted
  cases asks with
  | @closeRun _ _ outer inner split innermost =>
      have erased := eraseLast?_innermost outer innermost
      rw [← split] at erased
      have left : ["r", "s"] = outer ++ inner := Option.some.inj erased
      have fails : (closing.station.observers.dispatch (.stop ⟨"r", .success, none⟩)).outcome =
          .error ⟨"writer", .stop, "disk full"⟩ := by rfl
      have result := hands.result_of_fault fails
      refine ⟨chained, rfl, rfl, stack, ?_, hands.handed, result⟩
      rw [hands.left, ← left]

end Operation

end PlanSupervision
