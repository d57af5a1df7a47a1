import PlanSupervision.Plan.Context

/-!
Documents of nested runs. The runs that are open are told from the documents alone: a start
opens its run inside all others, and a stop closes the innermost run of its uid.
-/

namespace PlanSupervision

theorem eraseLast?_eq {Element : Type} [DecidableEq Element] (element : Element)
    (list : List Element) :
    eraseLast? element list =
      if element ∈ list then some (list.reverse.erase element).reverse else none := by
  induction list with
  | nil => rfl
  | cons head rest inductionHypothesis =>
      rw [eraseLast?, inductionHypothesis]
      by_cases later : element ∈ rest
      · simp [later, List.erase_append]
      · by_cases here : head = element
        · simp [later, here, List.erase_append]
        · have elsewhere : ¬ element = head := fun same => here same.symm
          simp [later, here, elsewhere]

namespace Document

/-- The runs that are open after a document. -/
def track (openRuns : List String) : Document → List String
  | start run => openRuns ++ [run.runUid]
  | stop closing => (openRuns.reverse.erase closing.runStart).reverse
  | descriptor _ | event _ => openRuns

/-- A document that may be handed over while these runs are open: it carries all its
identifiers, and a run that it describes or closes is one of them. -/
structure Fits (openRuns : List String) (document : Document) : Prop where
  valid : document.validate = .ok ()
  described : ∀ stream, document = .descriptor stream → stream.runUid ∈ openRuns
  closed : ∀ closing, document = .stop closing → closing.runStart ∈ openRuns

/-- Documents each of which may be handed over when its turn comes. -/
def Nested (openRuns : List String) : List Document → Prop
  | [] => True
  | document :: later => document.Fits openRuns ∧ Nested (document.track openRuns) later

def started (documents : List Document) : List String :=
  documents.filterMap fun
    | start run => some run.runUid
    | _ => none

def stopped (documents : List Document) : List String :=
  documents.filterMap fun
    | stop closing => some closing.runStart
    | _ => none

theorem nested_append {openRuns : List String} {earlier later : List Document} :
    Nested openRuns (earlier ++ later) ↔
      Nested openRuns earlier ∧ Nested (earlier.foldl track openRuns) later := by
  induction earlier generalizing openRuns with
  | nil => simp [Nested]
  | cons document rest inductionHypothesis =>
      rw [List.cons_append, Nested, Nested, inductionHypothesis, List.foldl_cons]
      exact and_assoc.symm

/-- Runs that are opened are closed again or are still open at the end. -/
theorem Nested.perm {openRuns : List String} {documents : List Document}
    (nested : Nested openRuns documents) :
    (openRuns ++ started documents).Perm
      (stopped documents ++ documents.foldl track openRuns) := by
  induction documents generalizing openRuns with
  | nil => simp [started, stopped]
  | cons document later inductionHypothesis =>
      obtain ⟨fits, laterNested⟩ := nested
      have after := inductionHypothesis laterNested
      cases document with
      | start run =>
          have moved : openRuns ++ started (start run :: later) =
              openRuns ++ [run.runUid] ++ started later := by
            rw [List.append_assoc]
            rfl
          rw [moved]
          exact after
      | descriptor stream => exact after
      | event reading => exact after
      | stop closing =>
          have member : closing.runStart ∈ openRuns.reverse :=
            List.mem_reverse.mpr (fits.closed closing rfl)
          have removed : openRuns.Perm (closing.runStart :: (stop closing).track openRuns) := by
            have kept := (List.perm_cons_erase member).trans
              ((List.reverse_perm _).symm.cons closing.runStart)
            exact (List.reverse_perm openRuns).symm.trans kept
          have extended := (removed.append_right (started later)).trans
            (after.cons closing.runStart)
          exact extended

theorem Fits.track_nonempty {openRuns : List String} {document : Document}
    (fits : document.Fits openRuns) (nonempty : ∀ runUid ∈ openRuns, runUid.isEmpty = false) :
    ∀ runUid ∈ document.track openRuns, runUid.isEmpty = false := by
  intro runUid member
  cases document with
  | start run =>
      rcases List.mem_append.mp member with old | new
      · exact nonempty runUid old
      · obtain rfl := List.mem_singleton.mp new
        have valid := fits.valid
        cases empty : run.runUid.isEmpty with
        | false => rfl
        | true => simp [validate, identifiers, empty] at valid
  | stop closing =>
      have old := List.mem_of_mem_erase (List.mem_reverse.mp member)
      exact nonempty runUid (List.mem_reverse.mp old)
  | descriptor stream => exact nonempty runUid member
  | event reading => exact nonempty runUid member

theorem Nested.foldl_nonempty {openRuns : List String} {documents : List Document}
    (nested : Nested openRuns documents)
    (nonempty : ∀ runUid ∈ openRuns, runUid.isEmpty = false) :
    ∀ runUid ∈ documents.foldl track openRuns, runUid.isEmpty = false := by
  induction documents generalizing openRuns with
  | nil => exact nonempty
  | cons document later inductionHypothesis =>
      exact inductionHypothesis nested.2 (nested.1.track_nonempty nonempty)

/-- Stops in the reverse order of the runs that are open close all of them. -/
theorem nested_closing (openRuns : List String) (exitStatus : ExitStatus)
    (reason : Option String) (nonempty : ∀ runUid ∈ openRuns, runUid.isEmpty = false) :
    let stops := openRuns.reverse.map fun runUid => stop ⟨runUid, exitStatus, reason⟩
    Nested openRuns stops ∧ stops.foldl track openRuns = [] := by
  intro stops
  induction stack : openRuns.reverse generalizing openRuns with
  | nil =>
      have noRuns : openRuns = [] := List.reverse_eq_nil_iff.mp stack
      simp [stops, noRuns, Nested]
  | cons runUid rest inductionHypothesis =>
      have outer : openRuns = rest.reverse ++ [runUid] := by
        rw [← List.reverse_reverse openRuns, stack, List.reverse_cons]
      have present : runUid.isEmpty = false := nonempty runUid (by simp [outer])
      have closes : (stop ⟨runUid, exitStatus, reason⟩).track openRuns = rest.reverse := by
        simp [track, stack]
      obtain ⟨nestedRest, noneLeft⟩ := inductionHypothesis rest.reverse
        (fun uid member => nonempty uid (by simp [outer, List.mem_reverse.mp member]))
        (List.reverse_reverse rest)
      have first : stops = stop ⟨runUid, exitStatus, reason⟩ ::
          rest.reverse.reverse.map fun runUid => stop ⟨runUid, exitStatus, reason⟩ := by
        simp only [stops, stack, List.map_cons, List.reverse_reverse]
      have fits : (stop ⟨runUid, exitStatus, reason⟩).Fits openRuns := by
        refine ⟨?_, ?_, ?_⟩
        · simp [validate, identifiers, present]
        · simp
        · rintro closing ⟨rfl⟩
          simp [outer]
      rw [first]
      refine ⟨⟨fits, ?_⟩, ?_⟩
      · rw [closes]
        exact nestedRest
      · rw [List.foldl_cons, closes]
        exact noneLeft

end Document

end PlanSupervision
