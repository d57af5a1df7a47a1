import PlanSupervision.Listener

/-!
Brackets in a stream of documents. A bracket opens with the start of a run that activates a
handler and closes with the first stop of that run; starts in between open no other one.
-/

namespace PlanSupervision

/-- A run activates a handler that it lists, and without a list every handler whose key, if
it has one, is the name of the run. -/
def RunStart.Activates (run : RunStart) (name : String) (runKey : Option String) : Prop :=
  (∃ names, run.activateCallbacks = some names ∧ names ≠ [] ∧ name ∈ names) ∨
    (run.activateCallbacks = none ∨ run.activateCallbacks = some []) ∧
      (runKey = none ∨ ∃ key, runKey = some key ∧ run.runName = some key)

def Quiet (name : String) (runKey : Option String) (documents : List Document) : Prop :=
  ∀ run, .start run ∈ documents → ¬ run.Activates name runKey

def Unstopped (runUid : String) (documents : List Document) : Prop :=
  ∀ closing, .stop closing ∈ documents → closing.runStart ≠ runUid

/-- Documents with the brackets in them, and the run of the last one if it is not closed. -/
inductive Bracketed (name : String) (runKey : Option String) :
    List Document → List (List Document) → Option String → Prop where
  | outside {documents : List Document} (quiet : Quiet name runKey documents) :
      Bracketed name runKey documents [] none
  | unclosed {before middle : List Document} {run : RunStart}
      (quiet : Quiet name runKey before) (opens : run.Activates name runKey)
      (unstopped : Unstopped run.runUid middle) :
      Bracketed name runKey (before ++ .start run :: middle) [.start run :: middle]
        (some run.runUid)
  | closed {before middle later : List Document} {run : RunStart} {closing : RunStop}
      {brackets : List (List Document)} {last : Option String}
      (quiet : Quiet name runKey before) (opens : run.Activates name runKey)
      (unstopped : Unstopped run.runUid middle) (closes : closing.runStart = run.runUid)
      (rest : Bracketed name runKey later brackets last) :
      Bracketed name runKey (before ++ .start run :: (middle ++ .stop closing :: later))
        ((.start run :: (middle ++ [.stop closing])) :: brackets) last

namespace Gate

theorem wouldActivate_iff (gate : Gate) (run : RunStart) :
    gate.wouldActivate run = true ↔ run.Activates gate.name gate.runKey := by
  unfold wouldActivate RunStart.Activates RunStart.activates
  cases listed : run.activateCallbacks with
  | none =>
      cases key : gate.runKey with
      | none => simp
      | some key => simp
  | some names =>
      cases names with
      | nil =>
          cases key : gate.runKey with
          | none => simp
          | some key => simp
      | cons first others => simp

/-- The documents that pass a gate, and the gate after all of them. -/
def pass (gate : Gate) : List Document → Gate × List Document
  | [] => (gate, [])
  | document :: later =>
      let received := gate.receive document
      let rest := received.1.pass later
      (rest.1, if received.2 then document :: rest.2 else rest.2)

theorem pass_append (gate : Gate) (earlier later : List Document) :
    gate.pass (earlier ++ later) =
      (((gate.pass earlier).1.pass later).1,
        (gate.pass earlier).2 ++ ((gate.pass earlier).1.pass later).2) := by
  induction earlier generalizing gate with
  | nil => rfl
  | cons document rest inductionHypothesis =>
      rw [List.cons_append, pass, pass, inductionHypothesis]
      cases (gate.receive document).2 <;> simp

variable {name : String} {runKey : Option String} {run : RunStart} {documents : List Document}

def opened (name : String) (runKey : Option String) (runUid : String) : Gate :=
  ⟨name, runKey, true, some runUid⟩

theorem receive_start (opens : run.Activates name runKey) :
    (closed name runKey).receive (.start run) = (opened name runKey run.runUid, true) := by
  have activates : (⟨name, runKey, false, none⟩ : Gate).wouldActivate run = true :=
    (wouldActivate_iff _ run).mpr opens
  simp [receive, onStart, activates, isActive, closed, opened]

theorem pass_of_quiet (quiet : Quiet name runKey documents) :
    (closed name runKey).pass documents = (closed name runKey, []) := by
  induction documents with
  | nil => rfl
  | cons document later inductionHypothesis =>
      have rest := inductionHypothesis fun run member => quiet run (List.mem_cons_of_mem _ member)
      have stays : (closed name runKey).receive document = (closed name runKey, false) := by
        cases document with
        | start run =>
            have inactive : ¬ (⟨name, runKey, false, none⟩ : Gate).wouldActivate run = true := by
              rw [wouldActivate_iff]
              exact quiet run List.mem_cons_self
            simp [receive, onStart, inactive, isActive, closed]
        | stop closing => simp [receive, onStop, isActive, closed]
        | descriptor stream => rfl
        | event reading => rfl
      rw [pass, stays]
      simp [rest]

theorem pass_of_unstopped {runUid : String} (unstopped : Unstopped runUid documents) :
    (opened name runKey runUid).pass documents = (opened name runKey runUid, documents) := by
  induction documents with
  | nil => rfl
  | cons document later inductionHypothesis =>
      have rest := inductionHypothesis fun closing member =>
        unstopped closing (List.mem_cons_of_mem _ member)
      have stays : (opened name runKey runUid).receive document =
          (opened name runKey runUid, true) := by
        cases document with
        | start run => simp [receive, onStart, isActive, opened]
        | stop closing =>
            have other : ¬ runUid = closing.runStart := fun same =>
              unstopped closing List.mem_cons_self same.symm
            simp [receive, onStop, isActive, opened, other]
        | descriptor stream => rfl
        | event reading => rfl
      rw [pass, stays]
      simp [rest]

theorem receive_stop {closing : RunStop} {runUid : String} (closes : closing.runStart = runUid) :
    (opened name runKey runUid).receive (.stop closing) = (closed name runKey, true) := by
  simp [receive, onStop, isActive, opened, closed, closes]

/-- The documents that pass a gate are those in its brackets. -/
theorem pass_of_bracketed {brackets : List (List Document)} {last : Option String}
    (bracketed : Bracketed name runKey documents brackets last) :
    (closed name runKey).pass documents =
      (⟨name, runKey, last.isSome, last⟩, brackets.flatten) := by
  induction bracketed with
  | outside quiet => exact pass_of_quiet quiet
  | unclosed quiet opens unstopped =>
      rw [pass_append, pass_of_quiet quiet, pass, receive_start opens]
      simp only [pass_of_unstopped unstopped]
      simp [opened]
  | closed quiet opens unstopped closes rest inductionHypothesis =>
      rw [pass_append, pass_of_quiet quiet, pass, receive_start opens]
      simp only [pass_append, pass_of_unstopped unstopped, pass, receive_stop closes,
        inductionHypothesis]
      simp

end Gate

def Document.opens (name : String) (runKey : Option String) : Document → Bool
  | start run => (Gate.closed name runKey).wouldActivate run
  | descriptor _ | event _ | stop _ => false

def Document.closes (runUid : String) : Document → Bool
  | stop closing => closing.runStart == runUid
  | start _ | descriptor _ | event _ => false

theorem exists_bracketed (name : String) (runKey : Option String) (documents : List Document) :
    ∃ brackets last, Bracketed name runKey documents brackets last := by
  induction size : documents.length using Nat.strongRecOn generalizing documents with
  | ind size inductionHypothesis =>
      subst size
      have quiet : ∀ {before : List Document},
          (∀ document ∈ before, (!document.opens name runKey) = true) →
          Quiet name runKey before := by
        intro before closed run member activates
        have opens := (Gate.wouldActivate_iff (.closed name runKey) run).mpr activates
        have shut := closed _ member
        simp [Document.opens, opens] at shut
      cases first : documents.find? (Document.opens name runKey) with
      | none =>
          refine ⟨[], none, .outside (quiet ?_)⟩
          intro document member
          simpa using List.find?_eq_none.mp first document member
      | some opening =>
          obtain ⟨opens, before, rest, rfl, closed⟩ := List.find?_eq_some_iff_append.mp first
          cases opening with
          | descriptor | event | stop => cases opens
          | start run =>
              have activates := (Gate.wouldActivate_iff _ run).mp opens
              cases stop : rest.find? (Document.closes run.runUid) with
              | none =>
                  refine ⟨_, _, .unclosed (quiet closed) activates ?_⟩
                  intro closing member same
                  have other := List.find?_eq_none.mp stop _ member
                  simp [Document.closes, same] at other
              | some ending =>
                  obtain ⟨closes, middle, later, rfl, stillOpen⟩ :=
                    List.find?_eq_some_iff_append.mp stop
                  cases ending with
                  | start | descriptor | event => cases closes
                  | stop closing =>
                      have shorter : later.length <
                          (before ++ .start run :: (middle ++ .stop closing :: later)).length := by
                        simp
                        omega
                      obtain ⟨brackets, last, bracketed⟩ :=
                        inductionHypothesis _ shorter later rfl
                      have same : closing.runStart = run.runUid := by
                        simpa [Document.closes] using closes
                      refine ⟨_, _, .closed (quiet closed) activates ?_ same bracketed⟩
                      intro other member equal
                      have unequal := stillOpen _ member
                      simp [Document.closes, equal] at unequal

namespace Listener

/-- A listener after it was given documents, and those that its handler was called with. -/
def handle (listener : Listener) : List Document → Listener × List Document
  | [] => (listener, [])
  | document :: later =>
      let reaction := listener.receive document
      let rest := reaction.listener.handle later
      (rest.1, if reaction.handled then document :: rest.2 else rest.2)

theorem handle_gated (gate : Gate) (silent : Bool) (calls : Nat) (verdict : Verdict)
    (documents : List Document) :
    (gated gate silent calls verdict).handle documents =
      (gated (gate.pass documents).1 silent (calls + (gate.pass documents).2.length) verdict,
        (gate.pass documents).2) := by
  induction documents generalizing gate calls with
  | nil => rfl
  | cons document later inductionHypothesis =>
      cases passes : (gate.receive document).2 with
      | true =>
          simp [handle, receive, Gate.pass, passes, inductionHypothesis, Nat.add_assoc,
            Nat.add_comm 1]
      | false => simp [handle, receive, Gate.pass, passes, inductionHypothesis]

/-- A handler behind a gate is called with the documents in the brackets of the stream and
with no others. The gate is open afterwards if the last bracket is, for the run that opened
it. None of this depends on what the handler answers. -/
theorem handle_eq_brackets (name : String) (runKey : Option String) (documents : List Document) :
    (∃ brackets last, Bracketed name runKey documents brackets last) ∧
      ∀ brackets last, Bracketed name runKey documents brackets last →
        ∀ silent calls verdict,
          (gated (.closed name runKey) silent calls verdict).handle documents =
            (gated ⟨name, runKey, last.isSome, last⟩ silent (calls + brackets.flatten.length)
              verdict, brackets.flatten) := by
  refine ⟨exists_bracketed name runKey documents, ?_⟩
  intro brackets last bracketed silent calls verdict
  rw [handle_gated, Gate.pass_of_bracketed bracketed]

end Listener

end PlanSupervision
