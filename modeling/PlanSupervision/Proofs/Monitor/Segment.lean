import PlanSupervision.Monitor.Basic

/-!
Segments of a scope, and the escalations that are due in them. A segment lasts while the
classification stays the same; what is due in it depends on its start and its end alone.
-/

namespace PlanSupervision.Monitor

/-- A stretch of a scope, from `start` to before `finish`, with one classification in force. -/
structure Segment where
  waiting : Bool
  start : Span
  finish : Span
deriving DecidableEq

/-- The instants one timeout after the start, two timeouts after it and so on, as far as they
lie before the finish. -/
def beats (timeout start finish : Span) : List Span :=
  ((List.range finish).map fun count => start + (count + 1) * timeout).filter (· < finish)

theorem beats_eq_nil {timeout start finish : Span} (short : finish ≤ start + timeout) :
    beats timeout start finish = [] := by
  simp only [beats, List.filter_eq_nil_iff, List.mem_map, forall_exists_index, and_imp]
  rintro beat count _ rfl
  have whole : timeout ≤ (count + 1) * timeout := Nat.le_mul_of_pos_left _ (Nat.succ_pos count)
  simp only [decide_eq_true_eq, Nat.not_lt]
  exact Nat.le_trans short (Nat.add_le_add_left whole start)

theorem beats_succ {timeout start finish : Span}
    (beyond : ¬ start + (finish + 1) * timeout < finish + 1) :
    beats timeout start (finish + 1) =
      ((List.range finish).map fun count => start + (count + 1) * timeout).filter
        (· < finish + 1) := by
  have dropped : [start + (finish + 1) * timeout].filter (· < finish + 1) = [] := by
    rw [List.filter_cons_of_neg (by rw [decide_eq_true_eq]; exact beyond)]
    rfl
  rw [beats, List.range_succ, List.map_append, List.filter_append, List.map_singleton, dropped,
    List.append_nil]

theorem beats_eq_cons {timeout start finish : Span} (positive : 0 < timeout)
    (long : start + timeout < finish) :
    beats timeout start finish = (start + timeout) :: beats timeout (start + timeout) finish := by
  obtain ⟨rest, rfl⟩ : ∃ rest, finish = rest + 1 := ⟨finish - 1, by lia⟩
  have shifted : ((List.range rest).map fun count => start + (count + 1 + 1) * timeout) =
      (List.range rest).map fun count => start + timeout + (count + 1) * timeout := by
    apply List.map_congr_left
    intro count _
    rw [Nat.succ_mul (count + 1)]
    lia
  have beyond : ¬ start + timeout + (rest + 1) * timeout < rest + 1 := by
    have whole : rest + 1 ≤ (rest + 1) * timeout := Nat.le_mul_of_pos_right _ positive
    lia
  have first : start + (0 + 1) * timeout = start + timeout := by
    rw [Nat.zero_add, Nat.one_mul]
  rw [beats_succ beyond, beats, List.range_succ_eq_map, List.map_cons, List.map_map, first]
  rw [List.filter_cons_of_pos (by rw [decide_eq_true_eq]; exact long), ← shifted]
  rfl

/-- One more instant makes room for a beat only if it is one itself. -/
theorem beats_succ_of_off {timeout start left : Span} (positive : 0 < timeout)
    (off : ∀ count : Nat, left ≠ start + (count + 1) * timeout) :
    beats timeout start (left + 1) = beats timeout start left := by
  have beyond : ¬ start + (left + 1) * timeout < left + 1 := by
    have whole : left + 1 ≤ (left + 1) * timeout := Nat.le_mul_of_pos_right _ positive
    lia
  rw [beats_succ beyond, beats]
  apply List.filter_congr
  intro beat member
  obtain ⟨count, _, rfl⟩ := List.mem_map.mp member
  have elsewhere := off count
  have same : start + (count + 1) * timeout < left + 1 ↔ start + (count + 1) * timeout < left := by
    lia
  rw [decide_eq_decide]
  exact same

namespace Segment

/-- The escalations of a segment of the scope that was entered at an instant: of a waiting
task one at each beat, of a task that does not wait a single one. -/
def escalations (timeout entered : Span) : Segment → List (Span × Escalation)
  | ⟨true, start, finish⟩ =>
      (beats timeout start finish).map fun instant => (instant, .waiting (instant - entered))
  | ⟨false, start, finish⟩ =>
      if start + timeout < finish then [(start + timeout, .stuck)] else []

/-- A timer of the segment runs out at the very instant at which the segment ends. -/
def EndsOnTimer (timeout : Span) : Segment → Prop
  | ⟨true, start, finish⟩ => ∃ count, finish = start + (count + 1) * timeout
  | ⟨false, start, finish⟩ => finish = start + timeout

theorem escalations_eq_nil {timeout entered start finish : Span} (waiting : Bool)
    (short : finish ≤ start + timeout) :
    escalations timeout entered ⟨waiting, start, finish⟩ = [] := by
  cases waiting with
  | true => simp [escalations, beats_eq_nil short]
  | false => simp [escalations, Nat.not_lt.mpr short]

theorem escalations_succ {timeout entered start left : Span} {waiting : Bool}
    (positive : 0 < timeout) (off : ¬ EndsOnTimer timeout ⟨waiting, start, left⟩) :
    escalations timeout entered ⟨waiting, start, left + 1⟩ =
      escalations timeout entered ⟨waiting, start, left⟩ := by
  cases waiting with
  | true =>
      have kept : beats timeout start (left + 1) = beats timeout start left :=
        beats_succ_of_off positive fun count same => off ⟨count, same⟩
      simp only [escalations, kept]
  | false =>
      have elsewhere : ¬ left = start + timeout := off
      have same : start + timeout < left + 1 ↔ start + timeout < left := by lia
      simp only [escalations, same]

theorem elapsed_eq {timeout entered instant elapsed : Span} {segment : Segment}
    (due : (instant, .waiting elapsed) ∈ segment.escalations timeout entered) :
    elapsed = instant - entered := by
  obtain ⟨waiting, start, finish⟩ := segment
  cases waiting with
  | true =>
      simp only [escalations, List.mem_map, Prod.mk.injEq, Escalation.waiting.injEq] at due
      obtain ⟨beat, _, same, measured⟩ := due
      rw [← measured, same]
  | false =>
      simp only [escalations] at due
      split at due
      · simp at due
      · simp at due

end Segment

/-- The segments of a stretch that begins with a classification in force, given what the
notifications read and when. A reading of what is in force ends no segment. -/
def segments (waiting : Bool) (start finish : Span) : List (Span × Bool) → List Segment
  | [] => [⟨waiting, start, finish⟩]
  | (instant, reading) :: later =>
      if reading = waiting then segments waiting start finish later
      else ⟨waiting, start, instant⟩ :: segments reading instant finish later

theorem segments_ne_nil (waiting : Bool) (start finish : Span) (readings : List (Span × Bool)) :
    segments waiting start finish readings ≠ [] := by
  induction readings with
  | nil => simp [segments]
  | cons entry later inductionHypothesis =>
      unfold segments
      split
      · exact inductionHypothesis
      · simp

/-- Where the first segment ends does not depend on where it starts. -/
theorem segments_eq_cons (waiting : Bool) (readings : List (Span × Bool)) :
    (∀ start finish, segments waiting start finish readings = [⟨waiting, start, finish⟩]) ∨
      ∃ change ∈ readings.map Prod.fst, ∃ later : Span → List Segment,
        ∀ start finish, later finish ≠ [] ∧
          segments waiting start finish readings = ⟨waiting, start, change⟩ :: later finish := by
  induction readings with
  | nil => exact Or.inl fun _ _ => rfl
  | cons entry rest inductionHypothesis =>
      obtain ⟨instant, reading⟩ := entry
      by_cases same : reading = waiting
      · rcases inductionHypothesis with single | ⟨change, member, later, several⟩
        · exact Or.inl fun start finish => by simp [segments, same, single]
        · refine Or.inr ⟨change, List.mem_cons_of_mem _ member, later, fun start finish => ?_⟩
          exact ⟨(several start finish).1, by simp [segments, same, several start finish]⟩
      · refine Or.inr ⟨instant, by simp, fun finish => segments reading instant finish rest, ?_⟩
        intro start finish
        exact ⟨segments_ne_nil reading instant finish rest, by simp [segments, same]⟩

/-- The escalations that are due in a stretch, in order. -/
def timeline (timeout entered : Span) (waiting : Bool) (start finish : Span)
    (readings : List (Span × Bool)) : List (Span × Escalation) :=
  (segments waiting start finish readings).flatMap (Segment.escalations timeout entered)

theorem timeline_succ {timeout entered start left : Span} {waiting : Bool}
    {readings : List (Span × Bool)} (positive : 0 < timeout)
    (off : ∀ segment ∈ (segments waiting start left readings).getLast?,
      ¬ segment.EndsOnTimer timeout) :
    timeline timeout entered waiting start (left + 1) readings =
      timeline timeout entered waiting start left readings := by
  induction readings generalizing waiting start with
  | nil =>
      have last := off ⟨waiting, start, left⟩ (by simp [segments])
      simp [timeline, segments, Segment.escalations_succ positive last]
  | cons entry later inductionHypothesis =>
      obtain ⟨instant, reading⟩ := entry
      by_cases same : reading = waiting
      · simp only [timeline, segments, same, if_true] at off ⊢
        exact inductionHypothesis off
      · simp only [segments, same, if_false,
          List.getLast?_cons_of_ne_nil (segments_ne_nil _ _ _ _)] at off
        have rest := inductionHypothesis off
        simp only [timeline, segments, same, if_false, List.flatMap_cons] at rest ⊢
        rw [rest]

/-- No timer runs out at the very instant of a change. -/
def Apart (timeout : Span) (waiting : Bool) (start finish : Span)
    (readings : List (Span × Bool)) : Prop :=
  ∀ segment ∈ (segments waiting start finish readings).dropLast, ¬ segment.EndsOnTimer timeout

/-- A list of escalations up to its first stuck one, this one included. -/
def upToStuck : List (Span × Escalation) → List (Span × Escalation)
  | [] => []
  | (instant, .stuck) :: _ => [(instant, .stuck)]
  | (instant, .waiting elapsed) :: later => (instant, .waiting elapsed) :: upToStuck later

theorem mem_of_mem_upToStuck {escalations : List (Span × Escalation)}
    {entry : Span × Escalation} (member : entry ∈ upToStuck escalations) :
    entry ∈ escalations := by
  induction escalations with
  | nil => simp [upToStuck] at member
  | cons head later inductionHypothesis =>
      obtain ⟨instant, escalation⟩ := head
      cases escalation with
      | stuck =>
          rw [upToStuck, List.mem_singleton] at member
          exact member ▸ List.mem_cons_self
      | waiting elapsed =>
          rcases List.mem_cons.mp member with rfl | found
          · exact List.mem_cons_self
          · exact List.mem_cons_of_mem _ (inductionHypothesis found)

/-- The escalations of a stretch agree with those that are due in it. The stretch ends at the
exit, or just after it if the timer that runs out at that very instant had its turn first. -/
def Agrees (decided : List (Span × Escalation)) (left : Span)
    (due : Span → List (Span × Escalation)) : Prop :=
  ∃ finish, (finish = left ∨ finish = left + 1 ∧ left ∈ decided.map Prod.fst) ∧
    decided = upToStuck (due finish)

section Agreement

variable {timeout entered start left : Span} {waiting : Bool} {readings : List (Span × Bool)}
  {decided : List (Span × Escalation)}

/-- Where the first timer of a stretch runs out, the segment goes on: no change comes at that
very instant, and the stretch ends later unless it ends just then. -/
theorem segments_of_long (apart : Apart timeout waiting start left readings)
    (notBefore : ∀ instant ∈ readings.map Prod.fst, start + timeout ≤ instant) :
    (∀ first finish, segments waiting first finish readings = [⟨waiting, first, finish⟩]) ∨
      ∃ change > start + timeout, ∃ later : Span → List Segment,
        ∀ first finish,
          segments waiting first finish readings = ⟨waiting, first, change⟩ :: later finish := by
  rcases segments_eq_cons waiting readings with single | ⟨change, member, later, several⟩
  · exact Or.inl single
  · refine Or.inr ⟨change, ?_, later, fun first finish => (several first finish).2⟩
    have elsewhere : ¬ Segment.EndsOnTimer timeout ⟨waiting, start, change⟩ := by
      refine apart _ ?_
      rw [(several start left).2, List.dropLast_cons_of_ne_nil (several start left).1]
      exact List.mem_cons_self
    refine Nat.lt_of_le_of_ne (notBefore change member) fun same => elsewhere ?_
    cases waiting with
    | true => exact ⟨0, by simp [same]⟩
    | false => exact same.symm

theorem agrees_exit (soon : left ≤ start + timeout) :
    Agrees [] left fun finish => timeline timeout entered waiting start finish [] := by
  refine ⟨left, Or.inl rfl, ?_⟩
  simp [timeline, segments, Segment.escalations_eq_nil waiting soon, upToStuck]

theorem timeline_change {instant finish : Span} (soon : instant ≤ start + timeout) :
    timeline timeout entered waiting start finish ((instant, !waiting) :: readings) =
      timeline timeout entered (!waiting) instant finish readings := by
  simp [timeline, segments, Segment.escalations_eq_nil waiting soon]

/-- After a beat what is due is what would be due had the segment started there. -/
theorem agrees_prolong (positive : 0 < timeout)
    (apart : Apart timeout true start left readings)
    (notBefore : ∀ instant ∈ readings.map Prod.fst, start + timeout ≤ instant)
    (inTime : start + timeout ≤ left)
    (agrees : Agrees decided left
      fun finish => timeline timeout entered true (start + timeout) finish readings) :
    Agrees ((start + timeout, .waiting (start + timeout - entered)) :: decided) left
      fun finish => timeline timeout entered true start finish readings := by
  obtain ⟨finish, ending, same⟩ := agrees
  rcases segments_of_long apart notBefore with single | ⟨change, long, later, several⟩
  · rcases Nat.lt_or_eq_of_le inTime with before | atExit
    · have long : start + timeout < finish := by
        rcases ending with rfl | ⟨rfl, _⟩ <;> lia
      refine ⟨finish, ending.imp_right fun last => ⟨last.1, by simp [last.2]⟩, ?_⟩
      simp [timeline, single, Segment.escalations, beats_eq_cons positive long, upToStuck, same]
    · -- The timer runs out at the instant of the exit and had its turn first.
      subst atExit
      have nothing : decided = [] := by
        have short : finish ≤ start + timeout + timeout := by
          rcases ending with rfl | ⟨rfl, _⟩ <;> lia
        rw [same]
        simp [timeline, single, Segment.escalations_eq_nil true short, upToStuck]
      refine ⟨start + timeout + 1, Or.inr ⟨rfl, by simp⟩, ?_⟩
      have short : start + timeout + 1 ≤ start + timeout + timeout := by lia
      simp [timeline, single, Segment.escalations, beats_eq_cons positive (Nat.lt_succ_self _),
        beats_eq_nil short, upToStuck, nothing]
  · refine ⟨finish, ending.imp_right fun last => ⟨last.1, by simp [last.2]⟩, ?_⟩
    simp [timeline, several, Segment.escalations, beats_eq_cons positive long, upToStuck, same]

theorem agrees_giveUp (apart : Apart timeout false start left readings)
    (notBefore : ∀ instant ∈ readings.map Prod.fst, start + timeout ≤ instant)
    (inTime : start + timeout ≤ left) :
    Agrees [(start + timeout, .stuck)] left
      fun finish => timeline timeout entered false start finish readings := by
  rcases segments_of_long apart notBefore with single | ⟨change, long, later, several⟩
  · rcases Nat.lt_or_eq_of_le inTime with before | atExit
    · refine ⟨left, Or.inl rfl, ?_⟩
      simp [timeline, single, Segment.escalations, before, upToStuck]
    · subst atExit
      refine ⟨start + timeout + 1, Or.inr ⟨rfl, by simp⟩, ?_⟩
      simp [timeline, single, Segment.escalations, upToStuck]
  · refine ⟨left, Or.inl rfl, ?_⟩
    have before : start + timeout < change := long
    simp [timeline, several, Segment.escalations, before, upToStuck]

theorem Apart.prolong (apart : Apart timeout true start left readings) :
    Apart timeout true (start + timeout) left readings := by
  intro segment member timed
  rcases segments_eq_cons true readings with single | ⟨change, _, later, several⟩
  · simp [single] at member
  · obtain ⟨nonempty, shape⟩ := several (start + timeout) left
    rw [shape, List.dropLast_cons_of_ne_nil nonempty] at member
    have former : ∀ other ∈ ⟨true, start, change⟩ :: (later left).dropLast,
        ¬ Segment.EndsOnTimer timeout other := by
      intro other otherMember
      refine apart other ?_
      rwa [(several start left).2, List.dropLast_cons_of_ne_nil nonempty]
    rcases List.mem_cons.mp member with rfl | tail
    · obtain ⟨count, last⟩ := timed
      refine former _ List.mem_cons_self ⟨count + 1, ?_⟩
      rw [last, Nat.succ_mul (count + 1)]
      lia
    · exact former segment (List.mem_cons_of_mem _ tail) timed

theorem Apart.change {instant : Span}
    (apart : Apart timeout waiting start left ((instant, !waiting) :: readings)) :
    Apart timeout (!waiting) instant left readings := by
  intro segment member
  refine apart segment ?_
  simp only [segments, Bool.not_eq_self, if_false]
  rw [List.dropLast_cons_of_ne_nil (segments_ne_nil _ _ _ _)]
  exact List.mem_cons_of_mem _ member

theorem Agrees.eq_timeline (positive : 0 < timeout)
    (agrees : Agrees decided left
      fun finish => timeline timeout entered waiting start finish readings)
    (off : ∀ segment ∈ (segments waiting start left readings).getLast?,
      ¬ segment.EndsOnTimer timeout) :
    decided = upToStuck (timeline timeout entered waiting start left readings) := by
  obtain ⟨finish, ending, same⟩ := agrees
  rcases ending with rfl | ⟨rfl, _⟩
  · exact same
  · rw [← timeline_succ positive off]
    exact same

theorem Agrees.elapsed_eq {instant elapsed : Span}
    (agrees : Agrees decided left
      fun finish => timeline timeout entered waiting start finish readings)
    (member : (instant, .waiting elapsed) ∈ decided) : elapsed = instant - entered := by
  obtain ⟨finish, _, same⟩ := agrees
  rw [same] at member
  obtain ⟨segment, _, due⟩ := List.mem_flatMap.mp (mem_of_mem_upToStuck member)
  exact Segment.elapsed_eq due

end Agreement

end PlanSupervision.Monitor
