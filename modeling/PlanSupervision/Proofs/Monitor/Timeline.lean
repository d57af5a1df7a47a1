import PlanSupervision.Monitor.Rehearsal
import PlanSupervision.Proofs.Monitor.Scope
import PlanSupervision.Proofs.Monitor.Segment

/-!
The escalations of a scope. They are those that are due in its segments, up to the first
stuck one: the one pending timer always counts from the start of the segment, or from the
last beat in it.
-/

namespace PlanSupervision.MonitorPost

open Monitor

/-- What notifications say to a monitor, with the instant of each that says something. -/
def readings (origin : Monitor) (notes : List (Span × Progress)) : List (Span × Bool) :=
  notes.filterMap fun note => (origin.reading? note.2).map fun reading => (note.1, reading)

theorem readings_of_none {origin : Monitor} {instant : Span} {progress : Progress}
    {later : List (Span × Progress)} (read : origin.reading? progress = none) :
    readings origin ((instant, progress) :: later) = readings origin later := by
  simp [readings, read]

theorem readings_of_some {origin : Monitor} {instant : Span} {progress : Progress}
    {later : List (Span × Progress)} {reading : Bool}
    (read : origin.reading? progress = some reading) :
    readings origin ((instant, progress) :: later) =
      (instant, reading) :: readings origin later := by
  simp [readings, read]

/-- The calls of a history, without the turns of timers and escalations. -/
def calls (history : History) : History := history.filter fun entry => entry.2.isCall

theorem calls_append (earlier later : History) :
    calls (earlier ++ later) = calls earlier ++ calls later :=
  List.filter_append ..

theorem calls_cons_progress (instant : Span) (progress : Progress) (later : History) :
    calls ((instant, .progress progress) :: later) =
      (instant, .progress progress) :: calls later := rfl

/-- What happens inside a scope from one instant to the exit at another: these notifications
and turns of timers and escalations. -/
structure ScopeHistory (post : MonitorPost) (now left : Span) (notes : List (Span × Progress))
    (inside : History) : Prop where
  notified : calls inside = notes.map fun note => (note.1, .progress note.2)
  timely : post.Timely now (inside ++ [(left, .exit)])

variable {origin : Monitor} {entered start now left : Span} {waiting : Bool}
  {post : MonitorPost} {notes : List (Span × Progress)} {inside later : History}

theorem Timely.le_of_mem {history : History} (timely : post.Timely now history)
    {instant : Span} {move : Move} (member : (instant, move) ∈ history) : now ≤ instant := by
  induction history generalizing post now with
  | nil => simp at member
  | cons head rest inductionHypothesis =>
      obtain ⟨forward, _, restTimely⟩ := timely
      rcases List.mem_cons.mp member with found | found
      · rw [← found] at forward
        exact forward
      · exact Nat.le_trans forward (inductionHypothesis restTimely found)

namespace ScopeHistory

theorem le_of_reading (scope : ScopeHistory post now left notes inside)
    {instant : Span} (member : instant ∈ (readings origin notes).map Prod.fst) :
    now ≤ instant := by
  obtain ⟨note, noteMember, rfl⟩ : ∃ note ∈ notes, note.1 = instant := by
    simp only [readings, List.mem_map, List.mem_filterMap, Option.map_eq_some_iff] at member
    obtain ⟨_, ⟨note, noteMember, _, _, rfl⟩, rfl⟩ := member
    exact ⟨note, noteMember, rfl⟩
  have called : (note.1, Move.progress note.2) ∈ MonitorPost.calls inside := by
    rw [scope.notified]
    exact List.mem_map.mpr ⟨note, noteMember, rfl⟩
  exact scope.timely.le_of_mem (List.mem_append_left _ (List.mem_filter.mp called).1)

theorem le_left (scope : ScopeHistory post now left notes inside) : now ≤ left := by
  have last : (left, .exit) ∈ inside ++ [(left, .exit)] := by simp
  exact scope.timely.le_of_mem last

theorem cons_cases {instant : Span} {move : Move}
    (scope : ScopeHistory post now left notes ((instant, move) :: inside)) :
    now ≤ instant ∧ (∀ timer ∈ post.timers, RunningTimer.Admits timer now instant) ∧
      (move.isCall = false ∧ ScopeHistory (post.step instant move) instant left notes inside ∨
        ∃ progress rest, notes = (instant, progress) :: rest ∧ move = .progress progress ∧
          ScopeHistory (post.step instant move) instant left rest inside) := by
  obtain ⟨called, forward, admitted, timely⟩ := scope
  refine ⟨forward, admitted, ?_⟩
  cases call : move.isCall with
  | false =>
      refine Or.inl ⟨rfl, ?_, timely⟩
      simpa [MonitorPost.calls, call] using called
  | true =>
      cases notes with
      | nil => simp [MonitorPost.calls, call] at called
      | cons note rest =>
          simp only [MonitorPost.calls, List.filter_cons, call, if_true, List.map_cons,
            List.cons.injEq, Prod.mk.injEq] at called
          obtain ⟨⟨rfl, rfl⟩, same⟩ := called
          exact Or.inr ⟨note.2, rest, rfl, rfl, same, timely⟩

theorem of_turn {instant : Span} {move : Move}
    (scope : ScopeHistory post now left notes ((instant, move) :: inside))
    (turn : move.isCall = false) :
    ScopeHistory (post.step instant move) instant left notes inside := by
  rcases scope.cons_cases.2.2 with ⟨_, rest⟩ | ⟨progress, _, _, note, _⟩
  · exact rest
  · rw [note] at turn
    cases turn

theorem of_progress {instant : Span} {progress : Progress}
    (scope : ScopeHistory post now left notes ((instant, .progress progress) :: inside)) :
    ∃ rest, notes = (instant, progress) :: rest ∧
      ScopeHistory (post.step instant (.progress progress)) instant left rest inside := by
  rcases scope.cons_cases.2.2 with ⟨turn, _⟩ | ⟨_, rest, same, note, restScope⟩
  · cases turn
  · cases note
    exact ⟨rest, same, restScope⟩

end ScopeHistory

theorem AtRest.decisions_eq_nil (rest : post.AtRest)
    (outside : ∀ entry ∈ later, entry.2.isCall = true → ∃ progress, entry.2 = .progress progress) :
    post.decisions later = [] := by
  induction later generalizing post with
  | nil => rfl
  | cons entry later inductionHypothesis =>
      obtain ⟨restAfter, undecided⟩ := rest.step entry.1 (outside entry (by simp))
      have noneLater := inductionHypothesis restAfter fun entry member =>
        outside entry (List.mem_cons_of_mem _ member)
      simp [decisions, undecided, noneLater]

theorem Within.decisions_exit (within : Within origin entered waiting post)
    (held : post.timers.map RunningTimer.handle = post.monitor.timer.toList)
    (outside : ∀ entry ∈ later, entry.2.isCall = true → ∃ progress, entry.2 = .progress progress) :
    post.decisions ((left, .exit) :: later) = [] := by
  obtain ⟨rest, undecided⟩ := exit_of_inScope within.inScope left held
  have noneLater := rest.decisions_eq_nil outside
  simp only [decisions]
  change (decidedSince post (post.exit left)).map _ ++ (post.exit left).decisions later = []
  simp [undecided, noneLater]

/-- The run of a scope from any point at which a timer is running, by induction on its moves:
the timer counts from the start of the segment, or from the last beat in it. -/
theorem Guarded.decisions_agree (guarded : Guarded origin entered waiting start now post)
    (positive : 0 < origin.timeout) (scope : ScopeHistory post now left notes inside)
    (apart : Apart origin.timeout waiting start left (readings origin notes))
    (outside : ∀ entry ∈ later, entry.2.isCall = true → ∃ progress, entry.2 = .progress progress) :
    Agrees (upToStuck (post.decisions (inside ++ (left, .exit) :: later))) left
      fun finish => timeline origin.timeout entered waiting start finish
        (readings origin notes) := by
  induction inside generalizing post waiting start now notes with
  | nil =>
      have nothing : notes = [] := by simpa [calls] using scope.notified.symm
      obtain ⟨_, admitted, _⟩ := scope.timely
      rw [List.nil_append, guarded.toWithin.decisions_exit guarded.held outside, nothing]
      exact agrees_exit (guarded.le_due admitted)
  | cons entry inside inductionHypothesis =>
      obtain ⟨instant, move⟩ := entry
      obtain ⟨forward, admitted, first⟩ := scope.cons_cases
      have isNote : move.isCall = true → ∃ progress, move = .progress progress := by
        rcases first with ⟨turn, _⟩ | ⟨progress, _, _, note, _⟩
        · simp [turn]
        · exact fun _ => ⟨progress, note⟩
      have unfolded : post.decisions ((instant, move) :: inside ++ (left, .exit) :: later) =
          (decidedSince post (post.step instant move)).map (fun escalation =>
            (instant, escalation)) ++
          (post.step instant move).decisions (inside ++ (left, .exit) :: later) := rfl
      cases guarded.step admitted isNote with
      | stays guarded undecided repeats =>
          rw [unfolded, undecided, List.map_nil, List.nil_append]
          rcases first with ⟨_, rest⟩ | ⟨progress, rest, rfl, rfl, restScope⟩
          · exact inductionHypothesis guarded rest apart
          · have same : ∀ finish, segments waiting start finish
                (readings origin ((instant, progress) :: rest)) =
                segments waiting start finish (readings origin rest) := by
              intro finish
              cases read : origin.reading? progress with
              | none => rw [readings_of_none read]
              | some reading =>
                  have inForce := repeats progress rfl reading (by simp [read])
                  simp [readings_of_some read, segments, inForce]
            simp only [Apart, timeline, same] at apart ⊢
            exact inductionHypothesis guarded restScope apart
      | prolongs turn wait due guarded decided =>
          subst wait due
          have rest := scope.of_turn turn
          rw [unfolded, decided]
          exact agrees_prolong positive apart (fun _ member => rest.le_of_reading member)
            rest.le_left (inductionHypothesis guarded rest apart.prolong)
      | givesUp turn wait due unguarded decided =>
          subst wait due
          have rest := scope.of_turn turn
          rw [unfolded, decided]
          exact agrees_giveUp apart (fun _ member => rest.le_of_reading member) rest.le_left
      | changes progress notified read guarded' undecided =>
          subst notified
          obtain ⟨rest, rfl, restScope⟩ := scope.of_progress
          rw [unfolded, undecided, List.map_nil, List.nil_append]
          simp only [readings_of_some read, timeline_change (guarded.le_due admitted)] at apart ⊢
          exact inductionHypothesis guarded' restScope apart.change

/-- Whether the task is seen to wait for beam, after each move of a history. -/
def observed (post : MonitorPost) : History → List (Span × Bool)
  | [] => []
  | (instant, move) :: later =>
      let after := post.step instant move
      (instant, after.monitor.waiting) :: observed after later

/-- The segments that show in a scope are those that the notifications make. -/
theorem Inside.segments_observed (state : Inside origin entered waiting now post)
    (scope : ScopeHistory post now left notes inside) (start finish : Span) :
    segments waiting start finish (post.observed inside) =
      segments waiting start finish (readings origin notes) := by
  induction inside generalizing post waiting start now notes with
  | nil =>
      have nothing : notes = [] := by simpa [calls] using scope.notified.symm
      simp [nothing, readings, observed]
  | cons entry inside inductionHypothesis =>
      obtain ⟨instant, move⟩ := entry
      obtain ⟨forward, admitted, first⟩ := scope.cons_cases
      rcases first with ⟨turn, rest⟩ | ⟨progress, rest, rfl, rfl, restScope⟩
      · have after := state.step admitted move (by simp [turn])
        rw [classified_of_turn turn] at after
        simp only [observed, after.within.waiting, segments, if_true]
        exact inductionHypothesis after rest start
      · have after := state.step admitted (.progress progress) fun _ => ⟨progress, rfl⟩
        cases read : origin.reading? progress with
        | none =>
            rw [classified, read, Option.getD_none] at after
            rw [readings_of_none read]
            simp only [observed, after.within.waiting, segments, if_true]
            exact inductionHypothesis after restScope start
        | some reading =>
            rw [classified, read, Option.getD_some] at after
            rw [readings_of_some read]
            simp only [observed, after.within.waiting, segments]
            by_cases inForce : reading = waiting
            · simp only [inForce, if_true]
              exact inductionHypothesis (inForce ▸ after) restScope start
            · simp only [inForce, if_false]
              rw [inductionHypothesis after restScope]

/-- Turns that fill the time from one instant to another: after them the clock can go on to
the latter. -/
structure Fills (origin : Monitor) (entered : Span) (waiting : Bool) (now instant : Span)
    (post : MonitorPost) (turns : History) (reached : Span) : Prop where
  silent : calls turns = []
  notAfter : reached ≤ instant
  inside : Inside origin entered waiting reached (post.run turns)
  admits : ∀ timer ∈ (post.run turns).timers, RunningTimer.Admits timer reached instant
  timely : ∀ rest, (post.run turns).Timely reached rest → post.Timely now (turns ++ rest)

theorem Fills.cons {instant between reached : Span} {turns : History} (task : MonitorTask)
    (turn : (Move.turn task).isCall = false) (forward : now ≤ between)
    (admitted : ∀ timer ∈ post.timers, RunningTimer.Admits timer now between)
    (fills : Fills origin entered waiting between instant
      (post.step between (.turn task)) turns reached) :
    Fills origin entered waiting now instant post ((between, .turn task) :: turns) reached where
  silent := by simpa [calls, turn] using fills.silent
  notAfter := fills.notAfter
  inside := fills.inside
  admits := fills.admits
  timely rest timely := ⟨forward, admitted, fills.timely rest timely⟩

theorem Guarded.exists_fills_of_running {instant : Span}
    (guarded : Guarded origin entered waiting start now post)
    (running : post.timers =
      [⟨post.monitor.spawned, post.monitor.generation, some (start + origin.timeout)⟩])
    (forward : now ≤ instant)
    (following : ∀ {post : MonitorPost}, start + origin.timeout ≤ instant →
      Guarded origin entered waiting (start + origin.timeout) (start + origin.timeout) post →
      ∃ turns reached,
        Fills origin entered waiting (start + origin.timeout) instant post turns reached) :
    ∃ turns reached, Fills origin entered waiting now instant post turns reached := by
  by_cases soon : instant ≤ start + origin.timeout
  · refine ⟨[], now, rfl, forward, .guarded start guarded, ?_, fun _ timely => timely⟩
    simpa [running, RunningTimer.Admits] using soon
  · have past : start + origin.timeout ≤ instant := Nat.le_of_not_le soon
    have admitted : ∀ timer ∈ post.timers,
        RunningTimer.Admits timer now (start + origin.timeout) := by
      simp [running, RunningTimer.Admits]
    have follows : ∃ turns reached, Fills origin entered waiting (start + origin.timeout) instant
        (post.step (start + origin.timeout) (.turn (.timer post.monitor.spawned)))
        turns reached := by
      cases waiting with
      | true => exact following past (guarded.prolongs running).1
      | false =>
          have unguarded := (guarded.givesUp running).1
          refine ⟨[], _, rfl, past, .unguarded unguarded, ?_, fun _ timely => timely⟩
          intro timer member
          have idle : (post.timerTurn (start + origin.timeout) post.monitor.spawned).timers =
            [] := unguarded.timers
          change timer ∈ (post.timerTurn _ _).timers at member
          simp [idle] at member
    obtain ⟨turns, reached, fills⟩ := follows
    exact ⟨_, reached, fills.cons _ rfl guarded.inTime admitted⟩

/-- The turns of the timers alone can fill any time, by induction on how far the instant lies
ahead of the start of the running timer. -/
theorem Guarded.exists_fills (positive : 0 < origin.timeout) {instant : Span}
    (guarded : Guarded origin entered waiting start now post) (forward : now ≤ instant) :
    ∃ turns reached, Fills origin entered waiting now instant post turns reached := by
  induction ahead : instant - start using Nat.strongRecOn generalizing start now post with
  | ind ahead inductionHypothesis =>
      subst ahead
      have following : ∀ {post : MonitorPost}, start + origin.timeout ≤ instant →
          Guarded origin entered waiting (start + origin.timeout) (start + origin.timeout) post →
          ∃ turns reached,
            Fills origin entered waiting (start + origin.timeout) instant post turns reached := by
        intro post past guarded
        exact inductionHypothesis _ (by lia) guarded past rfl
      rcases guarded.timers with ⟨fresh, begun⟩ | running
      · obtain ⟨turns, reached, fills⟩ :=
          guarded.begins.exists_fills_of_running rfl forward following
        rw [← guarded.timerTurn_of_fresh fresh begun] at fills
        refine ⟨_, reached, fills.cons (.timer post.monitor.spawned) rfl
          (Nat.le_refl now) ?_⟩
        simp [fresh, RunningTimer.Admits]
      · exact guarded.exists_fills_of_running running forward following

theorem Inside.exists_fills (positive : 0 < origin.timeout) {instant : Span}
    (inside : Inside origin entered waiting now post) (forward : now ≤ instant) :
    ∃ turns reached, Fills origin entered waiting now instant post turns reached := by
  cases inside with
  | guarded start guarded => exact guarded.exists_fills positive forward
  | unguarded unguarded =>
      exact ⟨[], now, rfl, forward, .unguarded unguarded, by simp [unguarded.timers],
        fun _ timely => timely⟩

/-- Any notifications at instants in order can be what happens inside a scope. -/
theorem Inside.exists_scopeHistory (positive : 0 < origin.timeout)
    (state : Inside origin entered waiting now post)
    (ordered : (now :: notes.map Prod.fst ++ [left]).Pairwise (· ≤ ·)) :
    ∃ inside, ScopeHistory post now left notes inside := by
  induction notes generalizing waiting now post with
  | nil =>
      have forward : now ≤ left := by simpa using ordered
      obtain ⟨turns, reached, fills⟩ := state.exists_fills positive forward
      exact ⟨turns, fills.silent, fills.timely _ ⟨fills.notAfter, fills.admits, trivial⟩⟩
  | cons note notes inductionHypothesis =>
      obtain ⟨instant, progress⟩ := note
      simp only [List.map_cons, List.cons_append, List.pairwise_cons] at ordered
      have forward : now ≤ instant := ordered.1 instant List.mem_cons_self
      obtain ⟨turns, reached, fills⟩ := state.exists_fills positive forward
      have after := fills.inside.step fills.admits (.progress progress)
        fun _ => ⟨progress, rfl⟩
      obtain ⟨inside, scope⟩ := inductionHypothesis after
        (by simpa only [List.cons_append, List.pairwise_cons] using ordered.2)
      refine ⟨turns ++ (instant, .progress progress) :: inside, ?_, ?_⟩
      · rw [calls_append, fills.silent, calls_cons_progress, scope.notified]
        rfl
      · rw [List.append_assoc]
        exact fills.timely _ ⟨fills.notAfter, fills.admits, scope.timely⟩

theorem alert_content_waiting (monitor : Monitor) (elapsed : Span) :
    (monitor.alert (.waiting elapsed)).content =
      "Task " ++ monitor.taskId ++ " has been waiting for beam for " ++
        toString (elapsed / Span.ofSeconds 60) ++ " minutes." := by
  have minutes : elapsed.wholeSeconds / 60 = elapsed / Span.ofSeconds 60 := by
    rw [Span.wholeSeconds, Nat.div_div_eq_div_mul]
    rfl
  simp only [Monitor.alert, AlertRecord.waitingForBeam, minutes]

/-- The escalations of a scope, up to the first stuck one, are those that are due in the
segments that show in it. Whatever is notified can happen, with the timers given their turns;
a timer that runs out at the very instant of the exit may have its turn before it or not. -/
theorem escalations_of_scope (rest : post.AtRest) (positive : 0 < post.monitor.timeout)
    (ordered : (entered :: notes.map Prod.fst ++ [left]).Pairwise (· ≤ ·))
    (apart : Apart post.monitor.timeout false entered left (readings post.monitor notes)) :
    (∃ inside, ScopeHistory (post.enter entered) entered left notes inside) ∧
      ∀ inside later, ScopeHistory (post.enter entered) entered left notes inside →
        (∀ entry ∈ later, entry.2.isCall = true → ∃ progress, entry.2 = .progress progress) →
        let shown := (post.enter entered).observed inside
        let decided := upToStuck
          (post.decisions ((entered, .enter) :: inside ++ (left, .exit) :: later))
        Agrees decided left
            (fun finish => timeline post.monitor.timeout entered false entered finish shown) ∧
          ((∀ segment ∈ (segments false entered left shown).getLast?,
              ¬ segment.EndsOnTimer post.monitor.timeout) →
            decided =
              upToStuck (timeline post.monitor.timeout entered false entered left shown)) ∧
          ∀ instant elapsed, (instant, .waiting elapsed) ∈ decided →
            (post.monitor.alert (.waiting elapsed)).content =
              "Task " ++ post.monitor.taskId ++ " has been waiting for beam for " ++
                toString ((instant - entered) / Span.ofSeconds 60) ++ " minutes." := by
  obtain ⟨guarded, undecided⟩ := rest.enter entered
  refine ⟨(Inside.guarded entered guarded).exists_scopeHistory positive ordered, ?_⟩
  intro inside later scope outside shown decided
  have same := (Inside.guarded entered guarded).segments_observed scope entered
  have unfolded : post.decisions ((entered, .enter) :: inside ++ (left, .exit) :: later) =
      (post.enter entered).decisions (inside ++ (left, .exit) :: later) := by
    change (decidedSince post (post.enter entered)).map _ ++ _ = _
    rw [undecided]
    rfl
  have agrees : Agrees decided left
      (fun finish => timeline post.monitor.timeout entered false entered finish shown) := by
    have due := guarded.decisions_agree positive scope apart outside
    simp only [timeline, ← same, ← unfolded] at due
    exact due
  refine ⟨agrees, agrees.eq_timeline positive, ?_⟩
  intro instant elapsed member
  rw [alert_content_waiting, agrees.elapsed_eq member]

def quietPost : MonitorPost :=
  (Rehearsal.ofMonitor
    { taskId := "scan", statusName := "beam", timeout := .ofMillis 250, metadata := .empty
      inScope := false, waiting := false, started := none, timer := none, spawned := 0, generation := 0 }
    (fun _ => (0, .ok ())) (fun _ => (0, .ok ())) [] 1).post

def beamLost : Progress :=
  ⟨"scan", .ofList [("beam", ⟨"beam", ⟨0⟩, ⟨0⟩, ⟨0x3FF0000000000000⟩⟩)]⟩

/-- A task that loses the beam after 100 milliseconds is escalated every 250 milliseconds
from then on. -/
theorem escalations_of_beam_loss :
    ∃ inside, ScopeHistory (quietPost.enter 0) 0 (.ofMillis 700) [(.ofMillis 100, beamLost)]
        inside ∧
      upToStuck (quietPost.decisions ((0, .enter) :: inside ++ [(.ofMillis 700, .exit)])) =
        [(.ofMillis 350, .waiting (.ofMillis 350)), (.ofMillis 600, .waiting (.ofMillis 600))] := by
  have rest : quietPost.AtRest := ⟨rfl, rfl, rfl⟩
  have read : readings quietPost.monitor [(.ofMillis 100, beamLost)] =
      [(.ofMillis 100, true)] := by decide
  have shape : segments false 0 (.ofMillis 700) [(.ofMillis 100, true)] =
      [⟨false, 0, .ofMillis 100⟩, ⟨true, .ofMillis 100, .ofMillis 700⟩] := rfl
  have apart : Apart quietPost.monitor.timeout false 0 (.ofMillis 700)
      (readings quietPost.monitor [(.ofMillis 100, beamLost)]) := by
    intro segment member
    rw [read, shape] at member
    obtain rfl := List.mem_singleton.mp member
    change ¬ (Span.ofMillis 100 : Nat) = 0 + Span.ofMillis 250
    decide
  obtain ⟨⟨inside, scope⟩, all⟩ :=
    escalations_of_scope rest (by decide) (by decide) apart
  obtain ⟨_, timely, _⟩ := all inside [] scope (by simp)
  have shown : segments false 0 (.ofMillis 700) ((quietPost.enter 0).observed inside) =
      [⟨false, 0, .ofMillis 100⟩, ⟨true, .ofMillis 100, .ofMillis 700⟩] := by
    rw [(Inside.guarded 0 (rest.enter 0).1).segments_observed scope, read, shape]
  have offTimer : ∀ segment ∈
      (segments false 0 (.ofMillis 700) ((quietPost.enter 0).observed inside)).getLast?,
      ¬ segment.EndsOnTimer quietPost.monitor.timeout := by
    intro segment member
    rw [shown] at member
    obtain rfl := Option.mem_some.mp member
    rintro ⟨count, onTimer⟩
    change (700000000 : Nat) = 100000000 + (count + 1) * 250000000 at onTimer
    omega
  have due : timeline quietPost.monitor.timeout 0 false 0 (.ofMillis 700)
      ((quietPost.enter 0).observed inside) =
      [(.ofMillis 350, .waiting (.ofMillis 350)), (.ofMillis 600, .waiting (.ofMillis 600))] := by
    have rhythm : beats (.ofMillis 250) (.ofMillis 100) (.ofMillis 700) =
        [.ofMillis 350, .ofMillis 600] := by
      rw [beats_eq_cons (by decide) (by decide), beats_eq_cons (by decide) (by decide),
        beats_eq_nil (by decide)]
      rfl
    have early : Segment.escalations (.ofMillis 250) 0 ⟨false, 0, .ofMillis 100⟩ = [] :=
      Segment.escalations_eq_nil false (by decide)
    have late : Segment.escalations (.ofMillis 250) 0 ⟨true, .ofMillis 100, .ofMillis 700⟩ =
        [(.ofMillis 350, .waiting (.ofMillis 350)), (.ofMillis 600, .waiting (.ofMillis 600))] := by
      simp only [Segment.escalations, rhythm, List.map_cons, List.map_nil, Nat.sub_zero]
    have sameTimeout : quietPost.monitor.timeout = .ofMillis 250 := rfl
    rw [timeline, shown, sameTimeout]
    simp only [List.flatMap_cons, List.flatMap_nil, early, late, List.nil_append, List.append_nil]
  refine ⟨inside, scope, ?_⟩
  rw [timely offTimer, due]
  rfl

/-- The quiet post gives up its task at the very instant of the exit when the timer has its
turn first, although no escalation is due before that instant. -/
theorem stuck_at_exit :
    let inside : History := [(0, .turn (.timer 1)), (.ofMillis 250, .turn (.timer 1))]
    quietPost.AtRest ∧ ScopeHistory (quietPost.enter 0) 0 (.ofMillis 250) [] inside ∧
      Apart quietPost.monitor.timeout false 0 (.ofMillis 250) (readings quietPost.monitor []) ∧
      timeline quietPost.monitor.timeout 0 false 0 (.ofMillis 250)
        ((quietPost.enter 0).observed inside) = [] ∧
      quietPost.decisions ((0, .enter) :: inside ++ [(.ofMillis 250, .exit)]) =
        [(.ofMillis 250, .stuck)] := by
  intro inside
  have fresh : (quietPost.enter 0).timers = [⟨1, 1, none⟩] := rfl
  have running : ((quietPost.enter 0).step 0 (.turn (.timer 1))).timers =
      [⟨1, 1, some (.ofMillis 250)⟩] := rfl
  have spent : (((quietPost.enter 0).step 0 (.turn (.timer 1))).step (.ofMillis 250)
      (.turn (.timer 1))).timers = [] := rfl
  refine ⟨⟨rfl, rfl, rfl⟩, ⟨rfl, ?_⟩, ?_, rfl, rfl⟩
  · refine ⟨Nat.le_refl 0, ?_, Nat.zero_le _, ?_, Nat.le_refl _, ?_, trivial⟩
    · rw [fresh]
      simp [RunningTimer.Admits]
    · rw [running]
      simp [RunningTimer.Admits]
    · rw [spent]
      simp
  · intro segment member
    cases member

end PlanSupervision.MonitorPost
