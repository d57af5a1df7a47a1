import PlanSupervision.Proofs.Monitor.Race

/-!
The guards of a monitor. Every entry hands out a guard whose drop ends the scope, and several can
be held at once. There is only one scope for all of them: a guard that is dropped ends it
whichever guard it is, so that the guard of the last entry keeps the timer running exactly as
long as all the others that were held at that entry are held as well.
-/

namespace PlanSupervision

theorem Monitor.phase_ne_idle_iff (monitor : Monitor) :
    monitor.phase ≠ .idle ↔ monitor.timer.isSome = true := by
  cases held : monitor.timer with
  | none => simp [phase, held]
  | some handle => cases wait : monitor.waiting <;> simp [phase, held, wait]

namespace MonitorRace

variable {race : MonitorRace}

/-- The timer that the monitor holds was not stopped and has not reported. -/
def Armed (race : MonitorRace) : Prop :=
  ∃ timer ∈ race.timers, race.monitor.timer = some timer.handle ∧ timer.stopped = false

theorem Sound.armed_iff (sound : race.Sound) : race.Armed ↔ race.monitor.phase ≠ .idle := by
  constructor
  · rintro ⟨timer, member, isHeld, _⟩
    exact sound.exists_held_iff.mp ⟨timer, member, isHeld⟩
  · intro busy
    obtain ⟨timer, _, isHeld⟩ := sound.exists_held_iff.mpr busy
    obtain ⟨held, member, same, _, running⟩ := sound.held timer.handle isHeld
    exact ⟨held, member, same ▸ isHeld, running⟩

theorem Sound.not_mayEscalate_of_idle (sound : race.Sound) (idle : race.monitor.phase = .idle) :
    ∀ timer ∈ race.timers, ¬ race.MayEscalate timer :=
  fun timer member => sound.not_mayEscalate member fun isHeld =>
    sound.exists_held_iff.mp ⟨timer, member, isHeld⟩ idle

def stuckCount (race : MonitorRace) : Nat := race.decided.count .stuck

/-- Inside a scope, with a timer unless the task was given up more often than so many times. -/
structure Watches (times : Nat) (race : MonitorRace) : Prop where
  inScope : race.monitor.inScope = true
  notFewer : times ≤ race.stuckCount
  timer : race.stuckCount = times → race.monitor.timer.isSome = true

theorem watches_enter (race : MonitorRace) (now : Span) :
    (race.step (.enter now)).Watches race.stuckCount := by
  rw [step, Monitor.enter, carryOutAll_arm]
  exact ⟨rfl, Nat.le_refl _, fun _ => rfl⟩

namespace Watches

variable {times : Nat}

theorem progress (watches : race.Watches times) (progress : Progress) :
    (race.carryOutAll (race.monitor.progress progress)).Watches times := by
  rcases progress_cases race.monitor progress with unmoved | ⟨waiting, event, inScope, armed⟩
  · rw [unmoved]
    exact watches
  · rw [armed, carryOutAll_arm]
    exact ⟨inScope, watches.notFewer, fun _ => rfl⟩

theorem report (watches : race.Watches times) (handle : Nat) (now : Span) :
    (race.report handle now).Watches times := by
  rcases race.report_cases handle now with unmoved | ⟨timer, _, _, ignored | counts⟩
  · rwa [unmoved]
  · rw [ignored.2]
    exact ⟨watches.inScope, watches.notFewer, watches.timer⟩
  · obtain ⟨_, inScope, reported⟩ := counts
    have notFewer := watches.notFewer
    rw [stuckCount] at notFewer
    rw [reported]
    rcases carryOutAll_expire (race.dismiss handle) inScope now with prolonged | gaveUp
    · rw [prolonged]
      refine ⟨inScope, ?_, fun _ => rfl⟩
      simpa [stuckCount, dismiss] using notFewer
    · have more : ((race.dismiss handle).decided ++ [Escalation.stuck]).count .stuck =
          race.decided.count .stuck + 1 := by
        simp [dismiss]
      rw [gaveUp]
      refine ⟨inScope, ?_, fun same => ?_⟩
      · rw [stuckCount, more]
        exact Nat.le_succ_of_le notFewer
      · rw [stuckCount, more] at same
        exact absurd same (Nat.ne_of_gt (Nat.lt_succ_of_le notFewer))

theorem step (watches : race.Watches times) {move : Move} (stays : move ≠ .exit) :
    (race.step move).Watches times := by
  cases move with
  | enter now =>
      rw [MonitorRace.step, Monitor.enter, carryOutAll_arm]
      exact ⟨rfl, watches.notFewer, fun _ => rfl⟩
  | exit => exact absurd rfl stays
  | progress notification => exact watches.progress notification
  | wake handle => exact ⟨watches.inScope, watches.notFewer, watches.timer⟩
  | report handle now => exact watches.report handle now

end Watches

theorem inScope_exit (race : MonitorRace) : (race.step .exit).monitor.inScope = false := by
  rw [step]
  cases inScope : race.monitor.inScope with
  | false => rwa [leave_of_outside inScope]
  | true => rw [leave_of_inScope inScope]

/-- Nothing but an entry begins a scope. -/
theorem inScope_step (outside : race.monitor.inScope = false) {move : Move}
    (stays : ∀ now, move ≠ .enter now) : (race.step move).monitor.inScope = false := by
  cases move with
  | enter now => exact absurd rfl (stays now)
  | exit => exact race.inScope_exit
  | progress notification =>
      rcases progress_cases race.monitor notification with unmoved | ⟨_, _, inScope, _⟩
      · rwa [step, carryOutAll_monitor, unmoved]
      · rw [outside] at inScope
        cases inScope
  | wake handle => exact outside
  | report handle now =>
      rw [step]
      rcases race.report_cases handle now with unmoved | ⟨_, _, _, ignored | counts⟩
      · rwa [unmoved]
      · rwa [ignored.2]
      · rw [outside] at counts
        cases counts.2.1

theorem Sound.phase_eq_idle (sound : race.Sound) (outside : race.monitor.inScope = false) :
    race.monitor.phase = .idle := by
  by_cases idle : race.monitor.phase = .idle
  · exact idle
  · have inScope := sound.inScope (race.monitor.phase_ne_idle_iff.mp idle)
    rw [outside] at inScope
    cases inScope

end MonitorRace

/-- A move of a race in which the scope is left by the drop of a guard. -/
inductive GuardMove where
  | enter (now : Span)
  | drop (guard : Nat)
  | progress (progress : Progress)
  | wake (handle : Nat)
  | report (handle : Nat) (now : Span)

def GuardMove.move : GuardMove → MonitorRace.Move
  | .enter now => .enter now
  | .drop _ => .exit
  | .progress notification => .progress notification
  | .wake handle => .wake handle
  | .report handle now => .report handle now

/-- A monitor in a race with its timers, and the guards on it that are held. They are numbered in
the order in which they were handed out. -/
structure GuardedMonitor where
  race : MonitorRace
  handedOut : Nat
  held : List Nat
  distinct : held.Nodup
  numbered : ∀ guard ∈ held, guard < handedOut

namespace GuardedMonitor

open MonitorRace

def ofTask (config : Config) (taskId : String) (parameters : Json) : GuardedMonitor :=
  { race := .ofTask config taskId parameters
    handedOut := 0
    held := []
    distinct := List.nodup_nil
    numbered := by simp }

def act (guarded : GuardedMonitor) (move : GuardMove) : GuardedMonitor :=
  { guarded with race := guarded.race.step move.move }

def handOut (guarded : GuardedMonitor) : GuardedMonitor :=
  { race := guarded.race
    handedOut := guarded.handedOut + 1
    held := guarded.held ++ [guarded.handedOut]
    distinct := by
      refine List.nodup_append.mpr ⟨guarded.distinct, by simp, ?_⟩
      intro guard member newest isNewest
      rw [List.mem_singleton.mp isNewest]
      exact Nat.ne_of_lt (guarded.numbered guard member)
    numbered := by
      intro guard member
      rcases List.mem_append.mp member with older | isNewest
      · exact Nat.lt_succ_of_lt (guarded.numbered guard older)
      · rw [List.mem_singleton.mp isNewest]
        exact Nat.lt_succ_self _ }

def takeBack (guarded : GuardedMonitor) (guard : Nat) : GuardedMonitor :=
  { guarded with
    held := guarded.held.erase guard
    distinct := guarded.distinct.erase guard
    numbered := fun other member => guarded.numbered other (List.mem_of_mem_erase member) }

/-- A guard can be dropped only while it is held. -/
def step? (guarded : GuardedMonitor) (move : GuardMove) : Option GuardedMonitor :=
  match move with
  | .enter _ => some (guarded.act move).handOut
  | .drop guard =>
      if guard ∈ guarded.held then some ((guarded.act move).takeBack guard) else none
  | .progress _ | .wake _ | .report _ _ => some (guarded.act move)

def run? (guarded : GuardedMonitor) (moves : List GuardMove) : Option GuardedMonitor :=
  moves.foldlM step? guarded

variable {guarded entered before after : GuardedMonitor} {move : GuardMove}
  {moves : List GuardMove} {times : Nat}

theorem step?_drop {guard : Nat} (stepped : guarded.step? (.drop guard) = some after) :
    guard ∈ guarded.held ∧ (guarded.act (.drop guard)).takeBack guard = after := by
  simpa [step?] using stepped

theorem race_step (stepped : guarded.step? move = some after) :
    after.race = guarded.race.step move.move := by
  cases move with
  | enter | progress | wake | report =>
      cases stepped
      rfl
  | drop guard =>
      obtain ⟨_, rfl⟩ := step?_drop stepped
      rfl

theorem run?_cons (ran : guarded.run? (move :: moves) = some after) :
    ∃ middle, guarded.step? move = some middle ∧ middle.run? moves = some after := by
  rw [run?, List.foldlM_cons] at ran
  exact Option.bind_eq_some_iff.mp ran

theorem race_run (ran : guarded.run? moves = some after) :
    after.race = guarded.race.run (moves.map GuardMove.move) := by
  induction moves generalizing guarded with
  | nil =>
      cases ran
      rfl
  | cons move later inductionHypothesis =>
      obtain ⟨middle, stepped, ran⟩ := run?_cons ran
      rw [inductionHypothesis ran, race_step stepped]
      rfl

/-- What the moves after the last entry leave. -/
inductive Since (entered : GuardedMonitor) (times : Nat) (guarded : GuardedMonitor) : Prop where
  | allHeld (held : guarded.held = entered.held) (watches : guarded.race.Watches times)
  | dropped (guard : Nat) (wasHeld : guard ∈ entered.held) (isDropped : guard ∉ guarded.held)
      (outside : guarded.race.monitor.inScope = false)

theorem Since.step (since : Since entered times guarded) (stays : ∀ now, move ≠ .enter now)
    (stepped : guarded.step? move = some after) : Since entered times after := by
  have raced := race_step stepped
  cases move with
  | enter now => exact absurd rfl (stays now)
  | drop guard =>
      obtain ⟨isHeld, rfl⟩ := step?_drop stepped
      have outside := guarded.race.inScope_exit
      cases since with
      | allHeld held _ =>
          exact .dropped guard (held ▸ isHeld) guarded.distinct.not_mem_erase outside
      | dropped other wasHeld isDropped _ =>
          exact .dropped other wasHeld (fun member => isDropped (List.mem_of_mem_erase member))
            outside
  | progress | wake | report =>
      have sameHeld : after.held = guarded.held := by
        cases stepped
        rfl
      cases since with
      | allHeld held watches =>
          refine .allHeld (sameHeld.trans held) ?_
          rw [raced]
          exact watches.step nofun
      | dropped other wasHeld isDropped outside =>
          refine .dropped other wasHeld (sameHeld ▸ isDropped) ?_
          rw [raced]
          exact inScope_step outside nofun

theorem Since.run (since : Since entered times guarded) (stays : ∀ now, .enter now ∉ moves)
    (ran : guarded.run? moves = some after) : Since entered times after := by
  induction moves generalizing guarded with
  | nil =>
      cases ran
      exact since
  | cons move later inductionHypothesis =>
      obtain ⟨middle, stepped, ran⟩ := run?_cons ran
      have kept := since.step (fun now same => stays now (by simp [same])) stepped
      exact inductionHypothesis kept (fun now member => stays now (.tail move member)) ran

/-- However guards are taken and dropped, and the timers race with the monitor: let the guard of
the last entry be held and no escalation as stuck be decided since. Then the monitor is not idle
and its timer runs exactly if all guards that were held at that entry are held as well. Once any
of them was dropped, or that of the last entry, the monitor is idle, and no timer that was started
may have an escalation decided any more. -/
theorem armed_iff_all_held (config : Config) (taskId : String) (parameters : Json)
    {earlier later : List GuardMove} {now : Span}
    (ran : (ofTask config taskId parameters).run? earlier = some before)
    (follows : before.run? (.enter now :: later) = some after)
    (last : ∀ instant, .enter instant ∉ later) :
    (before.handedOut ∈ after.held → after.race.stuckCount = before.race.stuckCount →
      (after.race.monitor.phase ≠ .idle ∧ after.race.Armed ↔
        ∀ older ∈ before.held, older ∈ after.held)) ∧
      ((∃ guard ∈ before.held ++ [before.handedOut], guard ∉ after.held) →
        after.race.monitor.phase = .idle ∧
          ∀ timer ∈ after.race.timers, ¬ after.race.MayEscalate timer) := by
  have sound : after.race.Sound := by
    rw [race_run follows, race_run ran]
    exact ((sound_ofTask config taskId parameters).run _).run _
  obtain ⟨entered, enters, follows⟩ := run?_cons follows
  cases enters
  have since := Since.run (.allHeld rfl (before.race.watches_enter now)) last follows
  cases since with
  | allHeld held watches =>
      have allHeld : ∀ guard ∈ before.held ++ [before.handedOut], guard ∈ after.held := by
        intro guard member
        rwa [held]
      constructor
      · intro _ same
        have busy := after.race.monitor.phase_ne_idle_iff.mpr (watches.timer same)
        exact ⟨fun _ older member => allHeld older (List.mem_append_left _ member),
          fun _ => ⟨busy, sound.armed_iff.mpr busy⟩⟩
      · rintro ⟨guard, member, dropped⟩
        exact absurd (allHeld guard member) dropped
  | dropped guard wasHeld isDropped outside =>
      have idle := sound.phase_eq_idle outside
      refine ⟨fun newestHeld _ => ⟨?_, ?_⟩, fun _ => ⟨idle, sound.not_mayEscalate_of_idle idle⟩⟩
      · rintro ⟨busy, _⟩
        exact absurd idle busy
      · intro allHeld
        rcases List.mem_append.mp wasHeld with older | isNewest
        · exact absurd (allHeld guard older) isDropped
        · rw [List.mem_singleton.mp isNewest] at isDropped
          exact absurd newestHeld isDropped

/-- The guard of an earlier entry is held as well. The task waits for beam, which is escalated
when the timer runs out, and the next timer runs. -/
theorem armed_beside_older_guard :
    let waiting : Progress := ⟨"scan", .ofList [("s", ⟨"wait_for_beam", ⟨0⟩, ⟨0⟩, ⟨1⟩⟩)]⟩
    ∃ before after,
      (ofTask .standard "scan" .null).run? [.enter 0] = some before ∧
        before.run? [.enter 5, .progress waiting, .wake 3, .report 3 7] = some after ∧
        before.held = [0] ∧ after.held = [0, 1] ∧ after.race.decided = [.waiting 2] ∧
        after.race.monitor.phase ≠ .idle ∧ after.race.Armed := by
  intro waiting
  refine ⟨_, _, rfl, rfl, rfl, rfl, by decide, ?_⟩
  have last : ∀ instant, GuardMove.enter instant ∉
      [.progress waiting, .wake 3, .report 3 7] := by simp
  have armed := (@armed_iff_all_held _ _ .standard "scan" .null [.enter 0] _ 5 rfl rfl last).1
  exact (armed (by decide) (by decide)).mpr (by decide)

/-- Two guards are held and the older one is dropped. The other one is still held and nothing was
decided, but the monitor is idle. -/
theorem idle_under_newest_guard :
    ∃ after, (ofTask .standard "scan" .null).run? [.enter 0, .enter 0, .drop 0] = some after ∧
      after.handedOut = 2 ∧ after.held = [1] ∧ after.race.decided = [] ∧
      after.race.monitor.phase = .idle ∧ ¬ after.race.Armed := by
  refine ⟨_, rfl, rfl, rfl, rfl, rfl, ?_⟩
  rintro ⟨timer, _, isHeld, _⟩
  cases isHeld

end GuardedMonitor

end PlanSupervision
