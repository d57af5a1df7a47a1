import Mathlib.Data.List.Nodup
import PlanSupervision.Monitor.Basic

/-!
A monitor in a race with its timers. Stopping a timer comes too late once the timer is awake:
it may still report to the monitor, at any later point, that its time is up. Such a report is
told from one that counts by the generation of the timer alone. As long as the generation was moved
on fewer than 2^64 times, by timers that were started and scopes that were left, the timer that
the monitor holds is the only one that can have an escalation decided; after that the generation of
a timer that was stopped long ago comes back, and its report counts.
-/

namespace PlanSupervision

/-- A timer that was started and has not reported. -/
structure LooseTimer where
  handle : Nat
  generation : UInt64
  /-- Its time is up, so that stopping it comes too late. -/
  awake : Bool
  stopped : Bool
deriving DecidableEq

structure MonitorRace where
  monitor : Monitor
  timers : List LooseTimer
  decided : List Escalation
  /-- How many scopes were left so far. -/
  exits : Nat

namespace MonitorRace

/-- The monitor is called, or a timer takes one of its two steps. -/
inductive Move where
  | enter (now : Span)
  | exit
  | progress (progress : Progress)
  | wake (handle : Nat)
  | report (handle : Nat) (now : Span)

def ofTask (config : Config) (taskId : String) (parameters : Json) : MonitorRace :=
  ⟨.ofTask config taskId parameters, [], [], 0⟩

/-- How often the generation was moved on. -/
def moved (race : MonitorRace) : Nat := race.monitor.spawned + race.exits

theorem moved_start (race : MonitorRace) :
    race.monitor.spawned + 1 + race.exits = race.moved + 1 :=
  Nat.add_right_comm _ 1 _

def start (race : MonitorRace) (handle : Nat) (generation : UInt64) : MonitorRace :=
  { race with timers := race.timers ++ [⟨handle, generation, false, false⟩] }

def stop (race : MonitorRace) (handle : Nat) : MonitorRace :=
  { race with timers := race.timers.map fun timer =>
      if timer.handle = handle then { timer with stopped := true } else timer }

/-- The time of a timer is up, unless it was stopped before. -/
def wake (race : MonitorRace) (handle : Nat) : MonitorRace :=
  { race with timers := race.timers.map fun timer =>
      if timer.handle = handle ∧ timer.stopped = false then { timer with awake := true }
      else timer }

def dismiss (race : MonitorRace) (handle : Nat) : MonitorRace :=
  { race with timers := race.timers.filter (·.handle != handle) }

def carryOut (race : MonitorRace) : MonitorEffect → MonitorRace
  | .startTimer handle generation => race.start handle generation
  | .stopTimer handle => race.stop handle
  | .publish _ => race
  | .escalate escalation => { race with decided := race.decided ++ [escalation] }

def carryOutAll (race : MonitorRace) (step : Monitor × List MonitorEffect) : MonitorRace :=
  step.2.foldl carryOut { race with monitor := step.1 }

def leave (race : MonitorRace) : MonitorRace :=
  { race.carryOutAll race.monitor.exit with exits := race.exits + race.monitor.inScope.toNat }

/-- A timer that is awake reports, whether or not it was stopped since. -/
def report (race : MonitorRace) (handle : Nat) (now : Span) : MonitorRace :=
  match race.timers.find? fun timer => timer.handle = handle ∧ timer.awake with
  | some timer => (race.dismiss handle).carryOutAll (race.monitor.expire timer.generation now)
  | none => race

def step (race : MonitorRace) : Move → MonitorRace
  | .enter now => race.carryOutAll (race.monitor.enter now)
  | .exit => race.leave
  | .progress progress => race.carryOutAll (race.monitor.progress progress)
  | .wake handle => race.wake handle
  | .report handle now => race.report handle now

def run (race : MonitorRace) (moves : List Move) : MonitorRace := moves.foldl step race

/-- At some later point a report of the timer has an escalation decided, before the generation was
moved on 2^64 times. -/
def MayEscalate (race : MonitorRace) (timer : LooseTimer) : Prop :=
  ∃ later now, (race.run later).moved < UInt64.size ∧
    ((race.run later).report timer.handle now).decided ≠ (race.run later).decided

/-- The timer that the monitor holds is one that was not stopped, and has the generation of the
monitor. The generation counts how often it was moved on, and as long as it did not wrap around all
other timers are of earlier ones. -/
structure Sound (race : MonitorRace) : Prop where
  distinct : (race.timers.map LooseTimer.handle).Nodup
  numbered : ∀ timer ∈ race.timers, timer.handle ≤ race.monitor.spawned
  inScope : race.monitor.timer.isSome = true → race.monitor.inScope = true
  held : ∀ handle, race.monitor.timer = some handle → ∃ timer ∈ race.timers,
    timer.handle = handle ∧ timer.generation = race.monitor.generation ∧ timer.stopped = false
  counted : race.monitor.generation = UInt64.ofNat race.moved
  outdated : race.moved < UInt64.size → ∀ timer ∈ race.timers,
    race.monitor.timer ≠ some timer.handle →
      ∃ moment < race.moved, timer.generation = UInt64.ofNat moment

variable {race : MonitorRace}

/-- What a timer is told by, whatever became of it. -/
def identities (race : MonitorRace) : List (Nat × UInt64) :=
  race.timers.map fun timer => (timer.handle, timer.generation)

@[simp]
theorem identities_stop (race : MonitorRace) (handle : Nat) :
    (race.stop handle).identities = race.identities := by
  simp only [identities, stop, List.map_map]
  apply List.map_congr_left
  intro timer member
  by_cases same : timer.handle = handle <;> simp [same]

@[simp]
theorem identities_wake (race : MonitorRace) (handle : Nat) :
    (race.wake handle).identities = race.identities := by
  simp only [identities, wake, List.map_map]
  apply List.map_congr_left
  intro timer member
  by_cases wakes : timer.handle = handle ∧ timer.stopped = false <;> simp [wakes]

theorem map_handle_eq {after : MonitorRace} (same : after.identities = race.identities) :
    after.timers.map LooseTimer.handle = race.timers.map LooseTimer.handle := by
  have handles := congrArg (List.map Prod.fst) same
  rwa [identities, identities, List.map_map, List.map_map] at handles

theorem exists_of_identities_eq {after : MonitorRace} (same : after.identities = race.identities)
    {timer : LooseTimer} (member : timer ∈ after.timers) :
    ∃ former ∈ race.timers,
      former.handle = timer.handle ∧ former.generation = timer.generation := by
  have known : (timer.handle, timer.generation) ∈ race.identities := by
    rw [← same]
    exact List.mem_map_of_mem member
  obtain ⟨former, formerMember, alike⟩ := List.mem_map.mp known
  exact ⟨former, formerMember, Prod.mk.inj alike⟩

@[simp]
theorem carryOut_monitor (race : MonitorRace) (effect : MonitorEffect) :
    (race.carryOut effect).monitor = race.monitor := by
  cases effect <;> rfl

@[simp]
theorem carryOutAll_monitor (race : MonitorRace) (step : Monitor × List MonitorEffect) :
    (race.carryOutAll step).monitor = step.1 := by
  obtain ⟨monitor, effects⟩ := step
  have folded : ∀ race : MonitorRace, (effects.foldl carryOut race).monitor = race.monitor := by
    induction effects with
    | nil => exact fun _ => rfl
    | cons effect rest inductionHypothesis =>
        intro race
        rw [List.foldl_cons, inductionHypothesis, carryOut_monitor]
  exact folded _

theorem expire_of_stale (monitor : Monitor) {generation : UInt64}
    (stale : generation ≠ monitor.generation) (now : Span) :
    monitor.expire generation now = (monitor, []) := by
  simp [Monitor.expire, Ne.symm stale]

theorem expire_of_outside (monitor : Monitor) (outside : monitor.inScope = false)
    (generation : UInt64) (now : Span) : monitor.expire generation now = (monitor, []) := by
  simp [Monitor.expire, outside]

/-- Every timer that was started before, stopped if it is the one that the monitor holds. -/
def stopHeld (race : MonitorRace) (monitor : Monitor) : MonitorRace :=
  monitor.timer.toList.foldl stop race

@[simp]
theorem identities_stopHeld (race : MonitorRace) (monitor : Monitor) :
    (race.stopHeld monitor).identities = race.identities := by
  cases held : monitor.timer <;> simp [stopHeld, held]

/-- The monitor is armed anew: the timer that it held is stopped and another one started. -/
theorem carryOutAll_arm (race : MonitorRace) (monitor : Monitor) (event : Event) :
    let handle := monitor.spawned + 1
    let generation := monitor.generation + 1
    race.carryOutAll (monitor.arm.1, monitor.arm.2 ++ [.publish event]) =
      ⟨{ monitor with timer := some handle, spawned := handle, generation },
        (race.stopHeld monitor).timers ++ [⟨handle, generation, false, false⟩], race.decided,
        race.exits⟩ := by
  cases held : monitor.timer <;>
    simp [carryOutAll, Monitor.arm, Monitor.disarm, Monitor.startTimer, held, carryOut, stopHeld,
      stop, start]

theorem leave_of_inScope (inScope : race.monitor.inScope = true) :
    race.leave =
      ⟨{ race.monitor with
          inScope := false, timer := none, generation := race.monitor.generation + 1 },
        (race.stopHeld race.monitor).timers, race.decided, race.exits + 1⟩ := by
  cases held : race.monitor.timer <;>
    simp [leave, carryOutAll, Monitor.exit, Monitor.disarm, inScope, held, carryOut, stopHeld,
      stop]

theorem leave_of_outside (outside : race.monitor.inScope = false) : race.leave = race := by
  simp [leave, carryOutAll, Monitor.exit, outside]

theorem progress_cases (monitor : Monitor) (progress : Progress) :
    monitor.progress progress = (monitor, []) ∨
      ∃ waiting event, monitor.inScope = true ∧
        monitor.progress progress =
          ({ monitor with waiting }.arm.1, { monitor with waiting }.arm.2 ++ [.publish event]) := by
  unfold Monitor.progress
  cases monitor.reading? progress with
  | none => exact Or.inl rfl
  | some waiting =>
      by_cases unchanged : !monitor.inScope || monitor.waiting = waiting
      · simp [unchanged]
      · have inScope : monitor.inScope = true := by
          cases scope : monitor.inScope <;> simp [scope] at unchanged ⊢
        simp only [unchanged]
        exact Or.inr ⟨waiting, _, inScope, rfl⟩

/-- A timer of the monitor's generation reports inside a scope. -/
theorem carryOutAll_expire (race : MonitorRace) {monitor : Monitor}
    (inScope : monitor.inScope = true) (now : Span) :
    let handle := monitor.spawned + 1
    let generation := monitor.generation + 1
    let after := race.carryOutAll (monitor.expire monitor.generation now)
    after = ⟨{ monitor with timer := some handle, spawned := handle, generation },
        race.timers ++ [⟨handle, generation, false, false⟩],
        race.decided ++ [.waiting (monitor.elapsed now)], race.exits⟩ ∨
      after = ⟨{ monitor with timer := none }, race.timers, race.decided ++ [.stuck],
        race.exits⟩ := by
  cases wait : monitor.waiting <;>
    simp [carryOutAll, Monitor.expire, Monitor.startTimer, inScope, wait, carryOut, start]

/-- A report is one of a timer that is awake. It has no effect but that the timer is gone, unless
the timer is of the monitor's generation and the monitor inside a scope. -/
theorem report_cases (race : MonitorRace) (handle : Nat) (now : Span) :
    race.report handle now = race ∨
      ∃ timer ∈ race.timers, timer.handle = handle ∧
        ((timer.generation ≠ race.monitor.generation ∨ race.monitor.inScope = false) ∧
            race.report handle now = race.dismiss handle ∨
          timer.generation = race.monitor.generation ∧ race.monitor.inScope = true ∧
            race.report handle now =
              (race.dismiss handle).carryOutAll
                (race.monitor.expire race.monitor.generation now)) := by
  unfold report
  split
  · rename_i timer found
    have isNamed : timer.handle = handle := (by simpa using List.find?_some found : _ ∧ _).1
    refine .inr ⟨timer, List.mem_of_find?_eq_some found, isNamed, ?_⟩
    by_cases current : timer.generation = race.monitor.generation
    · cases inScope : race.monitor.inScope with
      | true => exact .inr ⟨current, rfl, by rw [current]⟩
      | false =>
          rw [expire_of_outside race.monitor inScope]
          exact .inl ⟨.inr rfl, rfl⟩
    · rw [expire_of_stale race.monitor current]
      exact .inl ⟨.inl current, rfl⟩
  · exact .inl rfl

theorem UInt64_ofNat_inj {first second : Nat} (fits : first < UInt64.size)
    (alsoFits : second < UInt64.size) (same : UInt64.ofNat first = UInt64.ofNat second) :
    first = second := by
  have values := congrArg UInt64.toNat same
  rwa [UInt64.toNat_ofNat_of_lt' fits, UInt64.toNat_ofNat_of_lt' alsoFits] at values

theorem sound_ofTask (config : Config) (taskId : String) (parameters : Json) :
    (ofTask config taskId parameters).Sound := by
  constructor <;> simp [ofTask, Monitor.ofTask, moved]

/-- A monitor that was armed when all timers before were of earlier generations. -/
theorem sound_of_armed {older : List LooseTimer}
    (timers : race.timers =
      older ++ [⟨race.monitor.spawned, race.monitor.generation, false, false⟩])
    (distinct : (older.map LooseTimer.handle).Nodup)
    (numbered : ∀ timer ∈ older, timer.handle < race.monitor.spawned)
    (outdated : race.moved < UInt64.size → ∀ timer ∈ older,
      ∃ moment < race.moved, timer.generation = UInt64.ofNat moment)
    (timer : race.monitor.timer = some race.monitor.spawned)
    (inScope : race.monitor.inScope = true)
    (counted : race.monitor.generation = UInt64.ofNat race.moved) : race.Sound := by
  have member_cases : ∀ timer ∈ race.timers, timer ∈ older ∨
      timer = ⟨race.monitor.spawned, race.monitor.generation, false, false⟩ := by
    intro timer member
    rw [timers] at member
    simpa using member
  refine ⟨?_, ?_, fun _ => inScope, ?_, counted, ?_⟩
  · rw [timers, List.map_append, List.nodup_append]
    refine ⟨distinct, by simp, ?_⟩
    intro handle old other new
    obtain ⟨oldTimer, member, rfl⟩ := List.mem_map.mp old
    obtain rfl := List.mem_singleton.mp new
    exact Nat.ne_of_lt (numbered oldTimer member)
  · intro timer member
    rcases member_cases timer member with old | rfl
    · exact Nat.le_of_lt (numbered timer old)
    · exact Nat.le_refl _
  · intro handle held
    rw [timer] at held
    cases held
    exact ⟨⟨race.monitor.spawned, race.monitor.generation, false, false⟩, by simp [timers], rfl,
      rfl, rfl⟩
  · intro fits loose member notHeld
    rcases member_cases loose member with old | rfl
    · exact outdated fits loose old
    · exact absurd timer notHeld

theorem sound_of_unarmed (distinct : (race.timers.map LooseTimer.handle).Nodup)
    (numbered : ∀ timer ∈ race.timers, timer.handle ≤ race.monitor.spawned)
    (outdated : race.moved < UInt64.size → ∀ timer ∈ race.timers,
      ∃ moment < race.moved, timer.generation = UInt64.ofNat moment)
    (timer : race.monitor.timer = none)
    (counted : race.monitor.generation = UInt64.ofNat race.moved) : race.Sound :=
  ⟨distinct, numbered, by simp [timer], by simp [timer], counted,
    fun fits loose member _ => outdated fits loose member⟩

namespace Sound

theorem generation_of_held (sound : race.Sound) {timer : LooseTimer} (member : timer ∈ race.timers)
    (isHeld : race.monitor.timer = some timer.handle) :
    timer.generation = race.monitor.generation := by
  obtain ⟨held, heldMember, same, current, _⟩ := sound.held timer.handle isHeld
  rwa [List.inj_on_of_nodup_map sound.distinct heldMember member same] at current

/-- The next generation is later than that of every timer. -/
theorem exists_moment (sound : race.Sound) (fits : race.moved < UInt64.size) {timer : LooseTimer}
    (member : timer ∈ race.timers) :
    ∃ moment < race.moved + 1, timer.generation = UInt64.ofNat moment := by
  by_cases isHeld : race.monitor.timer = some timer.handle
  · have current := sound.generation_of_held member isHeld
    exact ⟨race.moved, Nat.lt_succ_self _, current.trans sound.counted⟩
  · obtain ⟨moment, before, same⟩ := sound.outdated fits timer member isHeld
    exact ⟨moment, Nat.lt_succ_of_lt before, same⟩

/-- Unless the generation wrapped around, only the timer that is held is of the monitor's. -/
theorem current_iff (sound : race.Sound) (fits : race.moved < UInt64.size) {timer : LooseTimer}
    (member : timer ∈ race.timers) :
    timer.generation = race.monitor.generation ↔ race.monitor.timer = some timer.handle := by
  constructor
  · intro current
    by_contra notHeld
    obtain ⟨moment, before, same⟩ := sound.outdated fits timer member notHeld
    rw [current, sound.counted] at same
    exact Nat.ne_of_gt before (UInt64_ofNat_inj fits (Nat.lt_trans before fits) same)
  · exact sound.generation_of_held member

theorem distinct_of_identities (sound : race.Sound) {after : MonitorRace}
    (same : after.identities = race.identities) :
    (after.timers.map LooseTimer.handle).Nodup := by
  rw [map_handle_eq same]
  exact sound.distinct

theorem numbered_of_identities (sound : race.Sound) {after : MonitorRace}
    (same : after.identities = race.identities) :
    ∀ timer ∈ after.timers, timer.handle ≤ race.monitor.spawned := by
  intro timer member
  obtain ⟨former, formerMember, handle, _⟩ := exists_of_identities_eq same member
  rw [← handle]
  exact sound.numbered former formerMember

theorem outdated_of_identities (sound : race.Sound) {after : MonitorRace}
    (same : after.identities = race.identities) (fits : race.moved < UInt64.size) :
    ∀ timer ∈ after.timers, ∃ moment < race.moved + 1, timer.generation = UInt64.ofNat moment := by
  intro timer member
  obtain ⟨former, formerMember, _, generation⟩ := exists_of_identities_eq same member
  rw [← generation]
  exact sound.exists_moment fits formerMember

theorem counted_succ (sound : race.Sound) :
    race.monitor.generation + 1 = UInt64.ofNat (race.moved + 1) := by
  rw [sound.counted, UInt64.ofNat_add]
  rfl

/-- Arming the monitor anew, whatever else of it was changed before. -/
theorem arm (sound : race.Sound) {monitor : Monitor} (inScope : monitor.inScope = true)
    (spawned : monitor.spawned = race.monitor.spawned)
    (generation : monitor.generation = race.monitor.generation) (event : Event) :
    (race.carryOutAll (monitor.arm.1, monitor.arm.2 ++ [.publish event])).Sound := by
  have kept := identities_stopHeld race monitor
  have movedOn : monitor.spawned + 1 + race.exits = race.moved + 1 := by
    rw [spawned, race.moved_start]
  rw [carryOutAll_arm]
  refine sound_of_armed rfl (sound.distinct_of_identities kept) ?_ ?_ rfl inScope ?_
  · intro timer member
    rw [spawned]
    exact Nat.lt_succ_of_le (sound.numbered_of_identities kept timer member)
  · change monitor.spawned + 1 + race.exits < UInt64.size → _
    intro fits
    rw [movedOn] at fits
    have outdated := sound.outdated_of_identities kept (Nat.lt_of_succ_lt fits)
    rwa [← movedOn] at outdated
  · change monitor.generation + 1 = UInt64.ofNat (monitor.spawned + 1 + race.exits)
    rw [movedOn, generation, sound.counted_succ]

theorem leave (sound : race.Sound) : race.leave.Sound := by
  cases inScope : race.monitor.inScope with
  | false =>
      rw [leave_of_outside inScope]
      exact sound
  | true =>
      have kept := identities_stopHeld race race.monitor
      rw [leave_of_inScope inScope]
      refine sound_of_unarmed (sound.distinct_of_identities kept)
        (sound.numbered_of_identities kept) ?_ rfl sound.counted_succ
      exact fun fits => sound.outdated_of_identities kept (Nat.lt_of_succ_lt fits)

theorem progress (sound : race.Sound) (progress : Progress) :
    (race.carryOutAll (race.monitor.progress progress)).Sound := by
  rcases progress_cases race.monitor progress with unmoved | ⟨waiting, event, inScope, armed⟩
  · rw [unmoved]
    exact sound
  · have stillInScope : { race.monitor with waiting }.inScope = true := inScope
    rw [armed]
    exact sound.arm stillInScope rfl rfl event

theorem wake (sound : race.Sound) (handle : Nat) : (race.wake handle).Sound := by
  have kept := identities_wake race handle
  refine ⟨sound.distinct_of_identities kept, sound.numbered_of_identities kept, sound.inScope, ?_,
    sound.counted, ?_⟩
  · intro other isHeld
    obtain ⟨timer, member, named, current, running⟩ := sound.held other isHeld
    refine ⟨_, List.mem_map_of_mem member, ?_⟩
    by_cases wakes : timer.handle = handle ∧ timer.stopped = false
    · rw [if_pos wakes]
      exact ⟨named, current, running⟩
    · rw [if_neg wakes]
      exact ⟨named, current, running⟩
  · intro fits timer member notHeld
    obtain ⟨former, formerMember, named, generation⟩ := exists_of_identities_eq kept member
    rw [← named] at notHeld
    rw [← generation]
    exact sound.outdated fits former formerMember notHeld

/-- A timer that the monitor does not hold is gone without effect. -/
theorem dismiss (sound : race.Sound) {handle : Nat} (notHeld : race.monitor.timer ≠ some handle) :
    (race.dismiss handle).Sound := by
  refine ⟨sound.distinct.sublist (List.filter_sublist.map _),
    fun timer member => sound.numbered timer (List.mem_filter.mp member).1, sound.inScope, ?_,
    sound.counted,
    fun fits timer member => sound.outdated fits timer (List.mem_filter.mp member).1⟩
  intro other isHeld
  obtain ⟨timer, member, named, rest⟩ := sound.held other isHeld
  refine ⟨timer, List.mem_filter.mpr ⟨member, ?_⟩, named, rest⟩
  rw [named, bne_iff_ne]
  rintro rfl
  exact notHeld isHeld

theorem report_current (sound : race.Sound) {timer : LooseTimer} (member : timer ∈ race.timers)
    (current : timer.generation = race.monitor.generation) (inScope : race.monitor.inScope = true)
    (now : Span) :
    ((race.dismiss timer.handle).carryOutAll
      (race.monitor.expire race.monitor.generation now)).Sound := by
  have kept : ∀ other ∈ (race.dismiss timer.handle).timers,
      other ∈ race.timers ∧ other.handle ≠ timer.handle := by
    intro other member
    obtain ⟨known, different⟩ := List.mem_filter.mp member
    exact ⟨known, by simpa using different⟩
  have distinct : ((race.dismiss timer.handle).timers.map LooseTimer.handle).Nodup :=
    sound.distinct.sublist (List.filter_sublist.map _)
  rcases carryOutAll_expire (race.dismiss timer.handle) inScope now with prolonged | gaveUp
  · rw [prolonged]
    refine sound_of_armed rfl distinct ?_ ?_ rfl inScope ?_
    · exact fun other member => Nat.lt_succ_of_le (sound.numbered other (kept other member).1)
    · change race.monitor.spawned + 1 + race.exits < UInt64.size → _
      rw [race.moved_start]
      intro fits other member
      have earlier := sound.exists_moment (Nat.lt_of_succ_lt fits) (kept other member).1
      rwa [← race.moved_start] at earlier
    · change race.monitor.generation + 1 = UInt64.ofNat (race.monitor.spawned + 1 + race.exits)
      rw [race.moved_start, sound.counted_succ]
  · rw [gaveUp]
    refine sound_of_unarmed distinct
      (fun other member => sound.numbered other (kept other member).1) ?_ rfl sound.counted
    intro fits other member
    obtain ⟨known, different⟩ := kept other member
    refine sound.outdated fits other known ?_
    rw [(sound.current_iff fits ‹timer ∈ race.timers›).mp current]
    exact fun same => different (Option.some.inj same).symm

theorem report (sound : race.Sound) (handle : Nat) (now : Span) :
    (race.report handle now).Sound := by
  rcases race.report_cases handle now with unmoved | ⟨timer, member, rfl, ignored | counts⟩
  · rw [unmoved]
    exact sound
  · obtain ⟨stale, reported⟩ := ignored
    rw [reported]
    refine sound.dismiss fun isHeld => ?_
    rcases stale with older | outside
    · exact older (sound.generation_of_held member isHeld)
    · have inScope := sound.inScope (by simp [isHeld])
      rw [outside] at inScope
      cases inScope
  · obtain ⟨current, inScope, reported⟩ := counts
    rw [reported]
    exact sound.report_current member current inScope now

theorem step (sound : race.Sound) (move : Move) : (race.step move).Sound := by
  cases move with
  | enter now =>
      have inScope : { race.monitor with
          inScope := true, waiting := false, started := some now }.inScope = true := rfl
      exact sound.arm inScope rfl rfl _
  | exit => exact sound.leave
  | progress notification => exact sound.progress notification
  | wake handle => exact sound.wake handle
  | report handle now => exact sound.report handle now

theorem run (sound : race.Sound) (moves : List Move) : (race.run moves).Sound := by
  induction moves generalizing race with
  | nil => exact sound
  | cons move later inductionHypothesis => exact inductionHypothesis (sound.step move)

end Sound

/-- The numbers of timers and the generation only grow, and a timer is never taken for another. -/
structure Follows (before after : MonitorRace) : Prop where
  spawned : before.monitor.spawned ≤ after.monitor.spawned
  moved : before.moved ≤ after.moved
  timers : ∀ timer ∈ after.timers, before.monitor.spawned < timer.handle ∨
    ∃ former ∈ before.timers,
      former.handle = timer.handle ∧ former.generation = timer.generation

namespace Follows

variable {before middle after : MonitorRace}

theorem refl (race : MonitorRace) : Follows race race :=
  ⟨Nat.le_refl _, Nat.le_refl _, fun timer member => .inr ⟨timer, member, rfl, rfl⟩⟩

theorem trans (earlier : Follows before middle) (later : Follows middle after) :
    Follows before after := by
  refine ⟨Nat.le_trans earlier.spawned later.spawned, Nat.le_trans earlier.moved later.moved, ?_⟩
  intro timer member
  rcases later.timers timer member with fresh | ⟨former, formerMember, handle, generation⟩
  · exact .inl (Nat.lt_of_le_of_lt earlier.spawned fresh)
  · rw [← handle, ← generation]
    exact earlier.timers former formerMember

theorem of_identities (same : after.identities = before.identities)
    (spawned : before.monitor.spawned ≤ after.monitor.spawned)
    (exits : before.exits ≤ after.exits) : Follows before after :=
  ⟨spawned, Nat.add_le_add spawned exits,
    fun _ member => .inr (exists_of_identities_eq same member)⟩

/-- A timer was started after those that are left. -/
theorem of_started {older : List LooseTimer} {newest : LooseTimer}
    (timers : after.timers = older ++ [newest])
    (known : ∀ timer ∈ older, ∃ former ∈ before.timers,
      former.handle = timer.handle ∧ former.generation = timer.generation)
    (fresh : before.monitor.spawned < newest.handle)
    (spawned : before.monitor.spawned ≤ after.monitor.spawned)
    (exits : before.exits ≤ after.exits) : Follows before after := by
  refine ⟨spawned, Nat.add_le_add spawned exits, fun timer member => ?_⟩
  rw [timers] at member
  rcases List.mem_append.mp member with old | isNewest
  · exact .inr (known timer old)
  · obtain rfl := List.mem_singleton.mp isNewest
    exact .inl fresh

theorem arm (race : MonitorRace) {monitor : Monitor}
    (spawned : monitor.spawned = race.monitor.spawned) (event : Event) :
    Follows race (race.carryOutAll (monitor.arm.1, monitor.arm.2 ++ [.publish event])) := by
  rw [carryOutAll_arm]
  refine of_started rfl (fun timer => exists_of_identities_eq (identities_stopHeld race monitor))
    ?_ ?_ (Nat.le_refl _)
  · exact spawned ▸ Nat.lt_succ_self _
  · exact spawned ▸ Nat.le_succ _

theorem dismiss (race : MonitorRace) (handle : Nat) : Follows race (race.dismiss handle) :=
  ⟨Nat.le_refl _, Nat.le_refl _,
    fun timer member => .inr ⟨timer, (List.mem_filter.mp member).1, rfl, rfl⟩⟩

theorem report (race : MonitorRace) (handle : Nat) (now : Span) :
    Follows race (race.report handle now) := by
  rcases race.report_cases handle now with unmoved | ⟨timer, _, _, ignored | counts⟩
  · rw [unmoved]
    exact refl race
  · rw [ignored.2]
    exact dismiss race handle
  · obtain ⟨_, inScope, reported⟩ := counts
    rw [reported]
    refine (dismiss race handle).trans ?_
    rcases carryOutAll_expire (race.dismiss handle) inScope now with prolonged | gaveUp
    · rw [prolonged]
      exact of_started rfl (fun timer member => ⟨timer, member, rfl, rfl⟩) (Nat.lt_succ_self _)
        (Nat.le_succ _) (Nat.le_refl _)
    · rw [gaveUp]
      exact of_identities rfl (Nat.le_refl _) (Nat.le_refl _)

theorem step (race : MonitorRace) (move : Move) : Follows race (race.step move) := by
  cases move with
  | enter now =>
      have entered : { race.monitor with
          inScope := true, waiting := false, started := some now }.spawned =
            race.monitor.spawned := rfl
      exact arm race entered _
  | exit =>
      rw [MonitorRace.step]
      cases inScope : race.monitor.inScope with
      | false =>
          rw [leave_of_outside inScope]
          exact refl race
      | true =>
          rw [leave_of_inScope inScope]
          exact of_identities (identities_stopHeld race race.monitor) (Nat.le_refl _)
            (Nat.le_succ _)
  | progress notification =>
      rw [MonitorRace.step]
      rcases progress_cases race.monitor notification with unmoved | ⟨waiting, event, _, armed⟩
      · rw [unmoved]
        exact refl race
      · rw [armed]
        have told : { race.monitor with waiting }.spawned = race.monitor.spawned := rfl
        exact arm race told event
  | wake handle =>
      exact of_identities (identities_wake race handle) (Nat.le_refl _) (Nat.le_refl _)
  | report handle now => exact report race handle now

theorem run (race : MonitorRace) (moves : List Move) : Follows race (race.run moves) := by
  induction moves generalizing race with
  | nil => exact refl race
  | cons move later inductionHypothesis =>
      exact (step race move).trans (inductionHypothesis (race.step move))

end Follows

namespace Sound

variable {timer : LooseTimer}

theorem report_eq (sound : race.Sound) (member : timer ∈ race.timers) (awake : timer.awake = true)
    (now : Span) :
    race.report timer.handle now = (race.dismiss timer.handle).carryOutAll
      (race.monitor.expire timer.generation now) := by
  cases found : race.timers.find? fun loose => loose.handle = timer.handle ∧ loose.awake with
  | none => exact absurd (by simpa using awake) (List.find?_eq_none.mp found timer member)
  | some other =>
      have named : other.handle = timer.handle :=
        (by simpa using List.find?_some found : _ ∧ _).1
      have same := List.inj_on_of_nodup_map sound.distinct (List.mem_of_find?_eq_some found)
        member named
      rw [MonitorRace.report, found, same]

/-- The timer that is held can wake and report at once. -/
theorem mayEscalate (sound : race.Sound) (fits : race.moved < UInt64.size)
    (isHeld : race.monitor.timer = some timer.handle) : race.MayEscalate timer := by
  have inScope := sound.inScope (by simp [isHeld])
  obtain ⟨⟨_, _, awake, _⟩, member, rfl, rfl, rfl⟩ := sound.held timer.handle isHeld
  have wakes : ⟨timer.handle, race.monitor.generation, true, false⟩ ∈
      (race.wake timer.handle).timers :=
    List.mem_map.mpr ⟨_, member, if_pos ⟨rfl, rfl⟩⟩
  have reported : (race.wake timer.handle).report timer.handle 0 =
      ((race.wake timer.handle).dismiss timer.handle).carryOutAll
        (race.monitor.expire race.monitor.generation 0) :=
    (sound.wake timer.handle).report_eq wakes rfl 0
  refine ⟨[.wake timer.handle], 0, fits, ?_⟩
  change ((race.wake timer.handle).report timer.handle 0).decided ≠ race.decided
  rw [reported]
  rcases carryOutAll_expire ((race.wake timer.handle).dismiss timer.handle) inScope 0 with
    prolonged | gaveUp
  · rw [prolonged]
    simp [MonitorRace.dismiss, MonitorRace.wake]
  · rw [gaveUp]
    simp [MonitorRace.dismiss, MonitorRace.wake]

/-- A timer of an earlier generation is of an earlier one for good. -/
theorem not_mayEscalate (sound : race.Sound) (member : timer ∈ race.timers)
    (notHeld : race.monitor.timer ≠ some timer.handle) : ¬ race.MayEscalate timer := by
  rintro ⟨later, now, fits, escalated⟩
  have follows := Follows.run race later
  rcases (race.run later).report_cases timer.handle now with
    unmoved | ⟨other, otherMember, named, ignored | counts⟩
  · exact escalated (congrArg decided unmoved)
  · rw [ignored.2] at escalated
    exact escalated rfl
  · obtain ⟨former, formerMember, formerNamed, generation⟩ :=
      (follows.timers other otherMember).resolve_left
        (Nat.not_lt.mpr (named ▸ sound.numbered timer member))
    obtain rfl := List.inj_on_of_nodup_map sound.distinct formerMember member
      (formerNamed.trans named)
    obtain ⟨moment, before, same⟩ :=
      sound.outdated (Nat.lt_of_le_of_lt follows.moved fits) former member notHeld
    rw [generation, counts.1, (sound.run later).counted] at same
    have earlier := Nat.lt_of_lt_of_le before follows.moved
    exact Nat.ne_of_gt earlier (UInt64_ofNat_inj fits (Nat.lt_trans earlier fits) same)

theorem mayEscalate_iff (sound : race.Sound) (fits : race.moved < UInt64.size)
    (member : timer ∈ race.timers) :
    race.MayEscalate timer ↔ timer.generation = race.monitor.generation := by
  rw [sound.current_iff fits member]
  constructor
  · intro may
    by_contra notHeld
    exact sound.not_mayEscalate member notHeld may
  · exact sound.mayEscalate fits

theorem exists_held_iff (sound : race.Sound) :
    (∃ timer ∈ race.timers, race.monitor.timer = some timer.handle) ↔
      race.monitor.phase ≠ .idle := by
  constructor
  · rintro ⟨timer, member, held⟩
    cases wait : race.monitor.waiting <;> simp [Monitor.phase, held, wait]
  · intro busy
    cases held : race.monitor.timer with
    | none => simp [Monitor.phase, held] at busy
    | some handle =>
        obtain ⟨timer, member, rfl, _⟩ := sound.held handle held
        exact ⟨timer, member, rfl⟩

end Sound

/-- However the timers race with the monitor, as long as it started fewer than 2^64 timers and left
scopes together it holds one only inside a scope. Of the timers that have not reported, the one
whose generation is the monitor's is the only one that may still have an escalation decided, and
there is one exactly if the monitor is not idle. A report of any other leaves the monitor as it is
and has no effect. -/
theorem one_live_timer (config : Config) (taskId : String) (parameters : Json)
    (moves : List Move) (fits : ((ofTask config taskId parameters).run moves).moved < UInt64.size) :
    let race := (ofTask config taskId parameters).run moves
    (race.monitor.timer.isSome = true → race.monitor.inScope = true) ∧
      (∀ timer ∈ race.timers,
        race.MayEscalate timer ↔ timer.generation = race.monitor.generation) ∧
      (∀ timer ∈ race.timers, ∀ other ∈ race.timers,
        race.MayEscalate timer → race.MayEscalate other → timer = other) ∧
      ((∃ timer ∈ race.timers, race.MayEscalate timer) ↔ race.monitor.phase ≠ .idle) ∧
      (∀ timer ∈ race.timers, ¬ race.MayEscalate timer →
        ∀ now, race.monitor.expire timer.generation now = (race.monitor, [])) := by
  intro race
  have sound : race.Sound := (sound_ofTask config taskId parameters).run moves
  have held_of_may : ∀ timer ∈ race.timers, race.MayEscalate timer →
      race.monitor.timer = some timer.handle := by
    intro timer member may
    exact (sound.current_iff fits member).mp ((sound.mayEscalate_iff fits member).mp may)
  refine ⟨sound.inScope, fun timer => sound.mayEscalate_iff fits, ?_, ?_, ?_⟩
  · intro timer member other otherMember may otherMay
    have held := held_of_may timer member may
    rw [held_of_may other otherMember otherMay] at held
    exact List.inj_on_of_nodup_map sound.distinct member otherMember (Option.some.inj held).symm
  · rw [← sound.exists_held_iff]
    constructor
    · rintro ⟨timer, member, may⟩
      exact ⟨timer, member, held_of_may timer member may⟩
    · rintro ⟨timer, member, held⟩
      exact ⟨timer, member, sound.mayEscalate fits held⟩
  · intro timer member never now
    apply expire_of_stale
    exact fun current => never ((sound.mayEscalate_iff fits member).mpr current)

/-- A timer is awake when the scope is entered again, and another one is started. Only the latter
may have an escalation decided. -/
theorem live_timer_of_second_entry :
    let race := (ofTask .standard "scan" .null).run [.enter 0, .wake 1, .enter 7]
    race.timers = [⟨1, 1, true, true⟩, ⟨2, 2, false, false⟩] ∧
      race.MayEscalate ⟨2, 2, false, false⟩ ∧ ¬ race.MayEscalate ⟨1, 1, true, true⟩ ∧
        ∀ now, race.monitor.expire 1 now = (race.monitor, []) := by
  intro race
  have timers : race.timers = [⟨1, 1, true, true⟩, ⟨2, 2, false, false⟩] := by decide
  obtain ⟨_, newest, _, _, ignored⟩ :=
    one_live_timer .standard "scan" .null [.enter 0, .wake 1, .enter 7] (by decide)
  have replaced : ¬ race.MayEscalate ⟨1, 1, true, true⟩ := by
    rw [newest _ (timers ▸ List.mem_cons_self)]
    decide
  refine ⟨timers, ?_, replaced, ignored _ (timers ▸ List.mem_cons_self) replaced⟩
  exact (newest _ (timers ▸ .tail _ List.mem_cons_self)).mpr (by decide)

/-- The scope is entered and left so many times. -/
def rounds : Nat → List Move
  | 0 => []
  | more + 1 => .enter 0 :: .exit :: rounds more

theorem mem_stop {timer : LooseTimer} (member : timer ∈ race.timers)
    (stopped : timer.stopped = true) (handle : Nat) : timer ∈ (race.stop handle).timers := by
  refine List.mem_map.mpr ⟨timer, member, ?_⟩
  split
  · obtain ⟨number, generation, awake, _⟩ := timer
    obtain rfl := stopped
    rfl
  · rfl

theorem mem_stopHeld {timer : LooseTimer} (member : timer ∈ race.timers)
    (stopped : timer.stopped = true) (monitor : Monitor) :
    timer ∈ (race.stopHeld monitor).timers := by
  cases held : monitor.timer with
  | none => simpa [stopHeld, held] using member
  | some handle => simpa [stopHeld, held] using mem_stop member stopped handle

/-- A round moves the generation on twice, and a timer that was stopped is left as it is. -/
theorem run_round (race : MonitorRace) :
    let after := race.run [.enter 0, .exit]
    after.monitor.spawned = race.monitor.spawned + 1 ∧ after.exits = race.exits + 1 ∧
      after.decided = race.decided ∧
      ∀ timer ∈ race.timers, timer.stopped = true → timer ∈ after.timers := by
  have entered : race.step (.enter 0) = _ := carryOutAll_arm race
    { race.monitor with inScope := true, waiting := false, started := some 0 } _
  have left : (race.step (.enter 0)).step .exit = _ :=
    leave_of_inScope (congrArg (·.monitor.inScope) entered)
  have ran : race.run [.enter 0, .exit] = _ := left
  dsimp only
  rw [ran, entered]
  refine ⟨rfl, rfl, rfl, fun timer member stopped => ?_⟩
  exact mem_stopHeld (List.mem_append_left _ (mem_stopHeld member stopped _)) stopped _

theorem run_rounds (count : Nat) (race : MonitorRace) :
    let after := race.run (rounds count)
    after.monitor.spawned = race.monitor.spawned + count ∧ after.exits = race.exits + count ∧
      after.decided = race.decided ∧
      ∀ timer ∈ race.timers, timer.stopped = true → timer ∈ after.timers := by
  induction count generalizing race with
  | zero => exact ⟨rfl, rfl, rfl, fun _ member _ => member⟩
  | succ more inductionHypothesis =>
      obtain ⟨spawned, exits, decided, kept⟩ := race.run_round
      obtain ⟨laterSpawned, laterExits, laterDecided, laterKept⟩ :=
        inductionHypothesis (race.run [.enter 0, .exit])
      refine ⟨?_, ?_, laterDecided.trans decided, fun timer member stopped => ?_⟩
      · rw [spawned] at laterSpawned
        exact laterSpawned.trans (by omega)
      · rw [exits] at laterExits
        exact laterExits.trans (by omega)
      · exact laterKept timer (kept timer member stopped) stopped

/-- A stopped timer that is awake reports after the next entry. If the generation of the monitor
is that of the timer again, the task is given up and the monitor holds no timer any more. -/
theorem Sound.report_of_recurrence (sound : race.Sound) {timer : LooseTimer}
    (member : timer ∈ race.timers) (awake : timer.awake = true) (stopped : timer.stopped = true)
    (recurs : timer.generation = UInt64.ofNat (race.moved + 1)) :
    let next := race.step (.enter 0)
    timer ∈ next.timers ∧ next.monitor.spawned = race.monitor.spawned + 1 ∧
      next.monitor.timer = some (race.monitor.spawned + 1) ∧ next.decided = race.decided ∧
      (next.report timer.handle 0).decided = race.decided ++ [.stuck] ∧
      (next.report timer.handle 0).monitor.timer = none := by
  intro next
  have entered : next = _ := carryOutAll_arm race
    { race.monitor with inScope := true, waiting := false, started := some 0 } _
  have remains : timer ∈ next.timers := by
    rw [entered]
    exact List.mem_append_left _ (mem_stopHeld member stopped _)
  have current : next.monitor.generation = timer.generation := by
    rw [recurs, ← sound.counted_succ, entered]
  have givenUp : next.monitor.expire timer.generation 0 =
      ({ next.monitor with timer := none }, [.escalate .stuck]) := by
    rw [← current, entered]
    simp [Monitor.expire]
  have undecided : next.decided = race.decided := by rw [entered]
  have reported := (sound.step (.enter 0)).report_eq remains awake 0
  change next.report timer.handle 0 = _ at reported
  rw [reported, givenUp]
  refine ⟨remains, by rw [entered], by rw [entered], undecided, ?_, rfl⟩
  change next.decided ++ [.stuck] = _
  rw [undecided]

/-- A timer is awake when its scope is left, and so many scopes are entered and left before the
next one. It reports when the generation is again what it was at first. -/
theorem report_after_rounds (count : Nat) (recurs : UInt64.ofNat (2 * count + 3) = 1) :
    let race := (ofTask .standard "scan" .null).run
      ([.enter 0, .wake 1, .exit] ++ rounds count ++ [.enter 0])
    ⟨1, 1, true, true⟩ ∈ race.timers ∧ race.monitor.spawned = count + 2 ∧
      race.monitor.timer = some (count + 2) ∧ race.decided = [] ∧
      (race.report 1 0).decided = [.stuck] ∧ (race.report 1 0).monitor.timer = none := by
  intro race
  obtain ⟨spawned, exits, decided, kept⟩ :=
    run_rounds count ((ofTask .standard "scan" .null).run [.enter 0, .wake 1, .exit])
  have sound := ((sound_ofTask .standard "scan" .null).run [.enter 0, .wake 1, .exit]).run
    (rounds count)
  have stale := kept ⟨1, 1, true, true⟩ (by decide) rfl
  have ran : race = (((ofTask .standard "scan" .null).run [.enter 0, .wake 1, .exit]).run
      (rounds count)).step (.enter 0) := by
    simp only [race, run, List.foldl_append, List.foldl_cons, List.foldl_nil]
  generalize ((ofTask .standard "scan" .null).run [.enter 0, .wake 1, .exit]).run
    (rounds count) = left at spawned exits decided sound stale ran
  have oneSpawned : left.monitor.spawned = 1 + count := spawned
  have oneLeft : left.exits = 1 + count := exits
  have moved : left.moved + 1 = 2 * count + 3 := by
    rw [MonitorRace.moved, oneSpawned, oneLeft]
    omega
  have next : left.monitor.spawned + 1 = count + 2 := by omega
  obtain ⟨remains, started, held, undecided, givenUp, unheld⟩ :=
    sound.report_of_recurrence stale rfl rfl (by rw [moved, recurs])
  rw [← ran] at remains started held undecided givenUp unheld
  rw [next] at started held
  rw [decided] at undecided givenUp
  exact ⟨remains, started, held, undecided, givenUp, unheld⟩

/-- A timer is awake when its scope is left, and 2^63 more are started, one in each of the scopes
that follow. The generation is then what it was at first, so that the report of the first timer
counts: the task is given up, and the timer that the monitor held is not held any more. -/
theorem replaced_timer_escalates :
    let race := (ofTask .standard "scan" .null).run
      ([.enter 0, .wake 1, .exit] ++ rounds 9223372036854775807 ++ [.enter 0])
    race.monitor.spawned < UInt64.size ∧
      ∃ timer ∈ race.timers, timer.stopped = true ∧ race.monitor.timer.isSome = true ∧
        race.monitor.timer ≠ some timer.handle ∧
        race.decided = [] ∧ (race.report timer.handle 0).decided = [.stuck] ∧
        (race.report timer.handle 0).monitor.timer = none := by
  obtain ⟨remains, started, held, undecided, givenUp, unheld⟩ :=
    report_after_rounds 9223372036854775807 (by simp)
  refine ⟨Nat.lt_of_le_of_lt (Nat.le_of_eq started) (by decide), ⟨1, 1, true, true⟩, remains,
    rfl, Option.isSome_of_eq_some held, ?_⟩
  dsimp only
  exact ⟨fun first => absurd (held.symm.trans first) (by decide), undecided, givenUp, unheld⟩

end MonitorRace

end PlanSupervision
