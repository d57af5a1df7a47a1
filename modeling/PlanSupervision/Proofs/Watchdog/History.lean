import Mathlib.Data.List.DropRight
import PlanSupervision.Watchdog

/-!
A watchdog that is used through several handles. What one of them does is seen through all the
others, so that the answers are the same through each: they are told from the last reset and
the last arming since the watchdog was disarmed, and from nothing else.
-/

namespace PlanSupervision

inductive WatchdogAct where
  | arm
  | reset
  | disarm
  /-- Another handle is made of this one. -/
  | clone
deriving DecidableEq

/-- An act at an instant, through one of the handles. -/
structure WatchdogUse where
  instant : Span
  handle : Nat
  act : WatchdogAct

namespace WatchdogUse

/-- The instant of the last act of a kind since the watchdog was disarmed. -/
def last? (act : WatchdogAct) (history : List WatchdogUse) : Option Span :=
  ((history.rtakeWhile (·.act ≠ .disarm)).filter (·.act = act)).getLast?.map instant

def clones (history : List WatchdogUse) : Nat := history.countP (·.act = .clone)

/-- Every act goes through a handle that exists by then, of so many at first. -/
def Held (handles : Nat) : List WatchdogUse → Prop
  | [] => True
  | use :: later =>
      use.handle < handles ∧ Held (if use.act = .clone then handles + 1 else handles) later

theorem last?_concat (act : WatchdogAct) (history : List WatchdogUse) (use : WatchdogUse) :
    last? act (history ++ [use]) =
      if use.act = .disarm then none
      else if use.act = act then some use.instant else last? act history := by
  by_cases ends : use.act = .disarm
  · rw [last?, List.rtakeWhile_concat_neg _ _ _ (by simp [ends]), if_pos ends]
    rfl
  · rw [last?, List.rtakeWhile_concat_pos _ _ _ (by simp [ends]), List.filter_append, if_neg ends]
    by_cases same : use.act = act
    · simp [same]
    · simp [same, last?]

end WatchdogUse

/-- The handles on one watchdog, each with the window that it carries. All else they share. -/
structure WatchdogHandles where
  windows : List Span
  deadline : Option Span
  armedAt : Option Span

namespace WatchdogHandles

open WatchdogUse

def ofWatchdog (watchdog : Watchdog) : WatchdogHandles :=
  ⟨[watchdog.window], watchdog.deadline, watchdog.armedAt⟩

/-- The watchdog as each of the handles shows it. -/
def shown (handles : WatchdogHandles) : List Watchdog :=
  handles.windows.map fun window => ⟨window, handles.deadline, handles.armedAt⟩

def share (handles : WatchdogHandles) (watchdog : Watchdog) : WatchdogHandles :=
  { handles with deadline := watchdog.deadline, armedAt := watchdog.armedAt }

def perform (handles : WatchdogHandles) (watchdog : Watchdog) (now : Span) :
    WatchdogAct → WatchdogHandles
  | .arm => handles.share (watchdog.arm now)
  | .reset => handles.share (watchdog.reset now)
  | .disarm => handles.share watchdog.disarm
  | .clone => { handles with windows := handles.windows ++ [watchdog.window] }

def use? (handles : WatchdogHandles) (use : WatchdogUse) : Option WatchdogHandles :=
  handles.shown[use.handle]?.map fun watchdog => handles.perform watchdog use.instant use.act

/-- Use the handles as a history says; one that does not exist cannot be used. -/
def run? (handles : WatchdogHandles) (history : List WatchdogUse) : Option WatchdogHandles :=
  history.foldlM use? handles

/-- The handles are as a history that begins with one handle of an unused watchdog leaves them. -/
structure Tells (window : Span) (history : List WatchdogUse) (handles : WatchdogHandles) :
    Prop where
  windows : handles.windows = List.replicate (clones history + 1) window
  armedAt : handles.armedAt = last? .arm history
  deadline : handles.deadline = (last? .reset history).map (· + window)

variable {window : Span} {history : List WatchdogUse} {handles : WatchdogHandles}

theorem tells_ofWindow (window : Span) :
    (ofWatchdog (.ofWindow window)).Tells window [] := ⟨rfl, rfl, rfl⟩

theorem Tells.shown_eq (tells : handles.Tells window history) :
    handles.shown = List.replicate (clones history + 1)
      ⟨window, (last? .reset history).map (· + window), last? .arm history⟩ := by
  rw [shown, tells.windows, tells.deadline, tells.armedAt, List.map_replicate]

theorem Tells.use (tells : handles.Tells window history) {use : WatchdogUse}
    (exists_handle : use.handle < clones history + 1) :
    ∃ after, handles.use? use = some after ∧ after.Tells window (history ++ [use]) := by
  have found : handles.shown[use.handle]? =
      some ⟨window, (last? .reset history).map (· + window), last? .arm history⟩ := by
    rw [tells.shown_eq, List.getElem?_replicate_of_lt exists_handle]
  obtain ⟨windows, armedAt, deadline⟩ := tells
  refine ⟨_, by rw [use?, found]; rfl, ?_⟩
  obtain ⟨now, handle, act⟩ := use
  cases act with
  | arm | reset | disarm =>
      constructor <;>
        simp [perform, share, Watchdog.arm, Watchdog.reset, Watchdog.disarm, last?_concat, clones,
          windows]
  | clone =>
      constructor
      · simp [perform, clones, windows, List.replicate_succ']
      · simp [perform, last?_concat, armedAt]
      · simp [perform, last?_concat, deadline]

theorem Tells.run (tells : handles.Tells window history) {later : List WatchdogUse}
    (held : Held (clones history + 1) later) :
    ∃ after, handles.run? later = some after ∧ after.Tells window (history ++ later) := by
  induction later generalizing handles history with
  | nil => exact ⟨handles, rfl, by rwa [List.append_nil]⟩
  | cons use later inductionHypothesis =>
      obtain ⟨exists_handle, held⟩ := held
      obtain ⟨middle, used, tells⟩ := tells.use exists_handle
      have counted : clones (history ++ [use]) + 1 =
          if use.act = .clone then clones history + 1 + 1 else clones history + 1 := by
        by_cases isClone : use.act = .clone <;> simp [clones, isClone]
      rw [← counted] at held
      obtain ⟨after, ran, tells⟩ := inductionHypothesis tells held
      refine ⟨after, ?_, ?_⟩
      · rw [run?, List.foldlM_cons, used]
        exact ran
      · rwa [List.append_assoc] at tells

/-- Whatever is done to a watchdog and through whichever handles, all of them show the same. The
deadline is a window after the last reset since the watchdog was disarmed, whether that came
before the arming or after it and however many came before it. Without an arming since then the
watchdog is disarmed; else it is alive up to the deadline, or pending up to a window after the
arming if there is none, and expired later. -/
theorem status_of_history (window : Span) {history : List WatchdogUse} (held : Held 1 history) :
    ∃ handles, (ofWatchdog (.ofWindow window)).run? history = some handles ∧
      handles.shown.length = clones history + 1 ∧
      ∀ watchdog ∈ handles.shown,
        watchdog.deadline = (last? .reset history).map (· + window) ∧
        ∀ now,
          (watchdog.status now = .disarmed ↔ last? .arm history = none) ∧
          ∀ armed, last? .arm history = some armed →
            match last? .reset history with
            | some reset =>
                (watchdog.status now = .alive ↔ now ≤ reset + window) ∧
                  (watchdog.status now = .expired ↔ reset + window < now)
            | none =>
                (watchdog.status now = .pending ↔ now ≤ armed + window) ∧
                  (watchdog.status now = .expired ↔ armed + window < now) := by
  obtain ⟨handles, ran, tells⟩ := (tells_ofWindow window).run held
  rw [List.nil_append] at tells
  refine ⟨handles, ran, by rw [tells.shown_eq, List.length_replicate], ?_⟩
  intro watchdog member
  rw [tells.shown_eq] at member
  obtain rfl := List.eq_of_mem_replicate member
  refine ⟨rfl, fun now => ?_⟩
  cases armed : last? .arm history with
  | none => exact ⟨⟨fun _ => rfl, fun _ => rfl⟩, fun _ unarmed => nomatch unarmed⟩
  | some instant =>
      cases last? .reset history with
      | none =>
          by_cases inTime : now ≤ instant + window
          · simp [Watchdog.status, inTime]
          · simp [Watchdog.status, inTime, Nat.not_le.mp inTime]
      | some reset =>
          by_cases inTime : now ≤ reset + window
          · simp [Watchdog.status, inTime]
          · simp [Watchdog.status, inTime, Nat.not_le.mp inTime]

/-- A reset is forgotten when another handle disarms the watchdog; the next one is kept until it
is armed again, and is seen through the handle that was made last as well. -/
theorem status_after_kept_reset :
    let history : List WatchdogUse :=
      [⟨0, 0, .clone⟩, ⟨1, 1, .reset⟩, ⟨2, 0, .arm⟩, ⟨3, 1, .disarm⟩, ⟨5, 1, .reset⟩,
       ⟨6, 0, .arm⟩, ⟨7, 1, .clone⟩]
    Held 1 history ∧
      ∃ handles, (ofWatchdog (.ofWindow 10)).run? history = some handles ∧
        handles.shown.length = 3 ∧
        ∀ watchdog ∈ handles.shown, watchdog.deadline = some 15 ∧
          watchdog.status 15 = .alive ∧ watchdog.status 16 = .expired := by
  intro history
  have held : Held 1 history := by simp [history, Held]
  obtain ⟨handles, ran, count, told⟩ := status_of_history 10 held
  refine ⟨held, handles, ran, count, fun watchdog member => ?_⟩
  obtain ⟨deadline, status⟩ := told watchdog member
  have alive := ((status 15).2 6 rfl).1
  have expired := ((status 16).2 6 rfl).2
  exact ⟨deadline, alive.mpr (by decide), expired.mpr (by decide)⟩

end WatchdogHandles

end PlanSupervision
