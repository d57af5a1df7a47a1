import PlanSupervision.Proofs.Gate.Latch
import PlanSupervision.Proofs.Supervisor.Incident

/-!
A plan that fails leaves no gate open. While a plan is executed the runs that its context has open
are those that its documents leave open; when it fails all of them are stopped, and a gate that
misses no stop is open for none of them.
-/

namespace PlanSupervision

/-- The runs that a call has open are those that the documents handed over since its execution began
leave open. None is left open when it fails. -/
def CallView.Tracks (openRuns : List String) (documents : List Document) (view : CallView) : Prop :=
  match view.phase with
  | .entering | .queued => documents = [] ∧ view.openRuns = openRuns
  | .running _ _ => view.openRuns = documents.foldl Document.track openRuns
  | .ended (.error _) => documents = [] ∨ documents.foldl Document.track openRuns = []
  | .ended (.ok _) | .dropped => True

namespace CallView.Tracks

variable {openRuns : List String} {documents more : List Document} {view later : CallView}

theorem of_unbegun (unbegun : view.phase.Unbegun) (tracks : view.Tracks openRuns documents) :
    documents = [] ∧ view.openRuns = openRuns := by
  unfold CallView.Tracks at tracks
  rcases unbegun with entering | queued
  · rw [entering] at tracks
    exact tracks
  · rw [queued] at tracks
    exact tracks

theorem of_running {course : Course} {tick : Span} (running : view.phase = .running course tick)
    (tracks : view.Tracks openRuns documents) :
    view.openRuns = documents.foldl Document.track openRuns := by
  rw [CallView.Tracks, running] at tracks
  exact tracks

theorem advances {stopping : Bool} (tracks : view.Tracks openRuns documents)
    (advances : Advances stopping view more later) : later.Tracks openRuns (documents ++ more) := by
  cases advances with
  | waits entering =>
      have former := tracks.of_unbegun (Or.inl entering)
      rw [List.append_nil]
      exact former
  | refused unbegun stops =>
      rw [List.append_nil]
      exact Or.inl (tracks.of_unbegun unbegun).1
  | works standing begins tracked closed =>
      have former : view.openRuns = documents.foldl Document.track openRuns := by
        rcases begins with ⟨unbegun, _⟩ | ⟨course, tick, running⟩
        · obtain ⟨rfl, same⟩ := tracks.of_unbegun unbegun
          exact same
        · exact tracks.of_running running
      rw [former, ← List.foldl_append] at tracked
      cases standing with
      | running course tick => exact tracked
      | ended result =>
          cases result with
          | ok value => exact trivial
          | error error => exact Or.inr (tracked.symm.trans (closed error rfl))
  | dropped unfinished => exact trivial

theorem besides {course : Course} {tick : Span} (running : view.phase = .running course tick)
    (tracks : view.Tracks openRuns documents) :
    ({ view with openRuns := more.foldl Document.track view.openRuns } : CallView).Tracks openRuns
      (documents ++ more) := by
  rw [CallView.Tracks, running, tracks.of_running running, List.foldl_append]

end CallView.Tracks

namespace Supervisor

/-- Documents are handed over only by what acts for a certain call, as long as that runs. -/
def Undisturbed (id : Nat) (supervisor : Supervisor) : Chronicle → Prop
  | [] => True
  | (now, incident) :: later =>
      let after := supervisor.occur now incident
      (supervisor.actor? incident = some id ∨
        supervisor.station.handedUntil after.station = []) ∧ Undisturbed id after later

/-- Documents were handed over from one state of a supervisor to a later one, and this call came to
this point. -/
structure Reaches (id : Nat) (documents : List Document) (before after : Supervisor)
    (view : CallView) : Prop where
  passes : before.station.Passes (fun _ => True) documents after.station
  view : after.view? id = some view

theorem Reaches.trans {id : Nat} {documents more : List Document} {before after last : Supervisor}
    {view later : CallView} (first : Reaches id documents before after view)
    (second : Reaches id more after last later) :
    Reaches id (documents ++ more) before last later :=
  ⟨first.passes.trans second.passes, second.view⟩

section Incidents

variable {supervisor after : Supervisor} {id : Nat} {view : CallView}

theorem Reaches.of_spares {allowed : Entry → Prop} {documents : List Document}
    {caller : Option Nat} (known : supervisor.view? id = some view)
    (spares : Spares allowed documents caller supervisor after) (other : caller ≠ some id) :
    Reaches id documents supervisor after view :=
  ⟨spares.station.mono fun _ _ => trivial, (spares.views id other).trans known⟩

theorem Reaches.of_relays (known : supervisor.view? id = some view)
    (relays : Relays supervisor after) : Reaches id [] supervisor after view :=
  ⟨relays.passes.mono fun _ _ => trivial, (relays.views id).trans known⟩

theorem passes_request (supervisor : Supervisor) (now : Span) (reason : String) :
    supervisor.station.Passes (fun _ => True) [] (supervisor.request now reason).station := by
  cases stopping : supervisor.stopping with
  | true =>
      rw [supervisor.request_of_stopping now stopping]
      exact .stay
  | false =>
      have closed := (supervisor.chores_request now stopping reason).spares.station
      simp only [station_publish] at closed
      have told : supervisor.station.Passes (fun _ => True) []
          (supervisor.station.publish now (requestEvent reason)) :=
        Station.Passes.stay.publish now trivial
      exact told.trans (closed.mono fun _ _ => trivial)

theorem view?_request (supervisor : Supervisor) (now : Span) (reason : String) (id : Nat) :
    (supervisor.request now reason).view? id = supervisor.view? id := by
  cases stopping : supervisor.stopping with
  | true => rw [supervisor.request_of_stopping now stopping]
  | false =>
      rw [(supervisor.chores_request now stopping reason).spares.views id nofun]
      exact (chores_wakeRelay _).spares.views id nofun

theorem Reaches.of_request (known : supervisor.view? id = some view) (now : Span)
    (reason : String) : Reaches id [] supervisor (supervisor.request now reason) view :=
  ⟨supervisor.passes_request now reason, (supervisor.view?_request now reason id).trans known⟩

theorem running_of_isRunning {call : Call} (found : supervisor.calls[id]? = some call)
    (running : supervisor.isRunning id = true) :
    ∃ course tick, call.phase = .running course tick := by
  unfold isRunning at running
  split at running
  · rename_i course tick phase
    exact ⟨course, tick, Option.some.inj ((phaseAt_faces found).symm.trans phase)⟩
  · cases running

/-- What an incident makes of a call, unless it hands over documents of others. -/
theorem exists_reaches (known : supervisor.view? id = some view) (now : Span)
    (incident : Incident) {openRuns : List String} {documents : List Document}
    (tracks : view.Tracks openRuns documents)
    (undisturbed : supervisor.actor? incident = some id ∨
      supervisor.station.handedUntil (supervisor.occur now incident).station = []) :
    ∃ more later, Reaches id more supervisor (supervisor.occur now incident) later ∧
      later.Tracks openRuns (documents ++ more) := by
  have silent : ∀ {more : List Document},
      Reaches id more supervisor (supervisor.occur now incident) view →
      (more ≠ [] → supervisor.actor? incident ≠ some id) →
      ∃ more later, Reaches id more supervisor (supervisor.occur now incident) later ∧
        later.Tracks openRuns (documents ++ more) := by
    intro more reaches others
    cases more with
    | nil =>
        refine ⟨[], view, reaches, ?_⟩
        rw [List.append_nil]
        exact tracks
    | cons document rest =>
        have handed := undisturbed.resolve_left (others (List.cons_ne_nil _ _))
        rw [reaches.passes.handedUntil_eq] at handed
        cases handed
  cases supervisor.occur_outcome now incident with
  | spares unheard still others spares =>
      apply silent (.of_spares known spares nofun)
      intro handed actor
      rw [others handed] at actor
      cases actor
  | acts unheard still actor found acts =>
      rename_i more caller call
      by_cases same : caller = id
      · subst same
        obtain ⟨later, becomes, advances⟩ := acts.advances
        obtain rfl := Option.some.inj (known.symm.trans (view?_of_call found))
        exact ⟨more, later, ⟨acts.spares.station.mono fun _ _ => trivial, becomes⟩,
          tracks.advances advances⟩
      · apply silent (.of_spares known acts.spares fun isCaller => same (Option.some.inj isCaller))
        exact fun _ isActor => same (actor id isActor).symm
  | besides unheard still actor found besides =>
      rename_i more caller call
      by_cases same : caller = id
      · subst same
        obtain rfl := Option.some.inj (known.symm.trans (view?_of_call found))
        have passes : supervisor.station.Passes (fun _ => True) more
            (supervisor.occur now incident).station :=
          besides.spares.station.mono fun _ _ => trivial
        rcases undisturbed with isActor | nothing
        · obtain ⟨course, tick, running⟩ := running_of_isRunning found (actor _ isActor).2
          exact ⟨more, _, ⟨passes, besides.view⟩, tracks.besides running⟩
        · rw [passes.handedUntil_eq] at nothing
          subst nothing
          exact silent ⟨passes, besides.view⟩ fun handed => absurd rfl handed
      · apply silent (.of_spares known besides.spares fun isCaller =>
          same (Option.some.inj isCaller))
        exact fun _ isActor => same (actor id isActor).1.symm
  | enters unheard still spares entered =>
      refine silent (.of_spares known spares fun isFresh => ?_) fun handed => absurd rfl handed
      obtain rfl := Option.some.inj isFresh
      rw [view?, List.getElem?_eq_none (Nat.le_refl _)] at known
      cases known
  | requests heard still spares =>
      rename_i reason
      have requested := Reaches.of_request known now reason
      exact silent (requested.trans (.of_spares requested.view spares nofun)) fun handed =>
        absurd rfl handed
  | relays unheard turn same =>
      rw [same] at silent ⊢
      exact silent (.of_relays known (supervisor.relays_relayFor now _)) fun handed =>
        absurd rfl handed

end Incidents

theorem passes_occur (supervisor : Supervisor) (now : Span) (incident : Incident) :
    ∃ documents, supervisor.station.Passes (fun _ => True) documents
      (supervisor.occur now incident).station := by
  cases supervisor.occur_outcome now incident with
  | spares unheard still others spares => exact ⟨_, spares.station.mono fun _ _ => trivial⟩
  | acts unheard still actor found acts => exact ⟨_, acts.spares.station.mono fun _ _ => trivial⟩
  | besides unheard still actor found besides =>
      exact ⟨_, besides.spares.station.mono fun _ _ => trivial⟩
  | enters unheard still spares entered => exact ⟨_, spares.station.mono fun _ _ => trivial⟩
  | requests heard still spares =>
      exact ⟨_, (supervisor.passes_request now _).trans (spares.station.mono fun _ _ => trivial)⟩
  | relays unheard turn same =>
      rw [same]
      exact ⟨_, (supervisor.relays_relayFor now _).passes.mono fun _ _ => trivial⟩

theorem passes_live (supervisor : Supervisor) (chronicle : Chronicle) :
    ∃ documents, supervisor.station.Passes (fun _ => True) documents
      (supervisor.live chronicle).station := by
  induction chronicle generalizing supervisor with
  | nil => exact ⟨[], .stay⟩
  | cons entry rest inductionHypothesis =>
      obtain ⟨now, incident⟩ := entry
      obtain ⟨documents, first⟩ := supervisor.passes_occur now incident
      obtain ⟨more, later⟩ := inductionHypothesis (supervisor.occur now incident)
      exact ⟨documents ++ more, first.trans later⟩

theorem exists_reaches_live {supervisor : Supervisor} {id : Nat} {view : CallView}
    (known : supervisor.view? id = some view) {chronicle : Chronicle} {openRuns : List String}
    {documents : List Document} (tracks : view.Tracks openRuns documents)
    (undisturbed : supervisor.Undisturbed id chronicle) :
    ∃ more later, Reaches id more supervisor (supervisor.live chronicle) later ∧
      later.Tracks openRuns (documents ++ more) := by
  induction chronicle generalizing supervisor view documents with
  | nil =>
      refine ⟨[], view, ⟨.stay, known⟩, ?_⟩
      rw [List.append_nil]
      exact tracks
  | cons entry rest inductionHypothesis =>
      obtain ⟨now, incident⟩ := entry
      obtain ⟨first, others⟩ := undisturbed
      obtain ⟨more, later, reaches, stillTracks⟩ := exists_reaches known now incident tracks first
      obtain ⟨latest, last, reachesLast, tracksLast⟩ :=
        inductionHypothesis reaches.view stillTracks others
      rw [List.append_assoc] at tracksLast
      exact ⟨more ++ latest, last, reaches.trans reachesLast, tracksLast⟩

theorem inOrder_live (draws : Nat → Uid) (config : Config) (listeners : List Listener)
    (subscribers : List Subscriber) (chronicle : Chronicle) :
    ((buildWith draws config listeners subscribers).live chronicle).station.observers.InOrder := by
  obtain ⟨_, passes⟩ := (buildWith draws config listeners subscribers).passes_live chronicle
  exact passes.evolves.inOrder (Observers.inOrder_ofUnnumbered listeners)

/-- A call whose plan has not begun comes to fail, and meanwhile nothing but its plan hands over
documents. A gate that is subscribed all the time, with no listener ahead that answers a stop with
a fault, is then not held open by any run that the plan opened; and if it was closed before, it is
closed again. -/
theorem failed_plan_holds_no_gate (draws : Nat → Uid) (config : Config)
    (listeners : List Listener) (subscribers : List Subscriber) (earlier during : Chronicle)
    (id index : Nat) (gate : Gate) (silent : Bool) (calls : Nat) (verdict : Verdict)
    (phase : CallPhase) (error : PlanError) :
    let before := (buildWith draws config listeners subscribers).live earlier
    let after := before.live during
    before.phase? id = some phase → phase.Unbegun → before.Undisturbed id during →
    after.phase? id = some (.ended (.error error)) →
    before.station.observers.listeners[index]? = some (.gated gate silent calls verdict) →
    gate.Sound → index ∈ after.station.observers.router.snapshot →
    before.station.observers.SparedAhead index →
    ∃ later count,
      after.station.observers.listeners[index]? = some (.gated later silent count verdict) ∧
      (∀ runUid ∈ Document.started (before.station.handedUntil after.station),
        later.activation ≠ some runUid) ∧
      (gate.isActive = false → later.isActive = false) := by
  intro before after known unbegun undisturbed failed found sound subscribed spared
  rw [phase?_eq] at known failed
  obtain ⟨view, isView, rfl⟩ := Option.map_eq_some_iff.mp known
  have fresh : view.Tracks view.openRuns [] := by
    unfold CallView.Tracks
    rcases unbegun with entering | queued
    · rw [entering]
      exact ⟨rfl, rfl⟩
    · rw [queued]
      exact ⟨rfl, rfl⟩
  obtain ⟨documents, last, ⟨passes, isLast⟩, tracks⟩ := exists_reaches_live isView fresh undisturbed
  have ended : last.phase = .ended (.error error) := by
    rw [show after.view? id = some last from isLast] at failed
    exact Option.some.inj failed
  rw [CallView.Tracks, ended, List.nil_append] at tracks
  obtain ⟨later, count, foundLater, follows⟩ :=
    passes.gate_follows (inOrder_live draws config listeners subscribers earlier) found subscribed spared
  have released : ∀ runUid ∈ Document.started documents, later.activation ≠ some runUid := by
    intro runUid started holds
    have stillOpen := follows.still_open view.openRuns holds started
    rcases tracks with nothing | closed
    · rw [nothing] at started
      cases started
    · rw [closed] at stillOpen
      cases stillOpen
  refine ⟨later, count, foundLater, ?_, fun closed => ?_⟩
  · rw [passes.handedUntil_eq]
    exact released
  · have inactive : gate.activation.isSome = false := sound.symm.trans closed
    have noRun : gate.activation = none := by simpa using inactive
    have laterSound : later.active = later.activation.isSome := follows.sound sound
    rw [Gate.isActive, laterSound]
    cases holds : later.activation with
    | none => rfl
    | some runUid => exact absurd holds (released runUid (follows.started noRun holds))

/-- A plan opens a run and fails. The handler behind the gate answers every document with a fault,
and the gate is closed again all the same. -/
theorem gate_closed_after_failure :
    let gate := Gate.closed "camera" none
    let verdict : Verdict := fun _ _ => some "busy"
    let plan : Plan := ⟨"scan", [(.openRun (.ofUid "run"), true), (.fail "lost", false)]⟩
    let origin := buildWith .counted .standard [.gated gate false 0 verdict] []
    let before := origin.live [(0, .execute plan)]
    let after := before.live [(1, .move (.turn (.call 0)))]
    after.phase? 0 = some (.ended (.error (.failed "lost"))) ∧
      Document.started (before.station.handedUntil after.station) = ["run"] ∧
      ∃ later count, after.station.observers.listeners[0]? =
        some (.gated later false count verdict) ∧ later.isActive = false := by
  intro gate verdict plan origin before after
  have known : before.phase? 0 = some .entering := rfl
  have failed : after.phase? 0 = some (.ended (.error (.failed "lost"))) := rfl
  have opened : Document.started (before.station.handedUntil after.station) = ["run"] := by
    decide +kernel
  have found : before.station.observers.listeners[0]? = some (.gated gate false 0 verdict) := rfl
  have undisturbed : before.Undisturbed 0 [(1, .move (.turn (.call 0)))] := ⟨Or.inl rfl, trivial⟩
  have subscribed : 0 ∈ after.station.observers.router.snapshot := List.mem_cons_self
  have spared : before.station.observers.SparedAhead 0 :=
    fun other _ ahead => absurd ahead (Nat.not_lt_zero other)
  obtain ⟨later, count, foundLater, _, closed⟩ := failed_plan_holds_no_gate .counted .standard
    [.gated gate false 0 verdict] [] [(0, .execute plan)] [(1, .move (.turn (.call 0)))] 0 0 gate
    false 0 verdict .entering (.failed "lost") known (Or.inl rfl) undisturbed failed found rfl
    subscribed spared
  exact ⟨failed, opened, later, count, foundLater, closed rfl⟩

end Supervisor

end PlanSupervision
