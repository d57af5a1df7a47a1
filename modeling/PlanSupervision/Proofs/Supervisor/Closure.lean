import PlanSupervision.Proofs.Supervisor.Incident

/-!
The shutdown of a supervisor is requested once. The first request that is handled is published;
from then on no plan starts, whoever obtains the lock is refused, and later requests publish
nothing.
-/

namespace PlanSupervision

/-- An event that neither starts a plan nor requests the shutdown. -/
structure Event.Other (event : Event) : Prop where
  noStart : event.kind ≠ .planStarting
  noRequest : event.kind ≠ .shutdownRequested

theorem Entry.Ordinary.other {event : Event} (ordinary : (Entry.published event).Ordinary) :
    event.Other := by
  have known : event.kind ∈ [EventKind.subscriberOverflow, .subscriberPanicked, .listenerFault,
      .planFinished, .planFailed, .watchdogExpired] := by
    rcases ordinary with ⟨_, routine⟩ | ofPlan
    · exact List.mem_append_left [.listenerFault, .planFinished, .planFailed, .watchdogExpired]
        routine
    · exact List.mem_append_right [.subscriberOverflow, .subscriberPanicked] ofPlan
  refine ⟨?_, ?_⟩
  all_goals
    intro same
    simp [same] at known

theorem Entry.OfCall.event {stopping : Bool} {event : Event}
    (ofCall : (Entry.published event).OfCall stopping) :
    event.kind ≠ .shutdownRequested ∧ (stopping = true → event.kind ≠ .planStarting) := by
  rcases ofCall with ordinary | ⟨goesOn, plan, start⟩
  · exact ⟨ordinary.other.noRequest, fun _ => ordinary.other.noStart⟩
  · obtain rfl := Entry.published.inj start
    refine ⟨?_, fun stops => ?_⟩
    · simp [Event.withPlan, Event.ofKind]
    · rw [goesOn] at stops
      cases stops

/-- The plan of the call has not begun; if the call has ended, it was given up or refused. -/
def CallPhase.Denied (phase : CallPhase) : Prop :=
  phase.Unbegun ∨ phase = .dropped ∨ phase = .ended refusal

namespace Supervisor

/-- The requests of a shutdown that are handled in a chronicle, in order. -/
def handled (supervisor : Supervisor) : Chronicle → List String
  | [] => []
  | (now, incident) :: later =>
      (supervisor.requested? incident).toList ++ handled (supervisor.occur now incident) later

/-- Others publish no start of a plan and no request of a shutdown. -/
def Incident.Honest (incident : Incident) : Prop := ∀ event ∈ incident.announced?, event.Other

/-- Shutting down and signals, from the call or the signal to the end. -/
def Incident.OfShutdown : Incident → Prop
  | .move (.shutdown _) | .move (.signal _) | .move (.turn (.stop _)) => True
  | .withdraw _ | .hear _ _ => True
  | _ => False

/-- No plan of the call has begun, and none of it ever will unless the call is new. -/
def Denies (supervisor : Supervisor) (id : Nat) : Prop :=
  ∀ phase ∈ supervisor.phase? id, phase.Denied

/-- The first of these requests is the only one among these events, and no plan starts after
it. -/
def Announces (heard : List String) (sent : List Event) : Prop :=
  ∃ before after, sent = before ++ (heard.head?.map requestEvent).toList ++ after ∧
    (∀ event ∈ before, event.kind ≠ .shutdownRequested) ∧
    ∀ event ∈ after, event.kind ≠ .shutdownRequested ∧
      (heard ≠ [] → event.kind ≠ .planStarting)

end Supervisor

namespace Advances

variable {stopping : Bool} {view later : CallView} {documents : List Document}

/-- A call that is denied its plan stays so while the supervisor shuts down. -/
theorem denied (advances : Advances stopping view documents later) (stops : stopping = true)
    (denied : view.phase.Denied) : later.phase.Denied := by
  cases advances with
  | waits entering => exact Or.inl (Or.inr rfl)
  | refused unbegun stops => exact Or.inr (Or.inr rfl)
  | works standing begins tracked closed =>
      rcases begins with ⟨_, goesOn⟩ | ⟨course, tick, running⟩
      · rw [goesOn] at stops
        cases stops
      · rcases denied with (entering | queued) | dropped | refused
        all_goals simp_all
  | dropped unfinished => exact Or.inr (Or.inl rfl)

theorem ended {result : Except PlanError Unit} (advances : Advances stopping view documents later)
    (ended : view.phase = .ended result) : later.phase = .ended result := by
  cases advances with
  | waits entering => simp [ended] at entering
  | refused unbegun stops => simp [ended, CallPhase.Unbegun] at unbegun
  | works standing begins tracked closed => simp [ended, CallPhase.Unbegun] at begins
  | dropped unfinished => exact absurd ended (unfinished result)

end Advances

namespace Supervisor

/-- What an incident does about the shutdown. -/
structure Heeds (heard : Option String) (before after : Supervisor) : Prop where
  stopping : after.stopping = (before.stopping || heard.isSome)
  sent : ∃ events, after.station.bus.sent = before.station.bus.sent ++
      (if before.stopping then [] else heard.toList.map requestEvent) ++ events ∧
    ∀ event ∈ events, event.kind ≠ .shutdownRequested ∧
      (after.stopping = true → event.kind ≠ .planStarting)
  denies : before.stopping = true → ∀ id, before.Denies id → after.Denies id
  ended : ∀ id result, before.phase? id = some (.ended result) →
    after.phase? id = some (.ended result)

section Incidents

variable {supervisor after : Supervisor} {now : Span} {incident : Incident}

theorem Heeds.of_views {heard : Option String} (events : List Event)
    (stopping : after.stopping = (supervisor.stopping || heard.isSome))
    (sent : after.station.bus.sent = supervisor.station.bus.sent ++
      (if supervisor.stopping then [] else heard.toList.map requestEvent) ++ events)
    (others : ∀ event ∈ events, event.Other)
    (views : ∀ id, after.view? id = supervisor.view? id) : Heeds heard supervisor after := by
  have phases : ∀ id, after.phase? id = supervisor.phase? id := by
    intro id
    rw [phase?_eq, phase?_eq, views]
  refine ⟨stopping, ⟨events, sent, fun event member => ?_⟩, fun _ id denies => ?_, ?_⟩
  · exact ⟨(others event member).noRequest, fun _ => (others event member).noStart⟩
  · rwa [Denies, phases]
  · intro id result ended
    rw [phases, ended]

theorem Heeds.of_relays (relays : Relays supervisor after) : Heeds none supervisor after := by
  obtain ⟨events, bus, fine⟩ := relays.passes.sent
  refine .of_views events ?_ ?_ (fun event member => ?_) relays.views
  · rw [relays.stopping, Option.isSome_none, Bool.or_false]
  · rw [bus]
    simp
  · rcases fine event member with ordinary | ⟨missed, note⟩
    · exact ordinary.other
    · cases note

/-- A step that spares all calls but one, if the one stays denied or ended. -/
theorem Heeds.of_spares {allowed : Entry → Prop} {documents : List Document}
    {caller : Option Nat} (spares : Spares allowed documents caller supervisor after)
    (fine : ∀ event, allowed (.published event) → event.kind ≠ .shutdownRequested ∧
      (supervisor.stopping = true → event.kind ≠ .planStarting))
    (denies : supervisor.stopping = true → ∀ id ∈ caller, supervisor.Denies id → after.Denies id)
    (ended : ∀ id ∈ caller, ∀ result, supervisor.phase? id = some (.ended result) →
      after.phase? id = some (.ended result)) : Heeds none supervisor after := by
  obtain ⟨events, bus, permitted⟩ := spares.station.sent
  have others : ∀ id, caller ≠ some id → after.phase? id = supervisor.phase? id := by
    intro id other
    rw [phase?_eq, phase?_eq, spares.views id other]
  refine ⟨?_, ⟨events, ?_, fun event member => ?_⟩, fun stops id denied => ?_,
    fun id result past => ?_⟩
  · rw [spares.stopping, Option.isSome_none, Bool.or_false]
  · rw [bus]
    simp
  · rw [spares.stopping]
    exact fine event (permitted event member)
  · by_cases same : caller = some id
    · exact denies stops id same denied
    · rwa [Denies, others id same]
  · by_cases same : caller = some id
    · exact ended id same result past
    · rw [others id same, past]

theorem other_fine {event : Event} (other : event.Other) (supervisor : Supervisor) :
    event.kind ≠ .shutdownRequested ∧
      (supervisor.stopping = true → event.kind ≠ .planStarting) :=
  ⟨other.noRequest, fun _ => other.noStart⟩

theorem Heeds.of_permitted {documents : List Document} (honest : incident.Honest)
    (spares : Spares incident.Permits documents none supervisor after) :
    Heeds none supervisor after := by
  refine .of_spares spares (fun event permitted => ?_) (fun _ => nofun) nofun
  rcases permitted with ordinary | ⟨announced, known, same⟩
  · exact other_fine ordinary.other supervisor
  · obtain rfl := Entry.published.inj same
    exact other_fine (honest event known) supervisor

/-- The request is published if it is the first, and nothing else comes of it. -/
theorem Heeds.of_request {reason : String}
    (spares : Spares Entry.Ordinary [] none (supervisor.request now reason) after) :
    Heeds (some reason) supervisor after := by
  cases stopping : supervisor.stopping with
  | true =>
      rw [supervisor.request_of_stopping now stopping] at spares
      obtain ⟨events, bus, fine⟩ := spares.station.sent
      refine .of_views events ?_ ?_ (fun event member => (fine event member).other)
        fun id => spares.views id nofun
      · rw [spares.stopping, stopping]
        rfl
      · rw [bus, stopping]
        simp
  | false =>
      have first := (supervisor.chores_request now stopping reason).spares
      have all := first.trans spares
      obtain ⟨events, bus, fine⟩ := all.station.sent
      refine .of_views events ?_ ?_ (fun event member => (fine event member).other) fun id => ?_
      · rw [all.stopping, stopping]
        rfl
      · rw [bus, stopping]
        simp [station_publish, Station.publish, Broadcast.send]
      · rw [all.views id nofun]
        exact ((chores_wakeRelay _).spares.views id nofun)

theorem Heeds.of_acts {id : Nat} {call : Call} {documents : List Document}
    (found : supervisor.calls[id]? = some call) (acts : Acts id call documents supervisor after) :
    Heeds none supervisor after := by
  obtain ⟨spares, later, becomes, advances⟩ := acts
  have before : supervisor.phase? id = some call.phase := phaseAt_faces found
  have now : after.phase? id = some later.phase := by
    rw [phase?_eq, becomes]
    rfl
  refine .of_spares spares (fun _ => Entry.OfCall.event) ?_ ?_
  · rintro stops _ ⟨rfl⟩ denies
    rw [Denies, now]
    rintro _ ⟨rfl⟩
    exact advances.denied stops (denies call.phase before)
  · rintro _ ⟨rfl⟩ result ended
    rw [before] at ended
    rw [now, advances.ended (Option.some.inj ended)]

theorem Heeds.of_besides {id : Nat} {call : Call} {documents : List Document}
    (found : supervisor.calls[id]? = some call)
    (besides : Besides id call documents supervisor after) : Heeds none supervisor after := by
  have same : after.phase? id = supervisor.phase? id := by
    rw [phase?_eq, besides.view, phase?_eq, view?_of_call found]
    rfl
  refine .of_spares besides.spares (fun _ => Entry.OfCall.event) ?_ ?_
  · rintro _ _ ⟨rfl⟩ denies
    rwa [Denies, same]
  · rintro _ ⟨rfl⟩ result ended
    rw [same, ended]

theorem Heeds.of_enters
    (spares : Spares Entry.Ordinary [] (some supervisor.calls.length) supervisor after)
    (entered : after.view? supervisor.calls.length = some ⟨[], .entering⟩) :
    Heeds none supervisor after := by
  refine .of_spares spares (fun _ ordinary => other_fine ordinary.other supervisor) ?_ ?_
  · rintro _ _ ⟨rfl⟩ _
    rw [Denies, phase?_eq, entered]
    rintro _ ⟨rfl⟩
    exact Or.inl (Or.inl rfl)
  · rintro _ ⟨rfl⟩ result ended
    rw [phase?_eq, view?, List.getElem?_eq_none (Nat.le_refl _)] at ended
    cases ended

theorem heeds_occur (supervisor : Supervisor) (now : Span) {incident : Incident}
    (honest : incident.Honest) :
    Heeds (supervisor.requested? incident) supervisor (supervisor.occur now incident) := by
  cases supervisor.occur_outcome now incident with
  | spares unheard still others spares =>
      rw [unheard]
      exact .of_permitted honest spares
  | acts unheard still actor found acts =>
      rw [unheard]
      exact .of_acts found acts
  | besides unheard still actor found besides =>
      rw [unheard]
      exact .of_besides found besides
  | enters unheard still spares entered =>
      rw [unheard]
      exact .of_enters spares entered
  | requests heard still spares =>
      rw [heard]
      exact .of_request spares
  | relays unheard turn same =>
      rw [unheard, same]
      exact .of_relays (supervisor.relays_relayFor now _)

end Incidents

/-- While the supervisor shuts down no other event of interest is sent, a call that is denied its
plan stays so, and what has ended stays as it is. -/
structure Closed (before after : Supervisor) : Prop where
  stopping : after.stopping = true
  sent : ∃ events, after.station.bus.sent = before.station.bus.sent ++ events ∧
    ∀ event ∈ events, event.Other
  denies : ∀ id, before.Denies id → after.Denies id
  ended : ∀ id result, before.phase? id = some (.ended result) →
    after.phase? id = some (.ended result)

theorem closed_live {supervisor : Supervisor} (stops : supervisor.stopping = true)
    {chronicle : Chronicle} (honest : ∀ entry ∈ chronicle, entry.2.Honest) :
    Closed supervisor (supervisor.live chronicle) := by
  induction chronicle generalizing supervisor with
  | nil =>
      exact ⟨stops, ⟨[], (List.append_nil _).symm, List.forall_mem_nil _⟩, fun _ denies => denies,
        fun _ _ ended => ended⟩
  | cons entry rest inductionHypothesis =>
      obtain ⟨now, incident⟩ := entry
      obtain ⟨stopping, ⟨events, sent, fine⟩, denies, ended⟩ :=
        supervisor.heeds_occur now (honest (now, incident) List.mem_cons_self)
      rw [stops, Bool.true_or] at stopping
      rw [stops, if_pos rfl, List.append_nil] at sent
      obtain ⟨still, ⟨more, later, laterFine⟩, laterDenies, laterEnded⟩ :=
        inductionHypothesis stopping fun other member => honest other (List.mem_cons_of_mem _ member)
      refine ⟨still, ⟨events ++ more, ?_, fun event member => ?_⟩,
        fun id denied => laterDenies id (denies stops id denied),
        fun id result past => laterEnded id result (ended id result past)⟩
      · rw [← List.append_assoc, ← sent]
        exact later
      · rcases List.mem_append.mp member with first | later
        · exact ⟨(fine event first).2 stopping, (fine event first).1⟩
        · exact laterFine event later

/-- The shutdown was requested if and only if a request was handled, and this is announced. -/
structure Announced (supervisor : Supervisor) (heard : List String) : Prop where
  stopping : supervisor.stopping = !heard.isEmpty
  sent : Announces heard supervisor.station.bus.sent

theorem Announced.occur {supervisor : Supervisor} {heard : List String}
    (announced : Announced supervisor heard) (now : Span) {incident : Incident}
    (honest : incident.Honest) :
    Announced (supervisor.occur now incident)
      (heard ++ (supervisor.requested? incident).toList) := by
  obtain ⟨stopping, ⟨events, sent, fine⟩, _, _⟩ := supervisor.heeds_occur now honest
  obtain ⟨before, after, former, areBefore, areAfter⟩ := announced.sent
  have requested := announced.stopping
  rw [former] at sent
  cases heard with
  | cons first others =>
      rw [List.isEmpty_cons, Bool.not_false] at requested
      rw [requested, Bool.true_or] at stopping
      rw [requested, if_pos rfl, List.append_nil] at sent
      refine ⟨stopping, before, after ++ events, ?_, areBefore, fun event member => ?_⟩
      · rw [sent, List.append_assoc]
        rfl
      · rcases List.mem_append.mp member with earlier | here
        · exact ⟨(areAfter event earlier).1, fun _ => (areAfter event earlier).2 nofun⟩
        · exact ⟨(fine event here).1, fun _ => (fine event here).2 stopping⟩
  | nil =>
      rw [List.isEmpty_nil, Bool.not_true] at requested
      rw [requested, Bool.false_or] at stopping
      rw [requested, if_neg Bool.false_ne_true] at sent
      have areFormer : ∀ event ∈ before ++ after, event.kind ≠ .shutdownRequested := by
        intro event member
        rcases List.mem_append.mp member with earlier | here
        · exact areBefore event earlier
        · exact (areAfter event here).1
      cases heard : supervisor.requested? incident with
      | none =>
          rw [heard] at sent stopping
          refine ⟨stopping, before ++ after, events, ?_, areFormer, fun event member => ?_⟩
          · simpa using sent
          · exact ⟨(fine event member).1, fun some => absurd rfl some⟩
      | some reason =>
          rw [heard] at sent stopping
          refine ⟨stopping, before ++ after, events, ?_, areFormer, fun event member => ?_⟩
          · simpa using sent
          · exact ⟨(fine event member).1, fun _ => (fine event member).2 stopping⟩

theorem Announced.live {supervisor : Supervisor} {heard : List String}
    (announced : Announced supervisor heard) {chronicle : Chronicle}
    (honest : ∀ entry ∈ chronicle, entry.2.Honest) :
    Announced (supervisor.live chronicle) (heard ++ supervisor.handled chronicle) := by
  induction chronicle generalizing supervisor heard with
  | nil =>
      rw [handled, List.append_nil]
      exact announced
  | cons entry rest inductionHypothesis =>
      obtain ⟨now, incident⟩ := entry
      have first := announced.occur now (honest (now, incident) List.mem_cons_self)
      have all := inductionHypothesis first fun other member =>
        honest other (List.mem_cons_of_mem _ member)
      rwa [List.append_assoc] at all

section Stopping

variable {supervisor : Supervisor}

theorem bus_stopRelay (supervisor : Supervisor) (now : Span) (id : Nat) :
    (supervisor.stopRelay now id).station.bus = supervisor.station.bus := by
  have told : ((({ supervisor with station := supervisor.station.disarmWatchdog } :
      Supervisor).setRelay fun relay => { relay with stopping := true }).wakeRelay).station.bus =
        supervisor.station.bus := by
    rw [station_wakeRelay]
    rfl
  unfold stopRelay
  dsimp only
  split
  · exact told
  · split
    · exact told
    · split
      · exact told
      · split <;> exact told

theorem bus_giveUpPlan (supervisor : Supervisor) (now : Span) (id : Nat) :
    (supervisor.giveUpPlan now id).station.bus = supervisor.station.bus :=
  bus_stopRelay _ now id

theorem bus_unwind (supervisor : Supervisor) (now : Span) (id : Nat) :
    (supervisor.unwind now id).station.bus = supervisor.station.bus := by
  unfold unwind
  dsimp only
  split
  · exact bus_stopRelay _ now id
  · split
    · exact bus_giveUpPlan _ now id
    · rfl

theorem bus_stopTurn (stops : supervisor.stopping = true) (now : Span) (id : Nat) :
    (supervisor.stopTurn now id).station.bus = supervisor.station.bus := by
  unfold stopTurn
  split
  · rfl
  · split
    · rw [stops, if_pos rfl]
      rfl
    · rw [supervisor.request_of_stopping now stops]
      exact supervisor.bus_unwind now id
    · split
      · exact bus_stopRelay _ now id
      · split
        · exact supervisor.bus_giveUpPlan now id
        · rfl
    · split
      · rfl
      · split <;> rfl
    · rfl

/-- Requests that come later publish nothing, and neither does anything else of a shutdown. -/
theorem bus_occur_of_stopping (stops : supervisor.stopping = true) (now : Span)
    {incident : Incident} (ofShutdown : incident.OfShutdown) :
    (supervisor.occur now incident).station.bus = supervisor.station.bus := by
  cases incident with
  | move move =>
      cases move with
      | shutdown onSignal => rfl
      | signal name => rfl
      | turn task =>
          cases task with
          | stop id => exact bus_stopTurn stops now id
          | _ => cases ofShutdown
      | _ => cases ofShutdown
  | withdraw id =>
      simp only [occur, withdraw]
      split <;> rfl
  | hear id name =>
      simp only [occur, hear]
      split
      · rw [supervisor.request_of_stopping now stops]
        exact supervisor.bus_unwind now id
      · rfl
  | _ => cases ofShutdown

/-- A call that obtains the lock is refused at once, and what plans act on stays as it is. -/
theorem refused_of_serves (stops : supervisor.stopping = true) {id : Nat}
    (serves : supervisor.serves (.turn (.call id)) ≠ []) (now : Span) :
    let after := supervisor.step now (.turn (.call id))
    after.phase? id = some (.ended refusal) ∧ after.station = supervisor.station := by
  have begins : ∀ (asked : Supervisor) (call : Call), asked.stopping = true →
      asked.faces = supervisor.faces → asked.station = supervisor.station →
      phaseAt supervisor.faces id = some call.phase →
      (asked.begin now id call).phase? id = some (.ended refusal) ∧
        (asked.begin now id call).station = supervisor.station := by
    intro asked call askedStops faces station known
    have refused : asked.begin now id call = asked.finish id refusal := by
      simp only [begin, askedStops, if_true]
      rfl
    have ended : (asked.finish id refusal).faces =
        setPhaseAt supervisor.faces id (.ended refusal) := by
      rw [← faces]
      exact faces_setPhase asked.releaseLock id _
    rw [refused, phase?, ended]
    exact ⟨phaseAt_self known, station⟩
  simp only [Supervisor.serves] at serves
  split at serves
  · rename_i entering
    obtain ⟨call, found, phase⟩ := exists_call_of_phaseAt entering
    split at serves
    · rename_i held
      have turns : supervisor.step now (.turn (.call id)) =
          { supervisor with lock := supervisor.lock.ask (.call id) }.begin now id call := by
        simp only [step, turn, callTurn, found, phase, held, if_true]
      simp only [turns]
      exact begins _ call stops rfl rfl (phaseAt_faces found)
    · exact absurd rfl serves
  · rename_i queued
    obtain ⟨call, found, phase⟩ := exists_call_of_phaseAt queued
    split at serves
    · rename_i held
      have turns : supervisor.step now (.turn (.call id)) = supervisor.begin now id call := by
        simp only [step, turn, callTurn, found, phase, held, if_true]
      simp only [turns]
      exact begins _ call stops rfl rfl (phaseAt_faces found)
    · exact absurd rfl serves
  · exact absurd rfl serves

end Stopping

/-- The first request of a shutdown is the only one that is published, with its reason, and no
plan starts after it. From then on a call whose plan has not begun never begins it: when it
obtains the lock it is refused, and neither this nor any later request leaves a trace on the
bus. -/
theorem shutdown_is_final (draws : Nat → Uid) (config : Config) (listeners : List Listener)
    (subscribers : List Subscriber) (earlier later : Chronicle)
    (honest : ∀ entry ∈ earlier ++ later, entry.2.Honest) :
    let origin := buildWith draws config listeners subscribers
    let closed := origin.live earlier
    let final := closed.live later
    let heard := origin.handled earlier
    Announces heard closed.station.bus.sent ∧
      (heard ≠ [] →
        (∃ events, final.station.bus.sent = closed.station.bus.sent ++ events ∧
          ∀ event ∈ events, event.Other) ∧
        (∀ id, closed.Denies id → final.Denies id) ∧
        (∀ id result, closed.phase? id = some (.ended result) →
          final.phase? id = some (.ended result)) ∧
        (∀ now id, final.serves (.turn (.call id)) ≠ [] →
          let after := final.step now (.turn (.call id))
          after.phase? id = some (.ended refusal) ∧ after.station = final.station) ∧
        ∀ now incident, incident.OfShutdown →
          (final.occur now incident).station.bus = final.station.bus) := by
  intro origin closed final heard
  have fresh : Announced origin [] :=
    ⟨rfl, [], [], rfl, List.forall_mem_nil _, List.forall_mem_nil _⟩
  have announced : Announced closed heard :=
    fresh.live fun entry member => honest entry (List.mem_append_left later member)
  refine ⟨announced.sent, fun requested => ?_⟩
  have stops : closed.stopping = true := by
    rw [announced.stopping]
    simpa using requested
  have stays : Closed closed final :=
    closed_live stops fun entry member => honest entry (List.mem_append_right earlier member)
  exact ⟨stays.sent, stays.denies, stays.ended,
    fun now id serves => refused_of_serves stays.stopping serves now,
    fun now incident ofShutdown => bus_occur_of_stopping stays.stopping now ofShutdown⟩

/-- A shutdown is requested while a call waits for its first turn: the call is refused. -/
theorem call_refused_after_shutdown :
    let origin := buildWith .counted .standard [] []
    let earlier : Chronicle :=
      [(0, .execute ⟨"idle", []⟩), (0, .move (.shutdown false)), (0, .move (.turn (.stop 0)))]
    let closed := origin.live earlier
    (∀ entry ∈ earlier ++ [], entry.2.Honest) ∧ origin.handled earlier = ["requested"] ∧
      Announces ["requested"] closed.station.bus.sent ∧
      (closed.step 1 (.turn (.call 0))).phase? 0 = some (.ended refusal) := by
  intro origin earlier closed
  have honest : ∀ entry ∈ earlier ++ [], entry.2.Honest := by
    simp [earlier, Incident.Honest, Incident.announced?]
  have handled : origin.handled earlier = ["requested"] := rfl
  have serves : closed.serves (.turn (.call 0)) ≠ [] := by
    have granted : closed.serves (.turn (.call 0)) = [(0, true)] := rfl
    simp [granted]
  obtain ⟨announced, final⟩ := shutdown_is_final .counted .standard [] [] earlier [] honest
  have requested : origin.handled earlier ≠ [] := by simp [handled]
  obtain ⟨_, _, _, refuses, _⟩ := final requested
  rw [show (buildWith .counted .standard [] []).handled earlier = ["requested"] from handled] at announced
  exact ⟨honest, handled, announced, (refuses 1 0 serves).1⟩

end Supervisor

end PlanSupervision
