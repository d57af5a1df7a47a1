import PlanSupervision.Proofs.Monitor.Aftermath
import PlanSupervision.Proofs.Monitor.Script

/-!
The ledger of the escalations. For every escalation it holds the lines that its turns wrote, and
for every call of a service which escalation made it. Along any history the ledger agrees with the
post: each escalation has written what belongs to its stage and made the calls that this takes, and
what the services answered decides what follows and nothing else.
-/

namespace PlanSupervision

namespace MonitorPost

structure Ledger where
  /-- The lines that the turns of an escalation wrote. -/
  deeds : Nat → Journal
  /-- The escalations that asked for a cancellation, in the order of the requests. -/
  requesters : List Nat
  /-- The escalations that raised an alert, in the order of the alerts. -/
  raisers : List Nat

namespace Ledger

def empty : Ledger := ⟨fun _ => [], [], []⟩

def add (ledger : Ledger) (index : Nat) (lines : Journal) (requests alerts : Nat) : Ledger where
  deeds other := if other = index then ledger.deeds other ++ lines else ledger.deeds other
  requesters := ledger.requesters ++ List.replicate requests index
  raisers := ledger.raisers ++ List.replicate alerts index

/-- What a move that led from one state of a post to another adds to the ledger. -/
def note (ledger : Ledger) (before after : MonitorPost) (move : Move) : Ledger :=
  match move.escalation? with
  | none => ledger
  | some index =>
      ledger.add index (after.journal.drop before.journal.length)
        (after.cancelCalls - before.cancelCalls) (after.alertCalls - before.alertCalls)

theorem add_nothing (ledger : Ledger) (index : Nat) : ledger.add index [] 0 0 = ledger := by
  simp [add]

theorem add_add (ledger : Ledger) (index : Nat) (lines more : Journal)
    (requests alerts requestsMore alertsMore : Nat) :
    (ledger.add index lines requests alerts).add index more requestsMore alertsMore =
      ledger.add index (lines ++ more) (requests + requestsMore) (alerts + alertsMore) := by
  simp only [add, List.append_assoc, List.replicate_append_replicate, Ledger.mk.injEq, and_true]
  funext other
  by_cases same : other = index <;> simp [same]

section Add

variable {ledger : Ledger} {index other : Nat} {lines : Journal} {requests alerts : Nat}

theorem deeds_add_self : (ledger.add index lines requests alerts).deeds index =
    ledger.deeds index ++ lines := if_pos rfl

theorem deeds_add_of_ne (different : other ≠ index) :
    (ledger.add index lines requests alerts).deeds other = ledger.deeds other := if_neg different

theorem mem_requesters_add_of_ne (different : other ≠ index) :
    other ∈ (ledger.add index lines requests alerts).requesters ↔ other ∈ ledger.requesters := by
  simp [add, List.mem_replicate, different]

theorem mem_raisers_add_of_ne (different : other ≠ index) :
    other ∈ (ledger.add index lines requests alerts).raisers ↔ other ∈ ledger.raisers := by
  simp [add, List.mem_replicate, different]

theorem getElem?_requesters_add {call : Nat} (made : ledger.requesters[call]? = some other) :
    (ledger.add index lines requests alerts).requesters[call]? = some other :=
  List.getElem?_append_left (List.getElem?_eq_some_iff.mp made).1 ▸ made

theorem getElem?_raisers_add {call : Nat} (made : ledger.raisers[call]? = some other) :
    (ledger.add index lines requests alerts).raisers[call]? = some other :=
  List.getElem?_append_left (List.getElem?_eq_some_iff.mp made).1 ▸ made

end Add

end Ledger

/-- What is written in the ledger along a history. -/
def record (post : MonitorPost) (ledger : Ledger) : History → Ledger
  | [] => ledger
  | (instant, move) :: later =>
      let after := post.step instant move
      after.record (ledger.note post after move) later

section Pursues

variable (origin : Monitor) (attached : Bool) (cancelService alertService : Service)

/-- An escalation has come to a stage, and this is what the ledger tells of it. -/
inductive Pursues (ledger : Ledger) (index : Nat) : Escalation → EscalationStage → Journal → Prop
  where
  | begun (escalation : Escalation) (unasked : index ∉ ledger.requesters)
      (unraised : index ∉ ledger.raisers) : Pursues ledger index escalation .begun []
  | cancelling (opened : Span) {request : Nat}
      (asked : ledger.requesters[request]? = some index) (unraised : index ∉ ledger.raisers) :
      Pursues ledger index .stuck
        (.cancelling (opened + (cancelService request).1) (cancelService request).2)
        (origin.stuckLines attached opened)
  | waiting (opened elapsed : Span) {alert : Nat} (unasked : index ∉ ledger.requesters)
      (raised : ledger.raisers[alert]? = some index) :
      Pursues ledger index (.waiting elapsed)
        (.alerting (opened + (alertService alert).1) (alertService alert).2)
        (origin.waitingLines attached opened elapsed)
  | stuck (opened : Span) {request : Nat} (asked : ledger.requesters[request]? = some index)
      {answered : Span} (inOrder : opened + (cancelService request).1 ≤ answered) {alert : Nat}
      (raised : ledger.raisers[alert]? = some index) :
      Pursues ledger index .stuck
        (.alerting (answered + (alertService alert).1) (alertService alert).2)
        (origin.stuckLines attached opened ++
          (origin.cancelLines attached answered (cancelService request).2 ++
            [origin.alertLine answered .stuck]))
  | ended {escalation : Escalation} {due : Span} {answer : Except CollaboratorError Unit}
      {lines : Journal} (alerting : Pursues ledger index escalation (.alerting due answer) lines)
      {closed : Span} (inOrder : due ≤ closed) :
      Pursues ledger index escalation .ended (lines ++ origin.alertLines attached closed answer)

variable {origin attached cancelService alertService} {ledger : Ledger} {index : Nat}
  {escalation : Escalation} {stage : EscalationStage} {lines : Journal}

/-- Only the calls that an escalation made itself count. -/
theorem Pursues.carry {later : Ledger}
    (pursues : Pursues origin attached cancelService alertService ledger index escalation stage
      lines)
    (unasked : index ∉ ledger.requesters → index ∉ later.requesters)
    (unraised : index ∉ ledger.raisers → index ∉ later.raisers)
    (asked : ∀ call : Nat, ledger.requesters[call]? = some index →
      later.requesters[call]? = some index)
    (raised : ∀ call : Nat, ledger.raisers[call]? = some index → later.raisers[call]? = some index) :
    Pursues origin attached cancelService alertService later index escalation stage lines := by
  induction pursues with
  | begun escalation isUnasked isUnraised =>
      exact .begun escalation (unasked isUnasked) (unraised isUnraised)
  | cancelling opened isAsked isUnraised =>
      exact .cancelling opened (asked _ isAsked) (unraised isUnraised)
  | waiting opened elapsed isUnasked isRaised =>
      exact .waiting opened elapsed (unasked isUnasked) (raised _ isRaised)
  | stuck opened isAsked inOrder isRaised =>
      exact .stuck opened (asked _ isAsked) inOrder (raised _ isRaised)
  | ended _ inOrder inductionHypothesis => exact .ended inductionHypothesis inOrder

theorem Pursues.add_of_ne
    (pursues : Pursues origin attached cancelService alertService ledger index escalation stage
      lines) {other : Nat} (different : index ≠ other) (more : Journal) (requests alerts : Nat) :
    Pursues origin attached cancelService alertService
      (ledger.add other more requests alerts) index escalation stage lines :=
  pursues.carry (fun unasked among => unasked ((Ledger.mem_requesters_add_of_ne different).mp among))
    (fun unraised among => unraised ((Ledger.mem_raisers_add_of_ne different).mp among))
    (fun _ => Ledger.getElem?_requesters_add) (fun _ => Ledger.getElem?_raisers_add)

variable {post : MonitorPost} {now : Span} {course : EscalationCourse} {more : Journal}
  {requests alerts : Nat}

/-- Whatever an escalation does next is entered in the ledger, and no call is made twice. -/
theorem Pursues.advance
    (pursues : Pursues origin attached cancelService alertService ledger index course.escalation
      course.stage lines)
    (advance : post.Advance now course stage more requests alerts)
    (task : post.monitor.SameTask origin) (isAttached : post.attached = attached)
    (services : post.cancelService = cancelService ∧ post.alertService = alertService)
    (asked : post.cancelCalls = ledger.requesters.length)
    (raised : post.alertCalls = ledger.raisers.length)
    (once : ledger.requesters.Nodup ∧ ledger.raisers.Nodup) :
    let later := ledger.add index more requests alerts
    Pursues origin attached cancelService alertService later index course.escalation stage
        (lines ++ more) ∧ later.requesters.Nodup ∧ later.raisers.Nodup := by
  have another : ∀ {calls : List Nat}, calls.Nodup → index ∉ calls → (calls ++ [index]).Nodup :=
    fun distinct absent => List.concat_eq_append ▸ List.Nodup.concat absent distinct
  have newest : ∀ {calls : List Nat} {count : Nat}, count = calls.length →
      (calls ++ [index])[count]? = some index := by
    rintro calls count rfl
    exact List.getElem?_concat_length
  obtain ⟨rfl, rfl⟩ := services
  subst isAttached
  intro later
  cases advance with
  | asks =>
      simp only [task.stuckLines_eq]
      cases pursues with
      | begun _ unasked unraised =>
          refine ⟨.cancelling now (newest asked) ?_, another once.1 unasked, ?_⟩
          · simpa [later, Ledger.add] using unraised
          · simpa [later, Ledger.add] using once.2
  | notifies elapsed =>
      simp only [task.waitingLines_eq]
      cases pursues with
      | begun _ unasked unraised =>
          refine ⟨.waiting now elapsed ?_ (newest raised), ?_, another once.2 unraised⟩
          · simpa [later, Ledger.add] using unasked
          · simpa [later, Ledger.add] using once.1
  | alerts ready =>
      simp only [task.cancelLines_eq, task.alertLine_eq]
      cases pursues with
      | cancelling opened isAsked unraised =>
          refine ⟨.stuck opened (Ledger.getElem?_requesters_add isAsked) ready (newest raised), ?_,
            another once.2 unraised⟩
          simpa [later, Ledger.add] using once.1
  | ends ready =>
      simp only [task.alertLines_eq]
      obtain ⟨sameRequesters, sameRaisers⟩ :
          later.requesters = ledger.requesters ∧ later.raisers = ledger.raisers := by
        simp [later, Ledger.add]
      refine ⟨.ended ?_ ready, ?_, ?_⟩
      · apply pursues.carry <;> simp only [sameRequesters, sameRaisers, imp_self, implies_true]
      · simpa only [sameRequesters] using once.1
      · simpa only [sameRaisers] using once.2

end Pursues

/-- A line that an escalation writes. -/
def isErrand (line : Span × Entry) : Bool :=
  match line.2 with
  | .published event => event.kind.isErrand
  | entry => entry.isErrand

theorem isErrand_announced (attached : Bool) (now : Span) {event : Event}
    (own : event.kind.isErrand = true) :
    ∀ line ∈ announced attached now [event], isErrand line = true := by
  intro line member
  cases attached with
  | false => cases member
  | true =>
      obtain rfl := List.mem_singleton.mp member
      exact own

theorem isErrand_failureLines (monitor : Monitor) (attached : Bool) (now : Span)
    (message : String) {kind : EventKind} (own : kind.isErrand = true)
    (error : CollaboratorError) :
    ∀ line ∈ monitor.failureLines attached now message kind error, isErrand line = true :=
  List.forall_mem_cons.mpr ⟨rfl, isErrand_announced attached now own⟩

theorem Advance.isErrand {post : MonitorPost} {now : Span} {course : EscalationCourse}
    {stage : EscalationStage} {lines : Journal} {requests alerts : Nat}
    (advance : post.Advance now course stage lines requests alerts) :
    ∀ line ∈ lines, isErrand line = true := by
  cases advance with
  | asks =>
      refine List.forall_mem_cons.mpr ⟨rfl, List.forall_mem_append.mpr ⟨?_, ?_⟩⟩
      · exact isErrand_announced _ now rfl
      · exact List.forall_mem_singleton.mpr rfl
  | notifies elapsed =>
      refine List.forall_mem_append.mpr ⟨isErrand_announced _ now rfl, ?_⟩
      exact List.forall_mem_singleton.mpr rfl
  | @alerts _ _ answer _ =>
      refine List.forall_mem_append.mpr ⟨?_, List.forall_mem_singleton.mpr rfl⟩
      cases answer with
      | ok _ => exact isErrand_announced _ now rfl
      | error error => exact isErrand_failureLines _ _ now _ rfl error
  | @ends _ _ answer _ =>
      cases answer with
      | ok _ => exact List.forall_mem_nil _
      | error error => exact isErrand_failureLines _ _ now _ rfl error

/-- Lines that one of several wrote come to the lines of all. -/
theorem flatMap_add_perm (ledger : Ledger) {index count : Nat} (known : index < count)
    (lines : Journal) (requests alerts : Nat) :
    ((List.range count).flatMap (ledger.deeds) ++ lines).Perm
      ((List.range count).flatMap (ledger.add index lines requests alerts).deeds) := by
  induction count with
  | zero => cases known
  | succ count inductionHypothesis =>
      simp only [List.range_succ, List.flatMap_append, List.flatMap_singleton]
      by_cases last : index = count
      · subst last
        have others : (List.range index).flatMap (ledger.add index lines requests alerts).deeds =
            (List.range index).flatMap ledger.deeds :=
          List.flatMap_congr fun other member =>
            Ledger.deeds_add_of_ne (Nat.ne_of_lt (List.mem_range.mp member))
        simp only [others, Ledger.deeds_add_self, List.append_assoc]
        exact List.Perm.refl _
      · have earlier := inductionHypothesis (by omega)
        have different : count ≠ index := fun same => last same.symm
        simp only [Ledger.deeds_add_of_ne different, List.append_assoc]
        refine (List.perm_append_comm.append_left _).trans ?_
        simp only [← List.append_assoc]
        exact earlier.append_right _

/-- The ledger agrees with the post. -/
structure Books (origin : Monitor) (attached : Bool) (cancelService alertService : Service)
    (post : MonitorPost) (ledger : Ledger) : Prop where
  tracks : ∃ force, Tracks origin force post
  isAttached : post.attached = attached
  services : post.cancelService = cancelService ∧ post.alertService = alertService
  asked : post.cancelCalls = ledger.requesters.length
  raised : post.alertCalls = ledger.raisers.length
  once : ledger.requesters.Nodup ∧ ledger.raisers.Nodup
  pursued : ∀ index course, post.escalations[index]? = some course →
    Pursues origin attached cancelService alertService ledger index course.escalation
      course.stage (ledger.deeds index)
  unknown : ∀ index, post.escalations.length ≤ index →
    ledger.deeds index = [] ∧ index ∉ ledger.requesters ∧ index ∉ ledger.raisers
  errands : (post.journal.filter isErrand).Perm
    ((List.range post.escalations.length).flatMap ledger.deeds)
  inOrder : ∀ index, (ledger.deeds index).Sublist post.journal

namespace Books

variable {origin : Monitor} {attached : Bool} {cancelService alertService : Service}
  {post : MonitorPost} {ledger : Ledger}

theorem fresh (monitor : Monitor) (cancelService alertService : Service)
    (bus : Option (Broadcast Event)) (outside : monitor.inScope = false) :
    Books monitor bus.isSome cancelService alertService
      (fresh monitor cancelService alertService bus) .empty where
  tracks := ⟨none, tracks_fresh monitor cancelService alertService bus outside⟩
  isAttached := rfl
  services := ⟨rfl, rfl⟩
  asked := rfl
  raised := rfl
  once := ⟨List.nodup_nil, List.nodup_nil⟩
  pursued := nofun
  unknown _ _ := ⟨rfl, List.not_mem_nil, List.not_mem_nil⟩
  errands := List.Perm.refl _
  inOrder _ := List.nil_sublist _

/-- Moves that carry out no escalation decide at most new ones. -/
theorem yields (books : Books origin attached cancelService alertService post ledger)
    {now : Span} {after : MonitorPost} {events : List Event} {decided : List Escalation}
    (yields : Yields now post after events decided)
    (silent : ∀ event ∈ events, event.kind.isErrand = false)
    (tracks : ∃ force, Tracks origin force after) :
    Books origin attached cancelService alertService after ledger where
  tracks := tracks
  isAttached := yields.attached.trans books.isAttached
  services :=
    ⟨(congrArg Outside.cancelService yields.outside).trans books.services.1,
      (congrArg Outside.alertService yields.outside).trans books.services.2⟩
  asked := (congrArg Outside.cancelCalls yields.outside).trans books.asked
  raised := (congrArg Outside.alertCalls yields.outside).trans books.raised
  once := books.once
  pursued index course found := by
    simp only [yields.escalations] at found
    rcases Nat.lt_or_ge index post.escalations.length with known | unknown
    · simp only [List.getElem?_append_left known] at found
      exact books.pursued index course found
    · obtain ⟨nothing, unasked, unraised⟩ := books.unknown index unknown
      simp only [List.getElem?_append_right unknown, List.getElem?_map] at found
      obtain ⟨escalation, -, rfl⟩ := Option.map_eq_some_iff.mp found
      simp only [nothing]
      exact .begun escalation unasked unraised
  unknown index beyond := by
    apply books.unknown
    simp only [yields.escalations, List.length_append] at beyond
    exact Nat.le_trans (Nat.le_add_right _ _) beyond
  errands := by
    have quiet : (announced post.attached now events).filter isErrand = [] := by
      apply List.filter_eq_nil_iff.mpr
      intro line member
      unfold announced at member
      split at member
      · obtain ⟨event, among, rfl⟩ := List.mem_map.mp member
        simp [isErrand, silent event among]
      · cases member
    have same : (List.range after.escalations.length).flatMap ledger.deeds =
        (List.range post.escalations.length).flatMap ledger.deeds := by
      simp only [yields.escalations, List.length_append, List.range_add, List.flatMap_append]
      refine (List.append_right_eq_self.mpr ?_)
      apply List.flatMap_eq_nil_iff.mpr
      intro index member
      obtain ⟨offset, -, rfl⟩ := List.mem_map.mp member
      exact (books.unknown _ (Nat.le_add_right _ _)).1
    simp only [yields.journal, List.filter_append, quiet, List.append_nil, same]
    exact books.errands
  inOrder index := by
    simp only [yields.journal]
    exact (books.inOrder index).trans (List.sublist_append_left _ _)

section Enters

variable {now : Span} {index : Nat} {course : EscalationCourse} {stage : EscalationStage}
  {lines : Journal} {requests alerts : Nat} {after : MonitorPost}

/-- What is entered for one escalation leaves the others what they had. -/
theorem pursued_add (books : Books origin attached cancelService alertService post ledger)
    (found : post.escalations[index]? = some course)
    (forwards : Forwards index stage lines requests alerts post after)
    (pursues : Pursues origin attached cancelService alertService
      (ledger.add index lines requests alerts) index course.escalation stage
      (ledger.deeds index ++ lines))
    {other : Nat} {otherCourse : EscalationCourse}
    (otherFound : after.escalations[other]? = some otherCourse) :
    Pursues origin attached cancelService alertService (ledger.add index lines requests alerts)
      other otherCourse.escalation otherCourse.stage
      ((ledger.add index lines requests alerts).deeds other) := by
  simp only [forwards.escalations, List.getElem?_modify] at otherFound
  by_cases here : index = other
  · subst here
    simp only [if_true, found, Option.map_eq_map, Option.map_some] at otherFound
    obtain rfl := Option.some.inj otherFound
    simp only [Ledger.deeds_add_self]
    exact pursues
  · simp only [here, if_false, Option.map_eq_map, Option.map_id'] at otherFound
    simp only [Ledger.deeds_add_of_ne (Ne.symm here)]
    exact (books.pursued other otherCourse otherFound).add_of_ne (Ne.symm here) _ _ _

/-- A stage that an escalation leaves for another is entered in the ledger. -/
theorem enters (books : Books origin attached cancelService alertService post ledger)
    (found : post.escalations[index]? = some course)
    (advance : post.Advance now course stage lines requests alerts)
    (forwards : Forwards index stage lines requests alerts post after)
    (tracks : ∃ force, Tracks origin force after) :
    Books origin attached cancelService alertService after
      (ledger.add index lines requests alerts) := by
  obtain ⟨_, trackedSoFar⟩ := books.tracks
  obtain ⟨pursues, requestsOnce, alertsOnce⟩ := (books.pursued index course found).advance
    advance trackedSoFar.task books.isAttached books.services books.asked books.raised books.once
  have count : after.escalations.length = post.escalations.length := by
    simp only [forwards.escalations, List.length_modify]
  obtain ⟨known, -⟩ := List.getElem?_eq_some_iff.mp found
  constructor
  case tracks => exact tracks
  case isAttached => exact forwards.attached.trans books.isAttached
  case services =>
    exact ⟨forwards.services.1.trans books.services.1, forwards.services.2.trans books.services.2⟩
  case asked =>
    simp only [forwards.requests, books.asked, Ledger.add, List.length_append,
      List.length_replicate]
  case raised =>
    simp only [forwards.alerts, books.raised, Ledger.add, List.length_append,
      List.length_replicate]
  case once => exact ⟨requestsOnce, alertsOnce⟩
  case pursued => exact fun other otherCourse => books.pursued_add found forwards pursues
  case unknown =>
    intro other beyond
    simp only [count] at beyond
    have different : other ≠ index := by omega
    obtain ⟨nothing, unasked, unraised⟩ := books.unknown other beyond
    refine ⟨(Ledger.deeds_add_of_ne different).trans nothing, ?_, ?_⟩
    · exact fun among => unasked ((Ledger.mem_requesters_add_of_ne different).mp among)
    · exact fun among => unraised ((Ledger.mem_raisers_add_of_ne different).mp among)
  case errands =>
    have own : lines.filter isErrand = lines := List.filter_eq_self.mpr advance.isErrand
    simp only [forwards.journal, List.filter_append, own, count]
    exact (books.errands.append_right lines).trans (flatMap_add_perm ledger known _ _ _)
  case inOrder =>
    intro other
    simp only [forwards.journal]
    by_cases here : other = index
    · subst here
      simp only [Ledger.deeds_add_self]
      exact (books.inOrder other).append_right lines
    · simp only [Ledger.deeds_add_of_ne here]
      exact (books.inOrder other).trans (List.sublist_append_left _ _)

end Enters

/-- One stage of an escalation. -/
theorem advance (books : Books origin attached cancelService alertService post ledger)
    (now : Span) (index : Nat) :
    ∃ lines requests alerts,
      (post.advanceEscalation now index).journal = post.journal ++ lines ∧
        (post.advanceEscalation now index).cancelCalls = post.cancelCalls + requests ∧
        (post.advanceEscalation now index).alertCalls = post.alertCalls + alerts ∧
        Books origin attached cancelService alertService (post.advanceEscalation now index)
          (ledger.add index lines requests alerts) := by
  rcases post.advanceEscalation_cases now index with
    ⟨same, -⟩ | ⟨course, stage, lines, requests, alerts, found, advance, forwards⟩
  · refine ⟨[], 0, 0, ?_⟩
    simp only [same, Ledger.add_nothing, List.append_nil, Nat.add_zero]
    exact ⟨trivial, trivial, trivial, books⟩
  · refine ⟨lines, requests, alerts, forwards.journal, forwards.requests, forwards.alerts, ?_⟩
    apply books.enters found advance forwards
    obtain ⟨force, tracks⟩ := books.tracks
    have errands := Errands.advanceEscalation post now index
    exact ⟨force, tracks.of_leaves errands.leaves.monitor
      (congrArg Desk.followers (Announces.of_errands errands).desk)⟩

/-- A turn of an escalation takes up to three stages. -/
theorem escalationTurn (books : Books origin attached cancelService alertService post ledger)
    (now : Span) (index : Nat) :
    Books origin attached cancelService alertService (post.escalationTurn now index)
      (ledger.note post (post.escalationTurn now index) (.turn (.escalation index))) := by
  obtain ⟨lines, requests, alerts, journal, asked, raised, first⟩ := books.advance now index
  obtain ⟨linesThen, requestsThen, alertsThen, journalThen, askedThen, raisedThen, second⟩ :=
    first.advance now index
  obtain ⟨linesLast, requestsLast, alertsLast, journalLast, askedLast, raisedLast, third⟩ :=
    second.advance now index
  simp only [journalThen, journal, List.append_assoc] at journalLast
  simp only [askedThen, asked, Nat.add_assoc] at askedLast
  simp only [raisedThen, raised, Nat.add_assoc] at raisedLast
  simp only [Ledger.add_add, List.append_assoc, Nat.add_assoc] at third
  have noted : ledger.note post (post.escalationTurn now index) (.turn (.escalation index)) =
      ledger.add index (lines ++ (linesThen ++ linesLast))
        (requests + (requestsThen + requestsLast)) (alerts + (alertsThen + alertsLast)) := by
    simp only [Ledger.note, Move.escalation?, MonitorPost.escalationTurn, journalLast, askedLast,
      raisedLast, List.drop_left, Nat.add_sub_cancel_left]
  simp only [noted]
  exact third

theorem step (books : Books origin attached cancelService alertService post ledger)
    (now : Span) (move : Move) :
    Books origin attached cancelService alertService (post.step now move)
      (ledger.note post (post.step now move) move) := by
  obtain ⟨force, tracks⟩ := books.tracks
  cases escalation : move.escalation? with
  | none =>
      obtain ⟨events, decided, yields, silent⟩ := tracks.step_yields now escalation
      simp only [Ledger.note, escalation]
      exact books.yields yields silent ⟨_, tracks.step now move⟩
  | some index =>
      have turn : move = .turn (.escalation index) := by
        match move, escalation with
        | .turn (.escalation _), same => exact congrArg _ (congrArg _ (Option.some.inj same))
      subst turn
      exact books.escalationTurn now index

/-- Along a history the ledger agrees with the post. -/
theorem run (books : Books origin attached cancelService alertService post ledger)
    (history : History) :
    Books origin attached cancelService alertService (post.run history)
      (post.record ledger history) := by
  induction history generalizing post ledger with
  | nil => exact books
  | cons entry later inductionHypothesis =>
      exact inductionHypothesis (books.step entry.1 entry.2)

end Books

end MonitorPost

end PlanSupervision
