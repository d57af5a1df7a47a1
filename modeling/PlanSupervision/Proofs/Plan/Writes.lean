import PlanSupervision.Station

/-!
What is written in the journal of a station: the documents that were handed over, and the
resets of the watchdog that were steps of a plan. What observers do adds neither.
-/

namespace PlanSupervision

def Entry.document? : Entry → Option Document
  | handed document => some document
  | _ => none

/-- The entry is a step that resets the watchdog. -/
def Entry.isReset : Entry → Bool
  | stepped ⟨_, .reset, _, _⟩ => true
  | _ => false

namespace Journal

def documents (journal : Journal) : List Document :=
  journal.filterMap fun entry => entry.2.document?

def resets (journal : Journal) : List Span :=
  (journal.filter fun entry => entry.2.isReset).map Prod.fst

theorem documents_append (earlier later : Journal) :
    documents (earlier ++ later) = earlier.documents ++ later.documents :=
  List.filterMap_append

theorem resets_append (earlier later : Journal) :
    resets (earlier ++ later) = earlier.resets ++ later.resets := by
  rw [resets, List.filter_append, List.map_append]
  rfl

end Journal

/-- An entry that neither hands over a document nor resets the watchdog. -/
structure Entry.Aside (entry : Entry) : Prop where
  noDocument : entry.document? = none
  noReset : entry.isReset = false

theorem Observers.deliver_aside (observers : Observers) (document : Document)
    (order : List Nat) : ∀ entry ∈ (observers.deliver document order).entries, entry.Aside := by
  intro entry member
  have reaction := observers.isReaction_of_mem_deliver document order entry member
  cases entry with
  | delivered | logged => exact ⟨rfl, rfl⟩
  | _ => cases reaction

namespace Station

/-- From one state of a station to a later one these documents were handed over, and these
resets were steps of a plan. -/
def Writes (before after : Station) (documents : List Document) (resets : List Span) : Prop :=
  ∃ written : Journal, after.journal = before.journal ++ written ∧
    written.documents = documents ∧ written.resets = resets

variable {before after : Station} {documents : List Document} {resets : List Span}

theorem Writes.of_journal_eq (same : after.journal = before.journal) :
    Writes before after [] [] := by
  refine ⟨[], ?_, rfl, rfl⟩
  rw [same, List.append_nil]

theorem Writes.trans {last : Station} {laterDocuments : List Document} {laterResets : List Span}
    (first : Writes before after documents resets)
    (second : Writes after last laterDocuments laterResets) :
    Writes before last (documents ++ laterDocuments) (resets ++ laterResets) := by
  obtain ⟨earlier, earlierJournal, earlierDocuments, earlierResets⟩ := first
  obtain ⟨later, laterJournal, laterDocuments, laterResets⟩ := second
  refine ⟨earlier ++ later, ?_, ?_, ?_⟩
  · rw [laterJournal, earlierJournal, List.append_assoc]
  · rw [Journal.documents_append, earlierDocuments, laterDocuments]
  · rw [Journal.resets_append, earlierResets, laterResets]

theorem Writes.of_same {first last : Station} (writes : Writes before after documents resets)
    (start : before.journal = first.journal) (finish : last.journal = after.journal) :
    Writes first last documents resets := by
  obtain ⟨written, journal, handed, reset⟩ := writes
  exact ⟨written, by rw [finish, journal, start], handed, reset⟩

def handedUntil (before after : Station) : List Document :=
  Journal.documents (after.journal.drop before.journal.length)

theorem Writes.handedUntil_eq (writes : Writes before after documents resets) :
    before.handedUntil after = documents := by
  obtain ⟨written, journal, handed, _⟩ := writes
  rw [handedUntil, journal, List.drop_left, handed]

def resetsUntil (before after : Station) : List Span :=
  Journal.resets (after.journal.drop before.journal.length)

theorem Writes.resetsUntil_eq (writes : Writes before after documents resets) :
    before.resetsUntil after = resets := by
  obtain ⟨written, journal, _, reset⟩ := writes
  rw [resetsUntil, journal, List.drop_left, reset]

theorem documents_of_aside {entries : List Entry} (now : Span)
    (aside : ∀ entry ∈ entries, entry.Aside) :
    Journal.documents (entries.map fun entry => (now, entry)) = [] := by
  rw [Journal.documents, List.filterMap_map, List.filterMap_eq_nil_iff]
  intro entry member
  exact (aside entry member).noDocument

theorem resets_of_aside {entries : List Entry} (now : Span)
    (aside : ∀ entry ∈ entries, entry.Aside) :
    Journal.resets (entries.map fun entry => (now, entry)) = [] := by
  rw [Journal.resets, List.filter_map, List.map_eq_nil_iff, List.map_eq_nil_iff,
    List.filter_eq_nil_iff]
  intro entry member
  simp [(aside entry member).noReset]

theorem writes_write (station : Station) (now : Span) {entries : List Entry}
    (aside : ∀ entry ∈ entries, entry.Aside) :
    Writes station (station.write now entries) [] [] :=
  ⟨_, rfl, documents_of_aside now aside, resets_of_aside now aside⟩

theorem writes_publish (station : Station) (now : Span) (event : Event) :
    Writes station (station.publish now event) [] [] := by
  have aside : ∀ entry ∈ [Entry.published event], entry.Aside := by
    intro entry member
    obtain rfl := List.mem_singleton.mp member
    exact ⟨rfl, rfl⟩
  exact (station.writes_write now aside).of_same rfl rfl

theorem writes_dispatch (station : Station) (now : Span) (document : Document) :
    Writes station (station.dispatch now document).1 [document] [] := by
  have aside : ∀ entry ∈ (station.observers.dispatch document).entries, entry.Aside :=
    station.observers.deliver_aside document station.observers.router.snapshot
  refine ⟨_, rfl, ?_, ?_⟩
  · change document :: Journal.documents (List.map _ _) = [document]
    rw [documents_of_aside now aside]
  · have noResets := resets_of_aside now aside
    exact noResets

theorem makeUid_nonempty (station : Station) : station.makeUid.1.isEmpty = false :=
  (station.draws station.madeUids).nonempty

end Station

end PlanSupervision
