import PlanSupervision.Proofs.Document.Content
import PlanSupervision.Proofs.Json.Compact
import PlanSupervision.Proofs.Json.Depth

/-!
A text and its value are decoded alike. The members of a document are read in order, the content
at once if the name comes first and held back if it does not; the value of a text has its members
sorted, so its content is always held back. Main statement: if no object repeats a key, the two
decoders give the same document or refuse for the same reason, unless the exit status of a stop
has an empty payload. Of that they judge differently.
-/

namespace PlanSupervision

open Json

variable {members : List (String × Json)}

namespace Document.Reading

theorem readMembers_cons (reading : Reading) (key : String) (value : Json)
    (rest : List (String × Json)) :
    reading.readMembers (Draft.ofMembers ((key, value) :: rest)) =
      if key = "name" then
        reading.readName (Draft.ofJson value) >>= fun next =>
          next.readMembers (Draft.ofMembers rest)
      else if key = "doc" then
        reading.readContent (Draft.ofJson value) >>= fun next =>
          next.readMembers (Draft.ofMembers rest)
      else reading.readMembers (Draft.ofMembers rest) := by
  simp only [Draft.ofMembers, readMembers, readKey, bind, Except.bind, skip_ofJson]

/-- A member that is neither the name nor the content makes no difference. -/
theorem readMembers_other (reading : Reading) {key : String} (value : Json)
    (rest : List (String × Json)) (notName : key ≠ "name") (notContent : key ≠ "doc") :
    reading.readMembers (Draft.ofMembers ((key, value) :: rest)) =
      reading.readMembers (Draft.ofMembers rest) := by
  rw [readMembers_cons, if_neg notName, if_neg notContent]

theorem readMembers_complete (document : Document) (noName : members.lookup "name" = none)
    (noContent : members.lookup "doc" = none) :
    (complete document).readMembers (Draft.ofMembers members) = .ok (complete document) := by
  induction members with
  | nil => rfl
  | cons member rest inductionHypothesis =>
      obtain ⟨key, value⟩ := member
      have notName := Table.ne_of_lookup_cons_eq_none noName
      have notContent := Table.ne_of_lookup_cons_eq_none noContent
      rw [Table.lookup_cons_of_ne notName] at noName
      rw [Table.lookup_cons_of_ne notContent] at noContent
      rw [readMembers_other _ _ _ notName.symm notContent.symm, inductionHypothesis noName noContent]

/-- After the name the content is read where it stands. -/
theorem readMembers_tagged_iff {kind : DocumentKind} {document : Document}
    (distinct : Table.Distinct members) (noName : members.lookup "name" = none) :
    (tagged kind).readMembers (Draft.ofMembers members) = .ok (complete document) ↔
      ∃ content, members.lookup "doc" = some content ∧
        directReader kind (Draft.ofJson content) = .ok document := by
  induction members with
  | nil => simp [Draft.ofMembers, readMembers]
  | cons member rest inductionHypothesis =>
      obtain ⟨key, value⟩ := member
      have notName := Table.ne_of_lookup_cons_eq_none noName
      rw [Table.lookup_cons_of_ne notName] at noName
      by_cases isContent : key = "doc"
      · subst isContent
        have absent : rest.lookup "doc" = none :=
          Table.lookup_eq_none_iff.mpr (List.nodup_cons.mp distinct).1
        rw [readMembers_cons, if_neg notName.symm, if_pos rfl, List.lookup_cons_self,
          bind_eq_ok_iff]
        constructor
        · rintro ⟨next, taken, later⟩
          obtain ⟨other, isRead, same⟩ := exists_of_bind_ok taken
          obtain rfl := Except.ok.inj same
          rw [readMembers_complete other noName absent] at later
          obtain rfl := complete.inj (Except.ok.inj later)
          exact ⟨value, rfl, isRead⟩
        · rintro ⟨content, same, isRead⟩
          obtain rfl := Option.some.inj same
          refine ⟨complete document, ?_, readMembers_complete document noName absent⟩
          rw [readContent, isRead]
          rfl
      · rw [readMembers_other _ _ _ notName.symm isContent,
          Table.lookup_cons_of_ne (Ne.symm isContent)]
        exact inductionHypothesis distinct.of_cons noName

/-- Content that was held back is read after the name. -/
theorem readMembers_heldBack_iff {content : Draft} {document : Document}
    (distinct : Table.Distinct members) (noContent : members.lookup "doc" = none) :
    (heldBack content).readMembers (Draft.ofMembers members) = .ok (complete document) ↔
      ∃ tag kind, members.lookup "name" = some tag ∧
        Reader.variant DocumentKind.names (Draft.ofJson tag) = .ok kind ∧
        heldBackReader kind content = .ok document := by
  induction members with
  | nil => simp [Draft.ofMembers, readMembers]
  | cons member rest inductionHypothesis =>
      obtain ⟨key, value⟩ := member
      have notContent := Table.ne_of_lookup_cons_eq_none noContent
      rw [Table.lookup_cons_of_ne notContent] at noContent
      by_cases isName : key = "name"
      · subst isName
        have absent : rest.lookup "name" = none :=
          Table.lookup_eq_none_iff.mpr (List.nodup_cons.mp distinct).1
        rw [readMembers_cons, if_pos rfl, List.lookup_cons_self, bind_eq_ok_iff]
        constructor
        · rintro ⟨next, named, later⟩
          obtain ⟨kind, isTag, taken⟩ := exists_of_bind_ok named
          obtain ⟨other, isRead, same⟩ := exists_of_bind_ok taken
          obtain rfl := Except.ok.inj same
          rw [readMembers_complete other absent noContent] at later
          obtain rfl := complete.inj (Except.ok.inj later)
          exact ⟨value, kind, rfl, isTag, isRead⟩
        · rintro ⟨tag, kind, same, isTag, isRead⟩
          obtain rfl := Option.some.inj same
          refine ⟨complete document, ?_, readMembers_complete document absent noContent⟩
          simp only [readName, isTag, isRead, bind, Except.bind]
          rfl
      · rw [readMembers_other _ _ _ isName notContent.symm,
          Table.lookup_cons_of_ne (Ne.symm isName)]
        exact inductionHypothesis distinct.of_cons noContent

/-- The name comes before the content. -/
def nameFirst : List (String × Json) → Bool
  | [] => false
  | (key, _) :: rest => if key = "name" then true else if key = "doc" then false else nameFirst rest

/-- How content is read that stands among these members. -/
def contentReader (members : List (String × Json)) : DocumentKind → Reader Document :=
  if nameFirst members then directReader else heldBackReader

theorem contentReader_eq_ok_iff {content : Json} (distinct : content.DistinctKeys)
    {kind : DocumentKind} (filled : kind = .stop → ¬RunStop.EmptyPayload content)
    {document : Document} :
    contentReader members kind (Draft.ofJson content) = .ok document ↔
      heldBackReader kind (Draft.ofJson content) = .ok document := by
  rw [contentReader]
  split
  · rw [directReader_eq_ok_iff distinct]
    exact and_iff_left filled
  · rfl

/-- Members that have a name and a content give a document, in either order. -/
theorem readMembers_nothing_iff {document : Document} (distinct : Table.Distinct members) :
    nothing.readMembers (Draft.ofMembers members) = .ok (complete document) ↔
      ∃ tag content kind, members.lookup "name" = some tag ∧ members.lookup "doc" = some content ∧
        Reader.variant DocumentKind.names (Draft.ofJson tag) = .ok kind ∧
        contentReader members kind (Draft.ofJson content) = .ok document := by
  induction members with
  | nil => simp [Draft.ofMembers, readMembers]
  | cons member rest inductionHypothesis =>
      obtain ⟨key, value⟩ := member
      have absent : rest.lookup key = none :=
        Table.lookup_eq_none_iff.mpr (List.nodup_cons.mp distinct).1
      by_cases isName : key = "name"
      · subst isName
        have direct : contentReader (("name", value) :: rest) = directReader := rfl
        rw [readMembers_cons, if_pos rfl, List.lookup_cons_self,
          Table.lookup_cons_of_ne (by decide), bind_eq_ok_iff, direct]
        constructor
        · rintro ⟨next, isRead, later⟩
          obtain ⟨kind, isTag, same⟩ := exists_of_bind_ok isRead
          obtain rfl := Except.ok.inj same
          obtain ⟨content, isContent, isRead⟩ :=
            (readMembers_tagged_iff distinct.of_cons absent).mp later
          exact ⟨value, content, kind, rfl, isContent, isTag, isRead⟩
        · rintro ⟨tag, content, kind, same, isContent, isTag, isRead⟩
          obtain rfl := Option.some.inj same
          refine ⟨tagged kind, ?_,
            (readMembers_tagged_iff distinct.of_cons absent).mpr ⟨content, isContent, isRead⟩⟩
          rw [readName, isTag]
          rfl
      · by_cases isContent : key = "doc"
        · subst isContent
          have isHeldBack : contentReader (("doc", value) :: rest) = heldBackReader := rfl
          have held : nothing.readContent (Draft.ofJson value) =
              .ok (heldBack (Draft.ofJson value)) := by
            rw [readContent, toJson_ofJson]
            rfl
          have isRead := @readMembers_heldBack_iff rest (Draft.ofJson value) document
            distinct.of_cons absent
          rw [readMembers_cons, if_neg isName, if_pos rfl, List.lookup_cons_self,
            Table.lookup_cons_of_ne (by decide), held, isHeldBack]
          refine isRead.trans ⟨?_, ?_⟩
          · rintro ⟨tag, kind, isName, isTag, isRead⟩
            exact ⟨tag, value, kind, isName, rfl, isTag, isRead⟩
          · rintro ⟨tag, content, kind, isName, same, isTag, isRead⟩
            obtain rfl := Option.some.inj same
            exact ⟨tag, kind, isName, isTag, isRead⟩
        · have same : contentReader ((key, value) :: rest) = contentReader rest := by
            simp only [contentReader, nameFirst, if_neg isName, if_neg isContent]
          rw [readMembers_other _ _ _ isName isContent, Table.lookup_cons_of_ne (Ne.symm isName),
            Table.lookup_cons_of_ne (Ne.symm isContent), same]
          exact inductionHypothesis distinct.of_cons

/-- Among sorted members the content comes before the name. -/
theorem nameFirst_of_sorted (sorted : Table.Sorted members) {content : Json}
    (isContent : members.lookup "doc" = some content) : nameFirst members = false := by
  induction members with
  | nil => rfl
  | cons member rest inductionHypothesis =>
      obtain ⟨key, value⟩ := member
      obtain ⟨first, later⟩ := List.pairwise_cons.mp sorted
      by_cases here : key = "doc"
      · subst here
        rfl
      · rw [Table.lookup_cons_of_ne (Ne.symm here)] at isContent
        have notName : key ≠ "name" := by
          rintro rfl
          have above : "name" < "doc" := first _ (Table.mem_of_lookup isContent)
          exact absurd above (by decide)
        rw [nameFirst, if_neg notName, if_neg here]
        exact inductionHypothesis later isContent

end Document.Reading

namespace Document

/-- A document that is an object is read from what it has as name and as content. -/
theorem reader_object_eq_ok_iff (distinct : Table.Distinct members) {document : Document} :
    reader (Draft.ofJson (.object members)) = .ok document ↔
      ∃ tag content kind, members.lookup "name" = some tag ∧ members.lookup "doc" = some content ∧
        Reader.variant DocumentKind.names (Draft.ofJson tag) = .ok kind ∧
        Reading.contentReader members kind (Draft.ofJson content) = .ok document := by
  have unfolded : reader (Draft.ofJson (.object members)) =
      (Reading.nothing.readMembers (Draft.ofMembers members) >>= Reading.finish) := rfl
  rw [unfolded, ← Reading.readMembers_nothing_iff distinct, bind_eq_ok_iff]
  constructor
  · rintro ⟨reading, isRead, finished⟩
    cases reading with
    | nothing | tagged | heldBack => cases finished
    | complete other =>
        obtain rfl := Except.ok.inj finished
        exact isRead
  · intro isRead
    exact ⟨_, isRead, rfl⟩

/-- A document that is an array is read from its two items. -/
theorem reader_array_eq_ok_iff {items : List Json} {document : Document} :
    reader (Draft.ofJson (.array items)) = .ok document ↔
      ∃ tag content kind, items = [tag, content] ∧
        Reader.name DocumentKind.names (Draft.ofJson tag) = .ok kind ∧
        directReader kind (Draft.ofJson content) = .ok document := by
  constructor
  · intro isRead
    match items with
    | [] => cases isRead
    | [tag] =>
        obtain ⟨kind, _, refused⟩ := exists_of_bind_ok isRead
        cases refused
    | tag :: content :: rest =>
        obtain ⟨kind, isTag, isRead⟩ := exists_of_bind_ok isRead
        obtain ⟨other, isContent, isRead⟩ := exists_of_bind_ok isRead
        cases rest with
        | nil =>
            obtain rfl := Except.ok.inj isRead
            exact ⟨tag, content, kind, rfl, isTag, isContent⟩
        | cons item rest => cases isRead
  · rintro ⟨tag, content, kind, rfl, isTag, isContent⟩
    exact bind_eq_ok_iff.mpr ⟨kind, isTag, bind_eq_ok_iff.mpr ⟨document, isContent, rfl⟩⟩

/-- Of a document that is an array the order of members makes no difference. -/
theorem reader_array_sorted {items : List Json} (distinct : (Json.array items).DistinctKeys)
    {document : Document} :
    reader (Draft.ofJson (Json.array items).sorted) = .ok document ↔
      reader (Draft.ofJson (.array items)) = .ok document := by
  have each := distinctKeys_array.mp distinct
  have name : ∀ tag ∈ items, ∀ {kind},
      Reader.name DocumentKind.names (Draft.ofJson tag.sorted) = .ok kind ↔
        Reader.name DocumentKind.names (Draft.ofJson tag) = .ok kind :=
    fun tag isItem => (Reader.heedless_name _).eq_ok_iff (each tag isItem)
  have read : ∀ content ∈ items, ∀ {kind},
      directReader kind (Draft.ofJson content.sorted) = .ok document ↔
        directReader kind (Draft.ofJson content) = .ok document :=
    fun content isItem {kind} => (heedless_directReader kind).eq_ok_iff (each content isItem)
  rw [sorted, sortedItems_eq_map, reader_array_eq_ok_iff, reader_array_eq_ok_iff]
  constructor
  · rintro ⟨_, _, kind, isPair, isTag, isContent⟩
    obtain ⟨tag, rest, rfl, rfl, others⟩ := List.map_eq_cons_iff.mp isPair
    obtain ⟨content, last, rfl, rfl, none⟩ := List.map_eq_cons_iff.mp others
    obtain rfl := List.map_eq_nil_iff.mp none
    exact ⟨tag, content, kind, rfl, (name tag (by simp)).mp isTag,
      (read content (by simp)).mp isContent⟩
  · rintro ⟨tag, content, kind, rfl, isTag, isContent⟩
    exact ⟨tag.sorted, content.sorted, kind, rfl, (name tag (by simp)).mpr isTag,
      (read content (by simp)).mpr isContent⟩

theorem heedless_tag : (Reader.variant DocumentKind.names).Heedless :=
  Reader.heedless_nothing.variantOf DocumentKind.names

/-- A stop whose exit status has an empty object as its payload. -/
def EmptyPayload : Json → Prop
  | .object members =>
      ∃ tag content, members.lookup "name" = some tag ∧ members.lookup "doc" = some content ∧
        Reader.variant DocumentKind.names (Draft.ofJson tag) = .ok .stop ∧
        RunStop.EmptyPayload content
  | _ => False

/-- Unless it has an empty payload, a document is read from a value exactly if it is read from the
value with its members sorted. -/
theorem reader_sorted {value : Json} (distinct : value.DistinctKeys) (filled : ¬EmptyPayload value)
    {document : Document} :
    reader (Draft.ofJson value.sorted) = .ok document ↔
      reader (Draft.ofJson value) = .ok document := by
  cases value with
  | null | bool | number | text => rfl
  | array items => exact reader_array_sorted distinct
  | object members =>
      obtain ⟨keys, values⟩ := distinctKeys_object.mp distinct
      have sorted := sorted_sortedMembers sorted_nil members
      rw [Json.sorted, reader_object_eq_ok_iff sorted.distinct, reader_object_eq_ok_iff keys]
      constructor
      · rintro ⟨_, _, kind, foundName, foundContent, isTag, isRead⟩
        rw [Reading.contentReader, Reading.nameFirst_of_sorted sorted foundContent] at isRead
        rw [lookup_sorted keys] at foundName foundContent
        obtain ⟨tag, isName, rfl⟩ := Option.map_eq_some_iff.mp foundName
        obtain ⟨content, isContent, rfl⟩ := Option.map_eq_some_iff.mp foundContent
        have inside := values _ (Table.mem_of_lookup isContent)
        rw [heedless_tag.eq_ok_iff (values _ (Table.mem_of_lookup isName))] at isTag
        refine ⟨tag, content, kind, isName, isContent, isTag, ?_⟩
        rw [Reading.contentReader_eq_ok_iff inside (by
          rintro rfl empty
          exact filled ⟨tag, content, isName, isContent, isTag, empty⟩)]
        exact ((heedless_heldBackReader kind).eq_ok_iff inside).mp isRead
      · rintro ⟨tag, content, kind, isName, isContent, isTag, isRead⟩
        have inside := values _ (Table.mem_of_lookup isContent)
        rw [Reading.contentReader_eq_ok_iff inside (by
          rintro rfl empty
          exact filled ⟨tag, content, isName, isContent, isTag, empty⟩)] at isRead
        have sortedContent : (sortedMembers [] members).lookup "doc" = some content.sorted := by
          rw [lookup_sorted keys, isContent]
          rfl
        refine ⟨tag.sorted, content.sorted, kind, ?_, sortedContent,
          (heedless_tag.eq_ok_iff (values _ (Table.mem_of_lookup isName))).mpr isTag, ?_⟩
        · rw [lookup_sorted keys, isName]
          rfl
        · rw [Reading.contentReader, Reading.nameFirst_of_sorted sorted sortedContent]
          exact ((heedless_heldBackReader kind).eq_ok_iff inside).mpr isRead

/-- Two decoders give the same document, or both refuse it as malformed, or for the same empty
field. -/
inductive SameVerdict : Except DocumentError Document → Except DocumentError Document → Prop where
  | decoded (document : Document) : SameVerdict (.ok document) (.ok document)
  | malformed (fault other : Fault) :
      SameVerdict (.error (.malformed fault)) (.error (.malformed other))
  | emptyField (field : EmptyField) :
      SameVerdict (.error (.emptyField field)) (.error (.emptyField field))

theorem sameVerdict_accept {first second : Except Fault Document}
    (same : ∀ document, first = .ok document ↔ second = .ok document) :
    SameVerdict (accept first) (accept second) := by
  cases first with
  | ok document =>
      rw [(same document).mp rfl, accept]
      cases document.validate with
      | ok => exact .decoded document
      | error field => exact .emptyField field
  | error fault =>
      cases second with
      | ok document => cases (same document).mpr rfl
      | error other => exact .malformed fault other

/-- An empty payload is still one after sorting. -/
theorem EmptyPayload.sorted {value : Json} (distinct : value.DistinctKeys)
    (empty : EmptyPayload value) : EmptyPayload value.sorted := by
  cases value with
  | null | bool | number | text | array => cases empty
  | object members =>
      obtain ⟨keys, values⟩ := distinctKeys_object.mp distinct
      obtain ⟨tag, content, isName, isContent, isTag, status, isStatus⟩ := empty
      refine ⟨tag.sorted, content.sorted, ?_, ?_, ?_, status, ?_⟩
      · rw [lookup_sorted keys, isName]
        rfl
      · rw [lookup_sorted keys, isContent]
        rfl
      · exact (heedless_tag.eq_ok_iff (values _ (Table.mem_of_lookup isName))).mpr isTag
      · rw [Record.given_sorted (values _ (Table.mem_of_lookup isContent)), isStatus]
        rfl

/-- What is read from a text is what is read from what was written with its members sorted. -/
theorem readText_eq_ok_iff {source : String} {written : Json}
    (isDraft : Draft.ofText source = (Draft.ofJson written, true)) (distinct : written.DistinctKeys)
    (filled : ¬EmptyPayload written.sorted) {document : Document} :
    readText reader source = .ok document ↔ reader (Draft.ofJson written.sorted) = .ok document := by
  rw [readText_of_draft isDraft, reader_sorted distinct fun empty => filled (empty.sorted distinct)]

/-- A text and its value are decoded alike, and so are texts that differ in the order of members,
in whitespace and in how characters are escaped; no object may repeat a key, and the exit status
of a stop may not have an empty object as payload. -/
theorem decoders_agree {source : String} {value : Json} (parses : parse source = .ok value)
    (distinct : (Draft.ofText source).1.DistinctKeys) (filled : ¬EmptyPayload value) :
    SameVerdict (ofText source) (ofJson value) ∧
      ∀ written rewritten : Json, (Draft.ofText source).1 = Draft.ofJson written →
        Rearranged written rewritten → ∀ other : String,
          Spelled (.value rewritten) other.toList → SameVerdict (ofText source) (ofText other) := by
  obtain ⟨original, isDraft, rfl⟩ := exists_written parses
  constructor
  · rw [isDraft] at distinct
    exact sameVerdict_accept fun document => readText_eq_ok_iff isDraft distinct filled
  · intro written rewritten isWritten rearranged other spelled
    rw [isWritten] at distinct
    obtain ⟨alsoDistinct, sameSorted⟩ := rearranged.sorted_eq distinct
    have wrote : Draft.ofText source = (Draft.ofJson written, true) :=
      Prod.ext isWritten (by rw [isDraft])
    have sameValue : written.sorted = original.sorted := by
      have drafts : Draft.ofJson written = Draft.ofJson original :=
        isWritten.symm.trans (congrArg Prod.fst isDraft)
      have values := toJson_ofJson written
      rw [drafts, toJson_ofJson] at values
      exact (Except.ok.inj values).symm
    rw [← sameValue] at filled
    have shallow := Nat.le_trans rearranged.depth_le (depth_le_of_ofText wrote)
    have rewrote := ofText_of_spelled spelled shallow
    refine sameVerdict_accept fun document => ?_
    rw [readText_eq_ok_iff wrote distinct filled,
      readText_eq_ok_iff rewrote alsoDistinct (sameSorted ▸ filled), sameSorted]

/-- The stop of a run with this exit status, the name first. -/
def stopNameFirst (status : Json) : Json :=
  .object [("name", .text "stop"),
    ("doc", .object [("run_start", .text "r"), ("exit_status", status)])]

/-- The same stop with the content first and its fields the other way round. -/
def stopContentFirst (status : Json) : Json :=
  .object [("doc", .object [("exit_status", status), ("run_start", .text "r")]),
    ("name", .text "stop")]

theorem rearranged_stop (status : Json) :
    Rearranged (stopNameFirst status) (stopContentFirst status) :=
  .trans (.members (List.Perm.swap _ _ []))
    (@Rearranged.member [] _ "doc" _ _ (.members (List.Perm.swap _ _ [])))

theorem ofText_stop (status : Json) (integral : status.Integral) (shallow : status.depth ≤ 2) :
    Draft.ofText (stopNameFirst status).render = (Draft.ofJson (stopNameFirst status), true) := by
  apply ofText_render
  · simp [stopNameFirst, Integral, IntegralMembers, integral]
  · simp only [stopNameFirst, depth, membersDepth, Assembly.depthLimit]
    omega

theorem distinctKeys_stop {status : Json} (distinct : status.DistinctKeys) :
    (stopNameFirst status).DistinctKeys := by
  have content : (Json.object [("run_start", .text "r"), ("exit_status", status)]).DistinctKeys := by
    refine distinctKeys_object.mpr ⟨by simp [Table.Distinct], ?_⟩
    exact List.forall_mem_cons.mpr ⟨trivial, List.forall_mem_singleton.mpr distinct⟩
  refine distinctKeys_object.mpr ⟨by simp [Table.Distinct], ?_⟩
  exact List.forall_mem_cons.mpr ⟨trivial, List.forall_mem_singleton.mpr content⟩

/-- A plain stop is decoded alike in either order. -/
theorem plain_stop_decoded_alike :
    parse (stopNameFirst (.text "abort")).render = .ok (stopContentFirst (.text "abort")) ∧
      SameVerdict (ofText (stopNameFirst (.text "abort")).render)
        (ofJson (stopContentFirst (.text "abort"))) ∧
      SameVerdict (ofText (stopNameFirst (.text "abort")).render)
        (ofText (stopContentFirst (.text "abort")).render) := by
  have isDraft := ofText_stop (.text "abort") trivial (by decide)
  have parses : parse (stopNameFirst (.text "abort")).render =
      .ok (stopContentFirst (.text "abort")) := by
    rw [parse, readText_of_draft isDraft]
    rfl
  have distinct : (stopNameFirst (.text "abort")).DistinctKeys := distinctKeys_stop trivial
  have filled : ¬EmptyPayload (stopContentFirst (.text "abort")) := by
    rintro ⟨_, content, _, isContent, _, name, isStatus⟩
    obtain rfl := Option.some.inj isContent
    cases isStatus
  have spelled : Spelled (.value (stopContentFirst (.text "abort")))
      (stopContentFirst (.text "abort")).render.toList := spelled_render (by
    simp [stopContentFirst, Integral, IntegralMembers])
  obtain ⟨value, texts⟩ := decoders_agree parses (by rw [isDraft]; exact distinct) filled
  exact ⟨parses, value, texts _ _ (congrArg Prod.fst isDraft) (rearranged_stop _) _ spelled⟩

/-- A success with an empty object as its payload. -/
def successWithPayload : Json := .object [("success", .object [])]

/-- An exit status with an empty payload is refused where it stands and read once it was held
back, so the same stop is malformed as a text and read as a value. -/
theorem empty_payload_judged_by_order :
    parse (stopNameFirst successWithPayload).render =
        .ok (stopContentFirst successWithPayload) ∧
      (Draft.ofText (stopNameFirst successWithPayload).render).1.DistinctKeys ∧
      ofText (stopNameFirst successWithPayload).render =
        .error (.malformed .wrongType) ∧
      ofJson (stopContentFirst successWithPayload) =
        .ok (.stop ⟨"r", .success, none⟩) ∧
      ¬SameVerdict (ofText (stopNameFirst successWithPayload).render)
        (ofJson (stopContentFirst successWithPayload)) := by
  have isDraft := ofText_stop successWithPayload
    (by simp [successWithPayload, Integral, IntegralMembers])
    (by simp [successWithPayload, depth, membersDepth])
  have parses : parse (stopNameFirst successWithPayload).render =
      .ok (stopContentFirst successWithPayload) := by
    rw [parse, readText_of_draft isDraft]
    rfl
  have distinct : (stopNameFirst successWithPayload).DistinctKeys := by
    apply distinctKeys_stop
    refine distinctKeys_object.mpr ⟨by simp [Table.Distinct], ?_⟩
    exact List.forall_mem_singleton.mpr (distinctKeys_object.mpr
      ⟨List.nodup_nil, List.forall_mem_nil _⟩)
  have refused : ofText (stopNameFirst successWithPayload).render =
      .error (.malformed .wrongType) := by
    rw [ofText, readText_of_draft isDraft]
    rfl
  have decoded : ofJson (stopContentFirst successWithPayload) =
      .ok (.stop ⟨"r", .success, none⟩) := rfl
  refine ⟨parses, by rw [isDraft]; exact distinct, refused, decoded, ?_⟩
  rw [refused, decoded]
  intro same
  cases same

end Document

end PlanSupervision
