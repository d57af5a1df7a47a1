import PlanSupervision.Proofs.Json.Depth
import PlanSupervision.Proofs.Json.Aliases

/-!
What can be passed over. A member that nobody asks for only has to be well formed, and in a text
that holds one value and nothing else every part is, even one that names no value: a number beyond
the doubles, a text with half of a surrogate pair, or what nests too deep. Where the value itself is
wanted, such a part is refused as no JSON.
-/

namespace PlanSupervision.Json

namespace Draft

theorem skip_array (items : List Draft) : (array items true).skip = skipItems items := by
  rw [skip]
  cases skipItems items <;> rfl

theorem skip_object (members : List (Option String × Draft)) :
    (object members true).skip = skipMembers members := by
  rw [skip]
  cases skipMembers members <;> rfl

theorem skip_array_eq_ok_iff {items : List Draft} :
    (array items true).skip = .ok () ↔ ∀ item ∈ items, item.skip = .ok () := by
  rw [skip_array]
  induction items with
  | nil => simp [skipItems]
  | cons item rest inductionHypothesis =>
      rw [skipItems, bind_eq_ok_iff, List.forall_mem_cons, ← inductionHypothesis]
      exact Unique.exists_iff

theorem skip_object_eq_ok_iff {members : List (Option String × Draft)} :
    (object members true).skip = .ok () ↔ ∀ member ∈ members, member.2.skip = .ok () := by
  rw [skip_object]
  induction members with
  | nil => simp [skipMembers]
  | cons member rest inductionHypothesis =>
      obtain ⟨key, value⟩ := member
      rw [skipMembers, bind_eq_ok_iff, List.forall_mem_cons, ← inductionHypothesis]
      exact Unique.exists_iff

theorem skip_of_scalar {token : Token} {value : Draft}
    (scalar : Assembly.scalar? token = some value) : value.skip = .ok () := by
  cases token <;> cases scalar <;> rfl

/-- If it fails, then because the text is not JSON. -/
def FailsAsJson {Value : Type} (read : Except Fault Value) : Prop :=
  ∀ fault, read = .error fault → fault = .notJson

theorem failsAsJson_ok {Value : Type} (value : Value) : FailsAsJson (.ok value) := nofun

theorem FailsAsJson.bind {First Second : Type} {read : Except Fault First}
    {next : First → Except Fault Second} (fails : FailsAsJson read)
    (later : ∀ value, FailsAsJson (next value)) : FailsAsJson (read >>= next) := by
  intro fault refused
  cases read with
  | error other =>
      obtain rfl := Except.error.inj refused
      exact fails other rfl
  | ok value => exact later value fault refused

theorem failsAsJson_readKey (key : Option String) : FailsAsJson (readKey key) := by
  cases key with
  | none => exact fun fault refused => (Except.error.inj refused).symm
  | some name => exact failsAsJson_ok name

theorem failsAsJson_demandClosed (closed : Bool) : FailsAsJson (demandClosed closed) := by
  cases closed with
  | false => exact fun fault refused => (Except.error.inj refused).symm
  | true => exact failsAsJson_ok ()

/-- What has no value is refused as no JSON, whatever is amiss with it. -/
theorem failsAsJson_toJson (draft : Draft) : FailsAsJson draft.toJson := by
  induction draft using Draft.induction with
  | null | bool | number | text => exact failsAsJson_ok _
  | valueless | broken => exact fun fault refused => (Except.error.inj refused).symm
  | array items closed inductionHypothesis =>
      have all : FailsAsJson (toItems items) := by
        induction items with
        | nil => exact failsAsJson_ok []
        | cons item rest restHypothesis =>
            obtain ⟨first, others⟩ := List.forall_mem_cons.mp inductionHypothesis
            exact first.bind fun _ => (restHypothesis others).bind fun _ => failsAsJson_ok _
      exact all.bind fun _ => (failsAsJson_demandClosed closed).bind fun _ => failsAsJson_ok _
  | object members closed inductionHypothesis =>
      have all : ∀ read, FailsAsJson (toMembers read members) := by
        induction members with
        | nil => exact fun read => failsAsJson_ok read
        | cons member rest restHypothesis =>
            obtain ⟨key, value⟩ := member
            obtain ⟨first, others⟩ := List.forall_mem_cons.mp inductionHypothesis
            exact fun read => (failsAsJson_readKey key).bind fun _ =>
              first.bind fun _ => restHypothesis others _
      exact (all []).bind fun _ => (failsAsJson_demandClosed closed).bind fun _ => failsAsJson_ok _

end Draft

namespace Assembly

variable {assembly next : Assembly}

/-- All that has been read so far is well formed. -/
structure Whole (assembly : Assembly) : Prop where
  inside : ∀ frame ∈ assembly.frames, ∀ draft ∈ contents frame, draft.skip = .ok ()
  root : ∀ draft, assembly.root = some draft → draft.skip = .ok ()

theorem Whole.place (whole : assembly.Whole) {value : Draft} (skipped : value.skip = .ok ()) :
    (assembly.place value).Whole := by
  obtain ⟨frames, turn, root, clean⟩ := assembly
  obtain ⟨inside, done⟩ := whole
  match frames with
  | [] =>
      refine ⟨List.forall_mem_nil _, fun draft isRoot => ?_⟩
      obtain rfl := Option.some.inj isRoot
      exact skipped
  | .items read :: outer =>
      obtain ⟨here, around⟩ := List.forall_mem_cons.mp inside
      exact ⟨List.forall_mem_cons.mpr ⟨List.forall_mem_cons.mpr ⟨skipped, here⟩, around⟩, done⟩
  | .members read key :: outer =>
      obtain ⟨here, around⟩ := List.forall_mem_cons.mp inside
      exact ⟨List.forall_mem_cons.mpr ⟨List.forall_mem_cons.mpr ⟨skipped, here⟩, around⟩, done⟩

theorem skip_enclose {frame : Frame} (inside : ∀ draft ∈ contents frame, draft.skip = .ok ()) :
    (enclose frame true).skip = .ok () := by
  cases frame with
  | items read =>
      refine Draft.skip_array_eq_ok_iff.mpr fun item member => ?_
      exact inside item (List.mem_reverse.mp member)
  | members read key =>
      refine Draft.skip_object_eq_ok_iff.mpr fun member isMember => ?_
      exact inside member.2 (List.mem_map_of_mem (List.mem_reverse.mp isMember))

theorem Whole.close (whole : assembly.Whole) : assembly.close.Whole := by
  obtain ⟨frames, turn, root, clean⟩ := assembly
  obtain ⟨inside, done⟩ := whole
  match frames with
  | [] => exact ⟨inside, done⟩
  | frame :: outer =>
      obtain ⟨here, around⟩ := List.forall_mem_cons.mp inside
      have outside : Whole { frames := outer, turn, root, clean } := ⟨around, done⟩
      refine outside.place ?_
      split
      · rfl
      · exact skip_enclose here

theorem Whole.advance (whole : assembly.Whole) (advances : assembly.Advances next) :
    next.Whole := by
  obtain ⟨inside, done⟩ := whole
  cases advances with
  | turned turn clean => exact ⟨inside, done⟩
  | named frames name turn =>
      rw [frames] at inside
      obtain ⟨here, around⟩ := List.forall_mem_cons.mp inside
      exact ⟨List.forall_mem_cons.mpr ⟨here, around⟩, done⟩
  | opened empty turn =>
      exact ⟨List.forall_mem_cons.mpr ⟨empty ▸ List.forall_mem_nil _, inside⟩, done⟩
  | placed scalar => exact Whole.place ⟨inside, done⟩ (Draft.skip_of_scalar scalar)
  | closed => exact Whole.close ⟨inside, done⟩

theorem Whole.run (whole : assembly.Whole) (tokens : List Token) :
    (tokens.foldl Assembly.step assembly).Whole :=
  run_of_advance Whole.advance whole tokens

theorem whole_start : start.Whole := ⟨List.forall_mem_nil _, fun _ isRoot => nomatch isRoot⟩

end Assembly

/-- A text that holds one value and nothing else can be passed over. -/
theorem skip_of_ofText {source : String} {draft : Draft}
    (isDraft : Draft.ofText source = (draft, true)) : draft.skip = .ok () :=
  (Assembly.whole_start.run (Token.scan source.toList)).root draft (root_of_ofText isDraft)

end PlanSupervision.Json
