import PlanSupervision.Proofs.Json.Sorting

/-!
How deep values nest. What is put together from a text nests no deeper than the limit, since what
is enclosed deeper has no value; and a rearrangement of members nests as deep as before.
-/

namespace PlanSupervision.Json

theorem itemsDepth_le_iff {items : List Json} {bound : Nat} :
    itemsDepth items ≤ bound ↔ ∀ item ∈ items, item.depth ≤ bound := by
  induction items with
  | nil => simp [itemsDepth]
  | cons item rest inductionHypothesis =>
      rw [itemsDepth, Nat.max_le, inductionHypothesis, List.forall_mem_cons]

theorem membersDepth_le_iff {members : List (String × Json)} {bound : Nat} :
    membersDepth members ≤ bound ↔ ∀ member ∈ members, member.2.depth ≤ bound := by
  induction members with
  | nil => simp [membersDepth]
  | cons member rest inductionHypothesis =>
      rw [membersDepth, Nat.max_le, inductionHypothesis, List.forall_mem_cons]

theorem Rearranged.depth_le {value other : Json} (rearranged : Rearranged value other) :
    other.depth ≤ value.depth := by
  induction rearranged with
  | refl value => exact Nat.le_refl _
  | trans _ _ earlier later => exact Nat.le_trans later earlier
  | @members members others perm =>
      refine Nat.succ_le_succ (membersDepth_le_iff.mpr fun member isMember => ?_)
      exact membersDepth_le_iff.mp (Nat.le_refl _) member (perm.mem_iff.mpr isMember)
  | @item before after value other _ inductionHypothesis =>
      refine Nat.succ_le_succ (itemsDepth_le_iff.mpr ?_)
      have each := itemsDepth_le_iff.mp (Nat.le_refl (itemsDepth (before ++ value :: after)))
      simp only [List.mem_append, List.mem_cons] at each ⊢
      rintro item (early | rfl | late)
      · exact each item (.inl early)
      · exact Nat.le_trans inductionHypothesis (each value (.inr (.inl rfl)))
      · exact each item (.inr (.inr late))
  | @member before after key value other _ inductionHypothesis =>
      refine Nat.succ_le_succ (membersDepth_le_iff.mpr ?_)
      have each := membersDepth_le_iff.mp
        (Nat.le_refl (membersDepth (before ++ (key, value) :: after)))
      simp only [List.mem_append, List.mem_cons] at each ⊢
      rintro member (early | rfl | late)
      · exact each member (.inl early)
      · exact Nat.le_trans inductionHypothesis (each (key, value) (.inr (.inl rfl)))
      · exact each member (.inr (.inr late))

mutual

/-- A draft nests at most that deep. -/
def Draft.Within (bound : Nat) : Draft → Prop
  | .array items _ => 0 < bound ∧ Draft.ItemsWithin (bound - 1) items
  | .object members _ => 0 < bound ∧ Draft.MembersWithin (bound - 1) members
  | _ => True

def Draft.ItemsWithin (bound : Nat) : List Draft → Prop
  | [] => True
  | item :: rest => Draft.Within bound item ∧ Draft.ItemsWithin bound rest

def Draft.MembersWithin (bound : Nat) : List (Option String × Draft) → Prop
  | [] => True
  | (_, value) :: rest => Draft.Within bound value ∧ Draft.MembersWithin bound rest

end

namespace Draft

theorem itemsWithin_iff {items : List Draft} {bound : Nat} :
    ItemsWithin bound items ↔ ∀ item ∈ items, item.Within bound := by
  induction items with
  | nil => simp [ItemsWithin]
  | cons item rest inductionHypothesis => simp [ItemsWithin, inductionHypothesis]

theorem membersWithin_iff {members : List (Option String × Draft)} {bound : Nat} :
    MembersWithin bound members ↔ ∀ member ∈ members, member.2.Within bound := by
  induction members with
  | nil => simp [MembersWithin]
  | cons member rest inductionHypothesis => simp [MembersWithin, inductionHypothesis]

theorem depth_le_of_within {value : Json} {bound : Nat} (within : (ofJson value).Within bound) :
    value.depth ≤ bound := by
  induction value using Json.induction generalizing bound with
  | null | bool | number | text => exact Nat.zero_le _
  | array items inductionHypothesis =>
      obtain ⟨positive, inside⟩ := within
      rw [itemsWithin_iff, ofItems_eq_map, List.forall_mem_map] at inside
      have below : itemsDepth items ≤ bound - 1 :=
        itemsDepth_le_iff.mpr fun item member => inductionHypothesis item member (inside item member)
      rw [depth]
      omega
  | object members inductionHypothesis =>
      obtain ⟨positive, inside⟩ := within
      rw [membersWithin_iff, ofMembers_eq_map, List.forall_mem_map] at inside
      have below : membersDepth members ≤ bound - 1 :=
        membersDepth_le_iff.mpr fun member isMember =>
          inductionHypothesis member isMember (inside member isMember)
      rw [depth]
      omega

theorem within_of_scalar {token : Token} {value : Draft} {bound : Nat}
    (scalar : Assembly.scalar? token = some value) : value.Within bound := by
  cases token <;> cases scalar <;> trivial

end Draft

namespace Assembly

variable {assembly : Assembly}

/-- All that is read so far in an open array or object. -/
def contents : Frame → List Draft
  | .items read => read
  | .members read _ => read.map Prod.snd

/-- What a token can do to what has been read: leave it, name the next member, open an array or
object, give a scalar its place, or close what is open. -/
inductive Advances (assembly : Assembly) : Assembly → Prop where
  | turned (turn : Turn) (clean : Bool) : Advances assembly { assembly with turn, clean }
  | named {read : List (Option String × Draft)} {key : Option (Option String)}
      {outer : List Frame} (frames : assembly.frames = .members read key :: outer)
      (name : Option String) (turn : Turn) :
      Advances assembly { assembly with frames := .members read (some name) :: outer, turn }
  | opened {frame : Frame} (empty : contents frame = []) (turn : Turn) :
      Advances assembly (assembly.enter frame turn)
  | placed {token : Token} {value : Draft} (scalar : scalar? token = some value) :
      Advances assembly (assembly.place value)
  | closed : Advances assembly assembly.close

theorem advances_stop (assembly : Assembly) : assembly.Advances assembly.stop :=
  .turned .stuck false

theorem advances_takeValue (assembly : Assembly) (token : Token) :
    assembly.Advances (assembly.takeValue token) := by
  cases token with
  | openArray | openObject => exact .opened rfl _
  | null => exact @Advances.placed _ .null _ rfl
  | bool value => exact @Advances.placed _ (.bool value) _ rfl
  | number value => exact @Advances.placed _ (.number value) _ rfl
  | text value => exact @Advances.placed _ (.text value) _ rfl
  | valueless isText => exact @Advances.placed _ (.valueless isText) _ rfl
  | closeArray | closeObject | comma | colon | broken => exact assembly.advances_stop

theorem advances_takeKey (assembly : Assembly) (token : Token) :
    assembly.Advances (assembly.takeKey token) := by
  rw [takeKey]
  split
  next frames _ => exact .named frames _ _
  next => exact assembly.advances_stop

theorem advances_step (assembly : Assembly) (token : Token) :
    assembly.Advances (assembly.step token) := by
  rw [step]
  cases assembly.turn with
  | value => exact assembly.advances_takeValue token
  | key => exact assembly.advances_takeKey token
  | ended | stuck => exact assembly.advances_stop
  | firstItem =>
      dsimp only
      split
      · exact .closed
      · exact assembly.advances_takeValue token
  | firstKey =>
      dsimp only
      split
      · exact .closed
      · exact assembly.advances_takeKey token
  | colon =>
      dsimp only
      split
      · exact .turned _ _
      · exact assembly.advances_stop
  | afterItem | afterMember =>
      dsimp only
      split
      · exact .turned _ _
      · split
        · exact .closed
        · exact assembly.advances_stop

/-- What every advance preserves holds after every run of tokens. -/
theorem run_of_advance {Invariant : Assembly → Prop}
    (preserved : ∀ {assembly next}, Invariant assembly → assembly.Advances next → Invariant next)
    (holds : Invariant assembly) (tokens : List Token) :
    Invariant (tokens.foldl Assembly.step assembly) := by
  induction tokens generalizing assembly with
  | nil => exact holds
  | cons token rest inductionHypothesis =>
      exact inductionHypothesis (preserved holds (assembly.advances_step token))

/-- What has been read leaves room for all that is open around it. -/
def Roomy : List Frame → Prop
  | [] => True
  | frame :: outer =>
      (∀ draft ∈ contents frame, draft.Within (depthLimit - (outer.length + 1))) ∧ Roomy outer

/-- Nothing nests deeper than the limit. -/
structure Bounded (assembly : Assembly) : Prop where
  roomy : Roomy assembly.frames
  root : ∀ draft, assembly.root = some draft → draft.Within depthLimit

theorem Bounded.place (bounded : assembly.Bounded) {value : Draft}
    (within : value.Within (depthLimit - assembly.frames.length)) :
    (assembly.place value).Bounded := by
  obtain ⟨frames, turn, root, clean⟩ := assembly
  obtain ⟨roomy, whole⟩ := bounded
  match frames with
  | [] =>
      refine ⟨trivial, fun draft isRoot => ?_⟩
      obtain rfl := Option.some.inj isRoot
      exact within
  | .items read :: outer =>
      obtain ⟨inside, around⟩ := roomy
      exact ⟨⟨List.forall_mem_cons.mpr ⟨within, inside⟩, around⟩, whole⟩
  | .members read key :: outer =>
      obtain ⟨inside, around⟩ := roomy
      exact ⟨⟨List.forall_mem_cons.mpr ⟨within, inside⟩, around⟩, whole⟩

theorem Bounded.close (bounded : assembly.Bounded) : assembly.close.Bounded := by
  obtain ⟨frames, turn, root, clean⟩ := assembly
  obtain ⟨roomy, whole⟩ := bounded
  match frames with
  | [] => exact ⟨trivial, whole⟩
  | frame :: outer =>
      obtain ⟨inside, around⟩ := roomy
      have outside : Bounded { frames := outer, turn, root, clean } := ⟨around, whole⟩
      refine outside.place ?_
      split
      next => trivial
      next shallow =>
        have room : outer.length + 1 ≤ depthLimit := Nat.not_lt.mp shallow
        have same : depthLimit - outer.length - 1 = depthLimit - (outer.length + 1) := by omega
        have positive : 0 < depthLimit - outer.length := by omega
        cases frame with
        | items read =>
            refine ⟨positive, Draft.itemsWithin_iff.mpr fun item member => ?_⟩
            exact same ▸ inside item (List.mem_reverse.mp member)
        | members read key =>
            refine ⟨positive, Draft.membersWithin_iff.mpr fun member isMember => ?_⟩
            exact same ▸ inside member.2 (List.mem_map_of_mem (List.mem_reverse.mp isMember))

theorem Bounded.advance {next : Assembly} (bounded : assembly.Bounded)
    (advances : assembly.Advances next) : next.Bounded := by
  obtain ⟨roomy, whole⟩ := bounded
  cases advances with
  | turned turn clean => exact ⟨roomy, whole⟩
  | named frames name turn =>
      rw [frames] at roomy
      exact ⟨roomy, whole⟩
  | opened empty turn => exact ⟨⟨empty ▸ List.forall_mem_nil _, roomy⟩, whole⟩
  | placed scalar => exact Bounded.place ⟨roomy, whole⟩ (Draft.within_of_scalar scalar)
  | closed => exact Bounded.close ⟨roomy, whole⟩

theorem Bounded.run (bounded : assembly.Bounded) (tokens : List Token) :
    (tokens.foldl Assembly.step assembly).Bounded :=
  run_of_advance Bounded.advance bounded tokens

theorem bounded_start : start.Bounded where
  roomy := trivial
  root := fun _ isRoot => nomatch isRoot

end Assembly

/-- What a text shows, if it holds that and nothing else, has been put together from its tokens. -/
theorem root_of_ofText {source : String} {draft : Draft}
    (isDraft : Draft.ofText source = (draft, true)) :
    ((Token.scan source.toList).foldl Assembly.step Assembly.start).root = some draft := by
  rw [Draft.ofText, Assembly.finish] at isDraft
  cases isRoot : ((Token.scan source.toList).foldl Assembly.step Assembly.start).root with
  | some root =>
      rw [isRoot] at isDraft
      exact congrArg some (Prod.mk.inj isDraft).1
  | none =>
      rw [isRoot] at isDraft
      dsimp only at isDraft
      split at isDraft <;> cases (Prod.mk.inj isDraft).2

/-- A value that a text has been put together to nests no deeper than the limit. -/
theorem depth_le_of_ofText {source : String} {value : Json}
    (isDraft : Draft.ofText source = (Draft.ofJson value, true)) :
    value.depth ≤ Assembly.depthLimit := by
  have bounded := Assembly.bounded_start.run (Token.scan source.toList)
  exact Draft.depth_le_of_within (bounded.root _ (root_of_ofText isDraft))

end PlanSupervision.Json
