import PlanSupervision.Proofs.Json.Spelling

/-!
What is spelled is read back. The tokens of a value that does not nest too deep are put together
to the draft of that value, whatever is still open around it; so a text that spells a value has
the draft of the value, with the members of objects in their order.
-/

namespace PlanSupervision.Json

/-- Induction on a value, with one hypothesis for all items and one for all members. -/
@[elab_as_elim]
theorem induction {motive : Json → Prop} (null : motive .null)
    (bool : ∀ value, motive (.bool value)) (number : ∀ value, motive (.number value))
    (text : ∀ value, motive (.text value))
    (array : ∀ items, (∀ item ∈ items, motive item) → motive (.array items))
    (object : ∀ members, (∀ member ∈ members, motive member.2) → motive (.object members))
    (value : Json) : motive value :=
  @Json.rec motive (fun items => ∀ item ∈ items, motive item)
    (fun members => ∀ member ∈ members, motive member.2) (fun member => motive member.2)
    null bool number text array object
    (List.forall_mem_nil _) (fun _ _ first others => List.forall_mem_cons.mpr ⟨first, others⟩)
    (List.forall_mem_nil _) (fun _ _ first others => List.forall_mem_cons.mpr ⟨first, others⟩)
    (fun _ _ holds => holds) value

mutual

/-- How deep arrays and objects nest, the outermost counted. -/
def depth : Json → Nat
  | array items => itemsDepth items + 1
  | object members => membersDepth members + 1
  | _ => 0

def itemsDepth : List Json → Nat
  | [] => 0
  | item :: rest => max (depth item) (itemsDepth rest)

def membersDepth : List (String × Json) → Nat
  | [] => 0
  | (_, value) :: rest => max (depth value) (membersDepth rest)

end

theorem ofItems_eq_map (items : List Json) : Draft.ofItems items = items.map Draft.ofJson := by
  induction items with
  | nil => rfl
  | cons item rest inductionHypothesis => rw [Draft.ofItems, inductionHypothesis, List.map_cons]

/-- A member of a draft that stands for a member of a value. -/
def draftMember (member : String × Json) : Option String × Draft :=
  (some member.1, Draft.ofJson member.2)

theorem ofMembers_eq_map (members : List (String × Json)) :
    Draft.ofMembers members = members.map draftMember := by
  induction members with
  | nil => rfl
  | cons member rest inductionHypothesis =>
      rw [Draft.ofMembers, inductionHypothesis, List.map_cons]
      rfl

namespace Assembly

/-- A value may come next, and it may nest that deep. -/
structure Awaits (assembly : Assembly) (depth : Nat) : Prop where
  turn : assembly.turn = .value ∨ assembly.turn = .firstItem
  room : assembly.frames.length + depth ≤ depthLimit

variable {assembly : Assembly} {outer : List Frame}

theorem Awaits.step {depth : Nat} {token : Token} (awaits : assembly.Awaits depth)
    (opens : token ≠ .closeArray) : assembly.step token = assembly.takeValue token := by
  rcases awaits.turn with turn | turn <;> simp [Assembly.step, turn, opens]

/-- The assembly with further items read, after the last of them. -/
def withItems (assembly : Assembly) (outer : List Frame) (read : List Draft) : Assembly :=
  { assembly with frames := .items read :: outer, turn := .afterItem }

def withMembers (assembly : Assembly) (outer : List Frame)
    (read : List (Option String × Draft)) : Assembly :=
  { assembly with frames := .members read none :: outer, turn := .afterMember }

/-- What it means for the tokens of a value to be put together. -/
def Places (value : Json) : Prop :=
  ∀ assembly : Assembly, assembly.Awaits value.depth →
    value.tokens.foldl step assembly = assembly.place (Draft.ofJson value)

theorem foldl_itemTokens (assembly : Assembly) (outer : List Frame) {items : List Json}
    {read : List Draft} (nonempty : items ≠ [])
    (places : ∀ item ∈ items, Places item) (frames : assembly.frames = .items read :: outer)
    (awaits : assembly.Awaits (itemsDepth items)) :
    (itemTokens items).foldl step assembly =
      assembly.withItems outer ((items.map Draft.ofJson).reverse ++ read) := by
  induction items generalizing assembly read with
  | nil => exact absurd rfl nonempty
  | cons item rest inductionHypothesis =>
      obtain ⟨turn, room⟩ := awaits
      have shallow : assembly.Awaits item.depth := ⟨turn, by rw [itemsDepth] at room; omega⟩
      have placed := places item List.mem_cons_self assembly shallow
      have after : assembly.place (Draft.ofJson item) =
          assembly.withItems outer (Draft.ofJson item :: read) := by
        simp only [place, frames, withItems]
      cases rest with
      | nil => simpa [itemTokens, after] using placed
      | cons next others =>
          let further := (assembly.withItems outer (Draft.ofJson item :: read)).step .comma
          have later : further.Awaits (itemsDepth (next :: others)) := by
            refine ⟨Or.inl rfl, ?_⟩
            have sameLength : further.frames.length = assembly.frames.length := by
              rw [frames]
              rfl
            rw [itemsDepth] at room
            omega
          have continued := inductionHypothesis further (by simp)
            (fun item member => places item (List.mem_cons_of_mem _ member)) rfl later
          rw [itemTokens, List.foldl_append, placed, List.foldl_cons, after, continued]
          · simp [further, withItems, Assembly.step]
          · simp

theorem foldl_memberTokens (assembly : Assembly) (outer : List Frame)
    {members : List (String × Json)} {read : List (Option String × Draft)}
    {key : Option (Option String)} (nonempty : members ≠ [])
    (places : ∀ member ∈ members, Places member.2)
    (frames : assembly.frames = .members read key :: outer)
    (turn : assembly.turn = .key ∨ assembly.turn = .firstKey)
    (room : assembly.frames.length + membersDepth members ≤ depthLimit) :
    (memberTokens members).foldl step assembly =
      assembly.withMembers outer ((members.map draftMember).reverse ++ read) := by
  induction members generalizing assembly read key with
  | nil => exact absurd rfl nonempty
  | cons member rest inductionHypothesis =>
      obtain ⟨name, value⟩ := member
      let opened : Assembly :=
        { assembly with frames := .members read (some (some name)) :: outer, turn := .value }
      have opens : (assembly.step (.text name)).step .colon = opened := by
        have keyed : assembly.step (.text name) = assembly.takeKey (.text name) := by
          rcases turn with turn | turn <;> simp [step, turn]
        rw [keyed]
        simp [takeKey, frames, key?, step, opened]
      have sameLength : opened.frames.length = assembly.frames.length := by
        rw [frames]
        rfl
      rw [membersDepth] at room
      have shallow : opened.Awaits value.depth := ⟨Or.inl rfl, by omega⟩
      have placed := places (name, value) List.mem_cons_self opened shallow
      have after : opened.place (Draft.ofJson value) =
          assembly.withMembers outer (draftMember (name, value) :: read) := rfl
      cases rest with
      | nil =>
          rw [memberTokens, List.foldl_cons, List.foldl_cons, opens, placed, after]
          rfl
      | cons next others =>
          let further := (assembly.withMembers outer (draftMember (name, value) :: read)).step .comma
          have furtherRoom : further.frames.length + membersDepth (next :: others) ≤ depthLimit := by
            have furtherLength : further.frames.length = assembly.frames.length := by
              rw [frames]
              rfl
            omega
          have continued := inductionHypothesis further (by simp)
            (fun member isMember => places member (List.mem_cons_of_mem _ isMember)) rfl
            (Or.inl rfl) furtherRoom
          rw [memberTokens, List.cons_append, List.cons_append, List.foldl_cons, List.foldl_cons,
            List.foldl_append, opens, placed, List.foldl_cons, after, continued]
          · simp [further, withMembers, step]
          · simp

/-- A closed frame that is not too deep is placed as a value. -/
theorem close_eq (assembly : Assembly) (outer : List Frame) {frame : Frame}
    (frames : assembly.frames = frame :: outer) (room : assembly.frames.length ≤ depthLimit) :
    assembly.close = ({ assembly with frames := outer } : Assembly).place (enclose frame true) := by
  rw [frames] at room
  simp only [close, frames, if_neg (Nat.not_lt.mpr room)]

theorem places (value : Json) : Places value := by
  induction value using induction with
  | null | bool | number | text =>
      intro assembly awaits
      exact awaits.step (by simp)
  | array items inductionHypothesis =>
      intro assembly awaits
      have opens : assembly.step .openArray = assembly.enter (.items []) .firstItem :=
        awaits.step (by simp)
      have room := awaits.room
      rw [depth] at room
      rw [tokens, List.cons_append, List.foldl_cons, opens, List.foldl_append, List.foldl_cons,
        List.foldl_nil, Draft.ofJson, ofItems_eq_map]
      by_cases empty : items = []
      · subst empty
        have closed := close_eq (assembly.enter (.items []) .firstItem) assembly.frames rfl
          (by simp only [enter, List.length_cons]; omega)
        simpa [itemTokens, step, enter, place, enclose] using closed
      · have filled := foldl_itemTokens (assembly.enter (.items []) .firstItem) assembly.frames
          empty inductionHypothesis rfl
          ⟨Or.inr rfl, by simp only [enter, List.length_cons]; omega⟩
        have closed := close_eq ((assembly.enter (.items []) .firstItem).withItems assembly.frames
            ((items.map Draft.ofJson).reverse ++ [])) assembly.frames rfl
          (by simp only [withItems, List.length_cons]; omega)
        rw [filled]
        simpa [withItems, step, enter, place, enclose] using closed
  | object members inductionHypothesis =>
      intro assembly awaits
      have opens : assembly.step .openObject = assembly.enter (.members [] none) .firstKey :=
        awaits.step (by simp)
      have room := awaits.room
      rw [depth] at room
      rw [tokens, List.cons_append, List.foldl_cons, opens, List.foldl_append, List.foldl_cons,
        List.foldl_nil, Draft.ofJson, ofMembers_eq_map]
      by_cases empty : members = []
      · subst empty
        have closed := close_eq (assembly.enter (.members [] none) .firstKey) assembly.frames rfl
          (by simp only [enter, List.length_cons]; omega)
        simpa [memberTokens, step, enter, place, enclose] using closed
      · have filled := foldl_memberTokens (assembly.enter (.members [] none) .firstKey) assembly.frames
          empty inductionHypothesis rfl (Or.inr rfl)
          (by simp only [enter, List.length_cons]; omega)
        have closed := close_eq ((assembly.enter (.members [] none) .firstKey).withMembers assembly.frames
            ((members.map draftMember).reverse ++ [])) assembly.frames rfl
          (by simp only [withMembers, List.length_cons]; omega)
        rw [filled]
        simpa [withMembers, step, enter, place, enclose] using closed

end Assembly

/-- However a value is spelled, its text has the draft of the value. -/
theorem ofText_of_spelled {value : Json} {source : String}
    (spelled : Spelled (.value value) source.toList)
    (shallow : value.depth ≤ Assembly.depthLimit) :
    Draft.ofText source = (Draft.ofJson value, true) := by
  have placed := Assembly.places value Assembly.start
    ⟨Or.inl rfl, by simpa [Assembly.start] using shallow⟩
  have scanned : Token.scan source.toList = value.tokens := spelled.scans.scan
  rw [Draft.ofText, scanned, placed]
  rfl

end PlanSupervision.Json
