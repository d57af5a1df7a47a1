import PlanSupervision.Proofs.Json.Reading

/-!
Records whose fields go by several names. A member belongs to the field that its key is a name
of. An object is read as such a record if each field is given at most once, under whichever of
its names, and what is read for a field is what the object gives for it.
-/

namespace PlanSupervision.Json

/-- A value that nobody asks for is skipped whatever it is. -/
theorem skip_ofJson (value : Json) : (Draft.ofJson value).skip = .ok () := by
  induction value using induction with
  | null | bool | number | text => rfl
  | array items inductionHypothesis =>
      have all : Draft.skipItems (Draft.ofItems items) = .ok () := by
        induction items with
        | nil => rfl
        | cons item rest restHypothesis =>
            obtain ⟨first, others⟩ := List.forall_mem_cons.mp inductionHypothesis
            rw [Draft.ofItems, Draft.skipItems, first]
            exact restHypothesis others
      rw [Draft.ofJson, Draft.skip, all]
      rfl
  | object members inductionHypothesis =>
      have all : Draft.skipMembers (Draft.ofMembers members) = .ok () := by
        induction members with
        | nil => rfl
        | cons member rest restHypothesis =>
            obtain ⟨key, value⟩ := member
            obtain ⟨first, others⟩ := List.forall_mem_cons.mp inductionHypothesis
            have skipped : (Draft.ofJson value).skip = .ok () := first
            rw [Draft.ofMembers, Draft.skipMembers, skipped]
            exact restHypothesis others
      rw [Draft.ofJson, Draft.skip, all]
      rfl

def Slot.names (slot : Slot) : List String := slot.name :: slot.aliases

/-- What an object gives under these names. -/
def givenUnder (names : List String) (members : List (String × Json)) : List Json :=
  (members.filter (·.1 ∈ names)).map Prod.snd

theorem givenUnder_cons {names : List String} {key : String} (value : Json)
    (rest : List (String × Json)) :
    givenUnder names ((key, value) :: rest) =
      if key ∈ names then value :: givenUnder names rest else givenUnder names rest := by
  by_cases isName : key ∈ names <;> simp [givenUnder, isName]

namespace Record

/-- No key is a name of two fields. -/
def Apart (slots : List Slot) : Prop :=
  slots.Pairwise fun slot other => ∀ key ∈ slot.names, key ∉ other.names

variable {slots : List Slot} {slot other : Slot} {key : String} {value : Json}
  {present found : Present} {members : List (String × Json)}

theorem readMembers_cons (slots : List Slot) (present : Present) (key : String) (value : Json)
    (rest : List (String × Json)) :
    readMembers slots present (Draft.ofMembers ((key, value) :: rest)) =
      match slot? slots key with
      | none => readMembers slots present (Draft.ofMembers rest)
      | some slot =>
          if (present.lookup slot.name).isSome then .error (.duplicateField slot.name)
          else
            slot.accepts (Draft.ofJson value) >>= fun _ =>
              readMembers slots ((slot.name, Draft.ofJson value) :: present)
                (Draft.ofMembers rest) := by
  cases isSlot : slot? slots key with
  | none =>
      simp only [Draft.ofMembers, readMembers, readKey, bind, Except.bind, skip_ofJson, isSlot]
  | some slot => simp only [Draft.ofMembers, readMembers, readKey, bind, Except.bind, isSlot]

theorem slot?_eq (slots : List Slot) (key : String) :
    slot? slots key = slots.find? fun slot => key ∈ slot.names := by
  rw [slot?]
  congr 1
  funext slot
  rw [Bool.eq_iff_iff, Slot.names, decide_eq_true_iff, List.mem_cons, Bool.or_eq_true,
    beq_iff_eq, List.contains_iff_mem, eq_comm]

theorem Apart.slot?_eq_some_iff (apart : Apart slots) :
    slot? slots key = some slot ↔ slot ∈ slots ∧ key ∈ slot.names := by
  rw [slot?_eq]
  constructor
  · intro isSlot
    exact ⟨List.mem_of_find?_eq_some isSlot, by simpa using List.find?_some isSlot⟩
  · rintro ⟨member, isName⟩
    induction slots with
    | nil => cases member
    | cons first rest inductionHypothesis =>
        obtain ⟨foreign, later⟩ := List.pairwise_cons.mp apart
        rcases List.mem_cons.mp member with rfl | member
        · exact List.find?_cons_of_pos (by simpa using isName)
        · have notFirst : key ∉ first.names := fun isFirst =>
            foreign slot member key isFirst isName
          rw [List.find?_cons_of_neg (by simpa using notFirst)]
          exact inductionHypothesis later member

theorem Apart.eq_of_mem (apart : Apart slots) (member : slot ∈ slots) (isOther : other ∈ slots)
    (isName : key ∈ slot.names) (alsoName : key ∈ other.names) : slot = other :=
  Option.some.inj ((apart.slot?_eq_some_iff.mpr ⟨member, isName⟩).symm.trans
    (apart.slot?_eq_some_iff.mpr ⟨isOther, alsoName⟩))

/-- A member of one field is none of another's. -/
theorem Apart.name_ne (apart : Apart slots) (member : slot ∈ slots) (isOther : other ∈ slots)
    (isName : key ∈ other.names) (noName : key ∉ slot.names) : slot.name ≠ other.name := by
  intro same
  have isSlot : slot.name ∈ slot.names := List.mem_cons_self
  have isOtherName : slot.name ∈ other.names := same ▸ List.mem_cons_self
  obtain rfl := apart.eq_of_mem member isOther isSlot isOtherName
  exact noName isName

/-- What is read for a field is what the object gives for it, once at most. -/
theorem Apart.lookup_readMembers (apart : Apart slots)
    (isRead : readMembers slots present (Draft.ofMembers members) = .ok found)
    (member : slot ∈ slots) :
    (found.lookup slot.name).toList =
      (givenUnder slot.names members).map Draft.ofJson ++ (present.lookup slot.name).toList := by
  induction members generalizing present with
  | nil =>
      obtain rfl := Except.ok.inj isRead
      rfl
  | cons entry rest inductionHypothesis =>
      obtain ⟨key, value⟩ := entry
      rw [readMembers_cons] at isRead
      rw [givenUnder_cons]
      cases isSlot : slot? slots key with
      | none =>
          rw [isSlot] at isRead
          have noName : key ∉ slot.names := by
            intro isName
            rw [apart.slot?_eq_some_iff.mpr ⟨member, isName⟩] at isSlot
            cases isSlot
          rw [if_neg noName]
          exact inductionHypothesis isRead
      | some owner =>
          obtain ⟨isOwner, isName⟩ := apart.slot?_eq_some_iff.mp isSlot
          rw [isSlot] at isRead
          dsimp only at isRead
          split at isRead
          next => cases isRead
          next fresh =>
            obtain ⟨_, _, isRead⟩ := exists_of_bind_ok isRead
            have same := inductionHypothesis isRead
            by_cases own : key ∈ slot.names
            · obtain rfl := apart.eq_of_mem member isOwner own isName
              have absent : present.lookup slot.name = none :=
                Option.not_isSome_iff_eq_none.mp fresh
              rw [List.lookup_cons_self] at same
              have once : (found.lookup slot.name).toList.length ≤ 1 := by
                cases found.lookup slot.name <;> simp
              have nothing : givenUnder slot.names rest = [] := by
                rw [same] at once
                simpa using once
              rw [same, nothing, if_pos own, absent]
              rfl
            · rw [if_neg own]
              rwa [Table.lookup_cons_of_ne (apart.name_ne member isOwner isName own)] at same

theorem Apart.exists_readMembers (apart : Apart slots)
    (once : ∀ slot ∈ slots,
      (givenUnder slot.names members).length + (present.lookup slot.name).toList.length ≤ 1)
    (accepted : ∀ slot ∈ slots, ∀ value ∈ givenUnder slot.names members,
      slot.accepts (Draft.ofJson value) = .ok ()) :
    ∃ found, readMembers slots present (Draft.ofMembers members) = .ok found := by
  induction members generalizing present with
  | nil => exact ⟨present, rfl⟩
  | cons entry rest inductionHypothesis =>
      obtain ⟨key, value⟩ := entry
      rw [readMembers_cons]
      cases isSlot : slot? slots key with
      | none =>
          have noName : ∀ slot ∈ slots, key ∉ slot.names := by
            intro slot member isName
            rw [apart.slot?_eq_some_iff.mpr ⟨member, isName⟩] at isSlot
            cases isSlot
          apply inductionHypothesis
          · intro slot member
            simpa [givenUnder_cons, noName slot member] using once slot member
          · intro slot member
            simpa [givenUnder_cons, noName slot member] using accepted slot member
      | some owner =>
          obtain ⟨isOwner, isName⟩ := apart.slot?_eq_some_iff.mp isSlot
          have first := accepted owner isOwner value (by simp [givenUnder_cons, isName])
          have alone := once owner isOwner
          rw [givenUnder_cons, if_pos isName, List.length_cons] at alone
          have absent : present.lookup owner.name = none := by
            cases isPresent : present.lookup owner.name with
            | none => rfl
            | some draft =>
                rw [isPresent] at alone
                simp at alone
          obtain ⟨found, isRead⟩ := @inductionHypothesis
            ((owner.name, Draft.ofJson value) :: present) (by
              intro slot member
              by_cases own : key ∈ slot.names
              · obtain rfl := apart.eq_of_mem member isOwner own isName
                rw [List.lookup_cons_self]
                simpa [absent] using alone
              · rw [Table.lookup_cons_of_ne (apart.name_ne member isOwner isName own)]
                simpa [givenUnder_cons, own] using once slot member) (by
              intro slot member other given
              apply accepted slot member
              rw [givenUnder_cons]
              split
              · exact List.mem_cons_of_mem _ given
              · exact given)
          refine ⟨found, ?_⟩
          dsimp only
          rw [absent, first]
          exact isRead

theorem accepts_of_read {Content : Type} {field : RecordField Content} {content : Content}
    {draft : Draft} (isRead : field.read draft = .ok content) :
    field.slot.accepts draft = .ok () := by
  change (field.read draft).map (fun _ => ()) = .ok ()
  rw [isRead]
  rfl

theorem present_closed (slots : List Slot) (all : List (Option String × Draft)) :
    Record.present slots (.object all true) = readMembers slots [] all := by
  rw [Record.present]
  cases readMembers slots [] all <;> rfl

theorem present_object (slots : List Slot) (members : List (String × Json)) :
    Record.present slots (Draft.ofJson (.object members)) =
      readMembers slots [] (Draft.ofMembers members) :=
  present_closed slots (Draft.ofMembers members)

/-- A field without default takes what it is given exactly once. -/
theorem Apart.get_eq_ok_iff {Content : Type} {field : RecordField Content} {content : Content}
    (apart : Apart slots) (isRead : readMembers slots [] (Draft.ofMembers members) = .ok found)
    (member : field.slot ∈ slots) (needed : field.absent = none) :
    get found field = .ok content ↔
      ∃ value, givenUnder field.slot.names members = [value] ∧
        field.read (Draft.ofJson value) = .ok content := by
  have same := apart.lookup_readMembers isRead member
  change (found.lookup field.name).toList = _ at same
  rw [get, needed]
  cases isFound : found.lookup field.name with
  | none =>
      rw [isFound, List.lookup_nil, Option.toList_none, List.append_nil] at same
      have nothing := List.map_eq_nil_iff.mp same.symm
      simp [nothing]
  | some draft =>
      rw [isFound, List.lookup_nil, Option.toList_none, Option.toList_some,
        List.append_nil] at same
      obtain ⟨value, given, rfl⟩ := List.map_eq_singleton_iff.mp same.symm
      simp [given]

end Record

end PlanSupervision.Json
