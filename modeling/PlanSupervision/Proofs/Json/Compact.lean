import PlanSupervision.Proofs.Json.Assembly

/-!
The compact text of a value is one of its spellings. Texts are quoted with every character that
must be escaped, and integers are written in decimal; doubles are left aside.
-/

namespace PlanSupervision.Json

mutual

/-- Every number is an integer of 64 bits. -/
def Integral : Json → Prop
  | number (.integer value) => Number.Exact value
  | number (.real _) => False
  | array items => IntegralItems items
  | object members => IntegralMembers members
  | _ => True

def IntegralItems : List Json → Prop
  | [] => True
  | item :: rest => Integral item ∧ IntegralItems rest

def IntegralMembers : List (String × Json) → Prop
  | [] => True
  | (_, value) :: rest => Integral value ∧ IntegralMembers rest

end

theorem hexValue?_hexDigit : ∀ digit < 16, Quoted.hexValue? (hexDigit digit) = some digit := by
  decide

theorem spelledChar_escape (c : Char) : SpelledChar c (escape c) := by
  unfold escape
  split
  next isQuote => exact .short (by simp [isQuote, Quoted.escaped?])
  split
  next isBackslash => exact .short (by simp [isBackslash, Quoted.escaped?])
  split
  next isBackspace => exact .short (by simp [isBackspace, Quoted.escaped?])
  split
  next isTab => exact .short (by simp [isTab, Quoted.escaped?])
  split
  next isNewline => exact .short (by simp [isNewline, Quoted.escaped?])
  split
  next isFormFeed => exact .short (by simp [isFormFeed, Quoted.escaped?])
  split
  next isReturn => exact .short (by simp [isReturn, Quoted.escaped?])
  split
  next isControl =>
    have digits : SpelledUnit (16 * (16 * (16 * 0 + 0) + c.toNat / 16) + c.toNat % 16)
        ['0', '0', hexDigit (c.toNat / 16), hexDigit (c.toNat % 16)] :=
      .digits rfl rfl (hexValue?_hexDigit _ (by omega)) (hexValue?_hexDigit _ (by omega))
    have point : 16 * (16 * (16 * 0 + 0) + c.toNat / 16) + c.toNat % 16 = c.toNat := by omega
    rw [point] at digits
    have spelled := SpelledChar.unit digits (Or.inl (by omega))
    rwa [Char.ofNat_toNat] at spelled
  next noQuote noBackslash _ _ _ _ _ noControl =>
    exact .plain noQuote noBackslash (Nat.not_lt.mp noControl)

theorem spelledChars_flatMap_escape (value : List Char) :
    SpelledChars value (value.flatMap escape) := by
  induction value with
  | nil => exact .nil
  | cons c rest inductionHypothesis => exact .cons (spelledChar_escape c) inductionHypothesis

theorem spelled_quote (value : String) : Spelled (.value (.text value)) (quote value) :=
  .text (spelledChars_flatMap_escape value.toList)

theorem digit?_digitChar : ∀ digit < 10, Numeral.digit? (Nat.digitChar digit) = some digit := by
  decide

/-- A literal of whole digits, last first. -/
def Numeral.ofWhole (negative : Bool) (digits : List Nat) : Numeral :=
  ⟨negative, .whole, digits, [], false, 0⟩

namespace Numeral

theorem Extends.concat {numeral middle longer : Numeral} {characters : List Char} {c : Char}
    (first : numeral.Extends characters middle) (extended : middle.next c = .extended longer) :
    numeral.Extends (characters ++ [c]) longer := by
  induction first with
  | nil _ => exact .cons extended (.nil _)
  | cons step _ inductionHypothesis => exact .cons step (inductionHypothesis extended)

theorem gather_concat (digits : List Nat) (digit value taken : Nat)
    (gathered : gather 0 digits = ⟨value, taken, 0⟩) (small : 10 * value + digit < coefficientBound) :
    gather 0 (digits ++ [digit]) = ⟨10 * value + digit, taken + 1, 0⟩ := by
  rw [gather] at gathered ⊢
  rw [List.foldl_append, gathered, List.foldl_cons, List.foldl_nil]
  exact if_pos ⟨rfl, small⟩

/-- The decimal digits of a positive number open with one that is not zero, and are gathered to the
number. -/
theorem exists_toDigits (negative : Bool) {value : Nat} (positive : 0 < value)
    (small : value < coefficientBound) :
    ∃ c rest first digits taken, Nat.toDigits 10 value = c :: rest ∧ digit? c = some (first + 1) ∧
      (ofWhole negative [first + 1]).Extends rest (ofWhole negative digits) ∧
      gather 0 digits.reverse = ⟨value, taken, 0⟩ := by
  induction value using Nat.strongRecOn with
  | ind value inductionHypothesis =>
      by_cases short : value < 10
      · obtain ⟨first, rfl⟩ := Nat.exists_eq_succ_of_ne_zero (Nat.pos_iff_ne_zero.mp positive)
        refine ⟨_, [], first, [first + 1], 1, Nat.toDigits_of_lt_base short,
          digit?_digitChar _ short, .nil _, ?_⟩
        have gathered := gather_concat [] (first + 1) 0 0 rfl (by omega)
        simpa using gathered
      · obtain ⟨c, rest, first, digits, taken, written, opens, extends_, gathered⟩ :=
          inductionHypothesis (value / 10) (by omega) (by omega) (by omega)
        have last : value % 10 < 10 := Nat.mod_lt _ (by omega)
        refine ⟨c, rest ++ [Nat.digitChar (value % 10)], first, value % 10 :: digits, taken + 1,
          ?_, opens, extends_.concat ?_, ?_⟩
        · rw [Nat.toDigits_of_base_le (by omega) (by omega), written, List.cons_append]
        · simp [next, ofWhole, digit?_digitChar _ last]
        · have decimal : 10 * (value / 10) + value % 10 = value := by omega
          rw [List.reverse_cons, gather_concat _ _ _ _ gathered (by omega), decimal]

end Numeral

theorem spelledNumber_natural {value : Nat} (small : value < Numeral.coefficientBound) :
    SpelledNumber (.integer value) (Nat.toDigits 10 value) := by
  rcases Nat.eq_zero_or_pos value with rfl | positive
  · exact ⟨'0', [], _, _, rfl, rfl, .nil _, rfl, rfl⟩
  · obtain ⟨c, rest, first, digits, taken, written, opens, extends_, gathered⟩ :=
      Numeral.exists_toDigits false positive small
    have noSign : c ≠ '-' := by
      rintro rfl
      cases opens
    refine ⟨c, rest, _, _, written, ?_, extends_, rfl, ?_⟩
    · simp [Numeral.start?, noSign, opens, Numeral.ofWhole]
    · simp [Numeral.value?, Numeral.ofWhole, gathered]

theorem spelledNumber_negative {size : Nat} (positive : 0 < size)
    (small : size ≤ Numeral.negativeBound) :
    SpelledNumber (.integer (-size)) ('-' :: Nat.toDigits 10 size) := by
  have bounded : size < Numeral.coefficientBound := by
    rw [Numeral.negativeBound] at small
    rw [Numeral.coefficientBound]
    omega
  obtain ⟨c, rest, first, digits, taken, written, opens, extends_, gathered⟩ :=
    Numeral.exists_toDigits true positive bounded
  refine ⟨'-', c :: rest, _, _, by rw [written], rfl, .cons ?_ extends_, rfl, ?_⟩
  · simp [Numeral.next, Numeral.ofWhole, opens]
  · simp [Numeral.value?, Numeral.ofWhole, gathered, Nat.pos_iff_ne_zero.mp positive, small]

theorem spelledNumber_integer {value : Int} (exact_ : Number.Exact value) :
    SpelledNumber (.integer value) (Number.chars (.integer value)) := by
  obtain ⟨least, most⟩ := exact_
  by_cases negative : value < 0
  · have spelled := @spelledNumber_negative value.natAbs (by omega)
      (by rw [Numeral.negativeBound]; omega)
    have same : -(value.natAbs : Int) = value := by omega
    rw [same] at spelled
    rwa [Number.chars, if_pos negative]
  · have spelled := @spelledNumber_natural value.natAbs
      (by rw [Numeral.coefficientBound]; omega)
    have same : (value.natAbs : Int) = value := by omega
    rw [same] at spelled
    rwa [Number.chars, if_neg negative]

theorem integralItems_iff {items : List Json} :
    IntegralItems items ↔ ∀ item ∈ items, item.Integral := by
  induction items with
  | nil => simp [IntegralItems]
  | cons item rest inductionHypothesis => simp [IntegralItems, inductionHypothesis]

theorem integralMembers_iff {members : List (String × Json)} :
    IntegralMembers members ↔ ∀ member ∈ members, member.2.Integral := by
  induction members with
  | nil => simp [IntegralMembers]
  | cons member rest inductionHypothesis => simp [IntegralMembers, inductionHypothesis]

theorem spelled_itemChars {items : List Json}
    (spelled : ∀ item ∈ items, Spelled (.value item) item.chars) :
    Spelled (.items items) (itemChars items) := by
  induction items with
  | nil => exact .noItem
  | cons item rest inductionHypothesis =>
      obtain ⟨first, others⟩ := List.forall_mem_cons.mp spelled
      cases rest with
      | nil => exact .lastItem first
      | cons next more => exact .item first (inductionHypothesis others)

theorem spelled_memberChars {members : List (String × Json)}
    (spelled : ∀ member ∈ members, Spelled (.value member.2) member.2.chars) :
    Spelled (.members members) (memberChars members) := by
  induction members with
  | nil => exact .noMember
  | cons member rest inductionHypothesis =>
      obtain ⟨first, others⟩ := List.forall_mem_cons.mp spelled
      obtain ⟨key, value⟩ := member
      cases rest with
      | nil => exact .lastMember (spelled_quote key) first
      | cons next more =>
          have all := Spelled.member (spelled_quote key) first (inductionHypothesis others)
          simpa [memberChars] using all

/-- The compact text spells the value. -/
theorem spelled_chars {value : Json} (integral : value.Integral) :
    Spelled (.value value) value.chars := by
  induction value using induction with
  | null => exact .null
  | bool value =>
      cases value with
      | false => exact .no
      | true => exact .yes
  | number value =>
      cases value with
      | integer value => exact .number (spelledNumber_integer integral)
      | real value => exact absurd integral id
  | text value => exact spelled_quote value
  | array items inductionHypothesis =>
      have each := integralItems_iff.mp integral
      exact .array (spelled_itemChars fun item member =>
        inductionHypothesis item member (each item member))
  | object members inductionHypothesis =>
      have each := integralMembers_iff.mp integral
      exact .object (spelled_memberChars fun member isMember =>
        inductionHypothesis member isMember (each member isMember))

theorem spelled_render {value : Json} (integral : value.Integral) :
    Spelled (.value value) value.render.toList := by
  rw [render, String.toList_ofList]
  exact spelled_chars integral

/-- The compact text of a value has the draft of the value. -/
theorem ofText_render {value : Json} (integral : value.Integral)
    (shallow : value.depth ≤ Assembly.depthLimit) :
    Draft.ofText value.render = (Draft.ofJson value, true) :=
  ofText_of_spelled (spelled_render integral) shallow

end PlanSupervision.Json
