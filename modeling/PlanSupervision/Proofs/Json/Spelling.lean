import PlanSupervision.Json.Draft

/-!
How values are spelled. A spelling may put blanks between any two tokens and write the characters
of a text plainly or escaped; the members of an object come in the order in which they are
listed. However a value is spelled, the scanner gives its tokens.
-/

namespace PlanSupervision.Json

def IsBlank (c : Char) : Prop := c = ' ' ∨ c = '\t' ∨ c = '\n' ∨ c = '\r'

/-- Four hexadecimal digits, in letters of either case. -/
inductive SpelledUnit : Nat → List Char → Prop where
  | digits {first second third fourth : Char} {a b c d : Nat}
      (isFirst : Quoted.hexValue? first = some a) (isSecond : Quoted.hexValue? second = some b)
      (isThird : Quoted.hexValue? third = some c) (isFourth : Quoted.hexValue? fourth = some d) :
      SpelledUnit (16 * (16 * (16 * a + b) + c) + d) [first, second, third, fourth]

/-- A character as it may stand between quotes. -/
inductive SpelledChar : Char → List Char → Prop where
  | plain {c : Char} (noQuote : c ≠ '"') (noBackslash : c ≠ '\\') (noControl : 32 ≤ c.toNat) :
      SpelledChar c [c]
  | short {c sign : Char} (escaped : Quoted.escaped? sign = some c) : SpelledChar c ['\\', sign]
  | unit {point : Nat} {digits : List Char} (spelled : SpelledUnit point digits)
      (whole : point < 0xd800 ∨ 0xe000 ≤ point) :
      SpelledChar (Char.ofNat point) ('\\' :: 'u' :: digits)
  | pair {high low : Nat} {highDigits lowDigits : List Char}
      (spelledHigh : SpelledUnit high highDigits) (spelledLow : SpelledUnit low lowDigits)
      (isHigh : 0xd800 ≤ high ∧ high < 0xdc00) (isLow : 0xdc00 ≤ low ∧ low < 0xe000) :
      SpelledChar (Char.ofNat (0x10000 + (high - 0xd800) * 0x400 + (low - 0xdc00)))
        ('\\' :: 'u' :: highDigits ++ '\\' :: 'u' :: lowDigits)

inductive SpelledChars : List Char → List Char → Prop where
  | nil : SpelledChars [] []
  | cons {c : Char} {rest spelling more : List Char} (first : SpelledChar c spelling)
      (others : SpelledChars rest more) : SpelledChars (c :: rest) (spelling ++ more)

/-- Characters that carry a number literal on. -/
inductive Numeral.Extends : Numeral → List Char → Numeral → Prop where
  | nil (numeral : Numeral) : Extends numeral [] numeral
  | cons {numeral longer last : Numeral} {c : Char} {rest : List Char}
      (extended : numeral.next c = .extended longer) (others : Extends longer rest last) :
      Extends numeral (c :: rest) last

/-- A complete number literal. -/
structure SpelledNumber (value : Number) (spelling : List Char) : Prop where
  literal : ∃ c rest start last, spelling = c :: rest ∧ Numeral.start? c = some start ∧
    start.Extends rest last ∧ last.part.complete = true ∧ last.value? = some value

/-- What stands between two brackets, or outside of all. -/
inductive Phrase where
  | value (value : Json)
  | items (items : List Json)
  | members (members : List (String × Json))

inductive Spelled : Phrase → List Char → Prop where
  | blankBefore {phrase : Phrase} {c : Char} {spelling : List Char} (blank : IsBlank c)
      (rest : Spelled phrase spelling) : Spelled phrase (c :: spelling)
  | blankAfter {phrase : Phrase} {c : Char} {spelling : List Char} (blank : IsBlank c)
      (rest : Spelled phrase spelling) : Spelled phrase (spelling ++ [c])
  | null : Spelled (.value .null) ['n', 'u', 'l', 'l']
  | yes : Spelled (.value (.bool true)) ['t', 'r', 'u', 'e']
  | no : Spelled (.value (.bool false)) ['f', 'a', 'l', 's', 'e']
  | number {value : Number} {spelling : List Char} (spelled : SpelledNumber value spelling) :
      Spelled (.value (.number value)) spelling
  | text {value : String} {spelling : List Char} (spelled : SpelledChars value.toList spelling) :
      Spelled (.value (.text value)) ('"' :: spelling ++ ['"'])
  | array {items : List Json} {spelling : List Char} (spelled : Spelled (.items items) spelling) :
      Spelled (.value (.array items)) ('[' :: spelling ++ [']'])
  | object {members : List (String × Json)} {spelling : List Char}
      (spelled : Spelled (.members members) spelling) :
      Spelled (.value (.object members)) ('{' :: spelling ++ ['}'])
  | noItem : Spelled (.items []) []
  | lastItem {item : Json} {spelling : List Char} (spelled : Spelled (.value item) spelling) :
      Spelled (.items [item]) spelling
  | item {item next : Json} {rest : List Json} {spelling more : List Char}
      (spelled : Spelled (.value item) spelling) (others : Spelled (.items (next :: rest)) more) :
      Spelled (.items (item :: next :: rest)) (spelling ++ ',' :: more)
  | noMember : Spelled (.members []) []
  | lastMember {key : String} {value : Json} {keySpelling spelling : List Char}
      (spelledKey : Spelled (.value (.text key)) keySpelling)
      (spelled : Spelled (.value value) spelling) :
      Spelled (.members [(key, value)]) (keySpelling ++ ':' :: spelling)
  | member {key : String} {value : Json} {next : String × Json} {rest : List (String × Json)}
      {keySpelling spelling more : List Char}
      (spelledKey : Spelled (.value (.text key)) keySpelling)
      (spelled : Spelled (.value value) spelling)
      (others : Spelled (.members (next :: rest)) more) :
      Spelled (.members ((key, value) :: next :: rest))
        (keySpelling ++ ':' :: (spelling ++ ',' :: more))

mutual

def tokens : Json → List Token
  | null => [.null]
  | bool value => [.bool value]
  | number value => [.number value]
  | text value => [.text value]
  | array items => .openArray :: itemTokens items ++ [.closeArray]
  | object members => .openObject :: memberTokens members ++ [.closeObject]

def itemTokens : List Json → List Token
  | [] => []
  | [item] => tokens item
  | item :: rest => tokens item ++ .comma :: itemTokens rest

def memberTokens : List (String × Json) → List Token
  | [] => []
  | [(key, value)] => .text key :: .colon :: tokens value
  | (key, value) :: rest => .text key :: .colon :: tokens value ++ .comma :: memberTokens rest

end

def Phrase.tokens : Phrase → List Token
  | .value content => content.tokens
  | .items list => itemTokens list
  | .members list => memberTokens list

/-- From here the characters complete these tokens and lead the scanner there. -/
def Scanner.Yields (scanner : Scanner) (characters : List Char) (tokens : List Token)
    (after : Scanner) : Prop :=
  ∀ read, Scanner.run characters read scanner = (tokens.reverse ++ read, after)

namespace Scanner

variable {scanner next after : Scanner} {tokens more : List Token}
  {characters others : List Char} {c : Char}

theorem Yields.nil (scanner : Scanner) : scanner.Yields [] [] scanner := fun _ => rfl

theorem Yields.cons (step : scanner.step c = (tokens, next))
    (rest : next.Yields characters more after) :
    scanner.Yields (c :: characters) (tokens ++ more) after := by
  intro read
  have continued := rest (tokens.reverse ++ read)
  rw [List.reverse_append, List.append_assoc, ← continued, run, run, List.foldl_cons, step]

theorem Yields.silent (step : scanner.step c = ([], next))
    (rest : next.Yields characters more after) : scanner.Yields (c :: characters) more after :=
  .cons step rest

theorem Yields.append (first : scanner.Yields characters tokens next)
    (second : next.Yields others more after) :
    scanner.Yields (characters ++ others) (tokens ++ more) after := by
  intro read
  have start := first read
  have continued := second (tokens.reverse ++ read)
  rw [run] at start continued
  rw [run, List.foldl_append, start, continued, List.reverse_append, List.append_assoc]

/-- The scanner waits for what comes next. A number that it has read may still go on. -/
inductive Pending : Scanner → List Token → Prop where
  | between : Pending .between []
  | number {numeral : Numeral} (complete : numeral.part.complete = true) :
      Pending (.number numeral) [numeral.token]

end Scanner

/-- A character that ends a number. -/
def Delimits (c : Char) : Prop := IsBlank c ∨ c = ',' ∨ c = ':' ∨ c = ']' ∨ c = '}'

namespace Scanner

theorem Pending.finish {scanner : Scanner} {tokens : List Token}
    (pending : scanner.Pending tokens) : scanner.finish = tokens := by
  cases pending <;> rfl

theorem next_of_delimits {numeral : Numeral} {c : Char} (complete : numeral.part.complete = true)
    (delimits : Delimits c) : numeral.next c = .ended := by
  rcases delimits with (rfl | rfl | rfl | rfl) | rfl | rfl | rfl | rfl <;>
    simp [Numeral.next, Numeral.digit?, complete]

/-- Before a delimiter a pending number is complete. -/
theorem Pending.step {scanner : Scanner} {tokens : List Token} {c : Char}
    (pending : scanner.Pending tokens) (delimits : Delimits c) :
    scanner.step c = (tokens ++ (begin c).1, (begin c).2) := by
  cases pending with
  | between => rfl
  | number complete => simp [Scanner.step, next_of_delimits complete delimits]

end Scanner

/-- Read between tokens, the characters give these tokens, where a number at the end may still be
pending. -/
def Scans (characters : List Char) (tokens : List Token) : Prop :=
  ∃ done pending scanner, Scanner.between.Yields characters done scanner ∧
    scanner.Pending pending ∧ done ++ pending = tokens

/-- What follows ends a number that stands before it. -/
def Delimited (characters : List Char) : Prop := ∀ c ∈ characters.head?, Delimits c

namespace Scans

variable {characters others : List Char} {tokens more : List Token} {c : Char}

theorem nil : Scans [] [] := ⟨[], [], .between, .nil _, .between, rfl⟩

theorem punctuation {token : Token} (stands : Scanner.between.step c = ([token], .between))
    (rest : Scans characters tokens) : Scans (c :: characters) (token :: tokens) := by
  obtain ⟨done, pending, scanner, yields, waits, rfl⟩ := rest
  exact ⟨token :: done, pending, scanner, .cons stands yields, waits, rfl⟩

theorem blank (isBlank : IsBlank c) (rest : Scans characters tokens) :
    Scans (c :: characters) tokens := by
  obtain ⟨done, pending, scanner, yields, waits, rfl⟩ := rest
  have skips : Scanner.between.step c = ([], .between) := by
    rcases isBlank with rfl | rfl | rfl | rfl <;> rfl
  exact ⟨done, pending, scanner, .silent skips yields, waits, rfl⟩

theorem append (first : Scans characters tokens) (second : Scans others more)
    (delimited : Delimited others) : Scans (characters ++ others) (tokens ++ more) := by
  obtain ⟨done, pending, scanner, yields, waits, rfl⟩ := first
  cases others with
  | nil =>
      obtain ⟨doneLater, pendingLater, scannerLater, yieldsLater, waitsLater, rfl⟩ := second
      have stays := yieldsLater []
      obtain ⟨nothing, rfl⟩ := Prod.mk.inj stays
      obtain rfl : doneLater = [] := by simpa using nothing.symm
      cases waitsLater
      exact ⟨done, pending, scanner, by simpa using yields, waits, by simp⟩
  | cons c rest =>
      obtain ⟨doneLater, pendingLater, scannerLater, yieldsLater, waitsLater, rfl⟩ := second
      refine ⟨done ++ (pending ++ doneLater), pendingLater, scannerLater, yields.append ?_,
        waitsLater, by simp⟩
      -- A delimiter leads from a pending number where it leads from between tokens.
      intro read
      have later := yieldsLater (pending.reverse ++ read)
      have step := waits.step (delimited c rfl)
      rw [Scanner.run, List.foldl_cons] at later ⊢
      rw [step]
      simpa [Scanner.step] using later

/-- All characters of a text that is spelled scan to its tokens. -/
theorem scan (scans : Scans characters tokens) : Token.scan characters = tokens := by
  obtain ⟨done, pending, scanner, yields, waits, rfl⟩ := scans
  have all := yields []
  simp [Token.scan, all, waits.finish]

end Scans

section Texts

variable {read spelling : List Char}

/-- The text between quotes as far as it was read, with no half of a pair left alone. -/
def Scanner.reading (read : List Char) : Scanner := .text ⟨read, .plain, none, true⟩

theorem yields_hexDigits {quoted : Quoted} {point : Nat} (spelled : SpelledUnit point spelling)
    (opened : quoted.part = .hex 0 0) :
    (Scanner.text quoted).Yields spelling [] (.text (quoted.pushUnit point)) := by
  cases spelled with
  | @digits first second third fourth a b c d isFirst isSecond isThird isFourth =>
      obtain ⟨read, part, high, paired⟩ := quoted
      subst opened
      have one : (Scanner.text ⟨read, .hex 0 0, high, paired⟩).step first =
          ([], .text ⟨read, .hex 1 a, high, paired⟩) := by
        simp [Scanner.step, Scanner.insideText, isFirst]
      have two : (Scanner.text ⟨read, .hex 1 a, high, paired⟩).step second =
          ([], .text ⟨read, .hex 2 (16 * a + b), high, paired⟩) := by
        simp [Scanner.step, Scanner.insideText, isSecond]
      have three : (Scanner.text ⟨read, .hex 2 (16 * a + b), high, paired⟩).step third =
          ([], .text ⟨read, .hex 3 (16 * (16 * a + b) + c), high, paired⟩) := by
        simp [Scanner.step, Scanner.insideText, isThird]
      refine .silent one (.silent two (.silent three (.silent ?_ (.nil _))))
      simp only [Scanner.step, Scanner.insideText, isFourth, if_true]
      rfl

theorem yields_unit (quoted : Quoted) {point : Nat} (spelled : SpelledUnit point spelling)
    (plain : quoted.part = .plain) :
    (Scanner.text quoted).Yields ('\\' :: 'u' :: spelling) []
      (.text ({ quoted with part := .hex 0 0 }.pushUnit point)) := by
  have escapes : (Scanner.text quoted).step '\\' =
      ([], .text { quoted with part := .backslash }) := by
    simp [Scanner.step, Scanner.insideText, plain]
  have opens : (Scanner.text { quoted with part := .backslash }).step 'u' =
      ([], .text { quoted with part := .hex 0 0 }) := by
    simp [Scanner.step, Scanner.insideText]
  exact .silent escapes (.silent opens (yields_hexDigits spelled rfl))

theorem yields_char {c : Char} (spelled : SpelledChar c spelling) :
    (Scanner.reading read).Yields spelling [] (.reading (c :: read)) := by
  cases spelled with
  | plain noQuote noBackslash noControl =>
      refine .silent ?_ (.nil _)
      simp [Scanner.reading, Scanner.step, Scanner.insideText, noQuote, noBackslash,
        Nat.not_lt.mpr noControl, Quoted.push]
  | @short c sign escaped =>
      have noUnit : sign ≠ 'u' := by
        rintro rfl
        simp [Quoted.escaped?] at escaped
      have escapes : (Scanner.reading read).step '\\' =
          ([], .text ⟨read, .backslash, none, true⟩) := by
        simp [Scanner.reading, Scanner.step, Scanner.insideText]
      refine .silent escapes (.silent ?_ (.nil _))
      simp [Scanner.reading, Scanner.step, Scanner.insideText, noUnit, escaped, Quoted.push]
  | @unit point digits isUnit whole =>
      have yields := yields_unit ⟨read, .plain, none, true⟩ isUnit rfl
      have noHigh : ¬ (0xd800 ≤ point ∧ point < 0xdc00) := by omega
      have noLow : ¬ (0xdc00 ≤ point ∧ point < 0xe000) := by omega
      simpa [Scanner.reading, Quoted.pushUnit, noHigh, noLow] using yields
  | @pair high low highDigits lowDigits spelledHigh spelledLow isHigh isLow =>
      have first := yields_unit ⟨read, .plain, none, true⟩ spelledHigh rfl
      have second := yields_unit ⟨read, .plain, some high, true⟩ spelledLow rfl
      simp only [Quoted.pushUnit, isHigh, isLow, and_self, if_true] at first second
      exact first.append second

theorem yields_chars {value : List Char} (spelled : SpelledChars value spelling) :
    (Scanner.reading read).Yields spelling [] (.reading (value.reverse ++ read)) := by
  induction spelled generalizing read with
  | nil => exact .nil _
  | @cons c rest _ _ first others inductionHypothesis =>
      have later := @inductionHypothesis (c :: read)
      rw [List.reverse_cons, List.append_assoc]
      exact (yields_char first).append later

theorem scans_text {value : String} (spelled : SpelledChars value.toList spelling) :
    Scans ('"' :: spelling ++ ['"']) [.text value] := by
  have opens : Scanner.between.step '"' = ([], .reading []) := rfl
  have closes : (Scanner.reading (value.toList.reverse ++ [])).step '"' =
      ([.text value], .between) := by
    simp [Scanner.reading, Scanner.step, Scanner.insideText, Quoted.token]
  have inside := @yields_chars [] spelling _ spelled
  refine ⟨[.text value], [], .between, ?_, .between, rfl⟩
  exact .silent opens (inside.append (.cons closes (.nil _)))

end Texts

theorem yields_numeral {start last : Numeral} {rest : List Char} (extends_ : start.Extends rest last) :
    (Scanner.number start).Yields rest [] (.number last) := by
  induction extends_ with
  | nil numeral => exact .nil _
  | cons extended others inductionHypothesis =>
      exact .silent (by simp [Scanner.step, extended]) inductionHypothesis

/-- No other token begins with a character that opens a number. -/
theorem begin_of_start {c : Char} {start : Numeral} (opens : Numeral.start? c = some start) :
    Scanner.begin c = ([], .number start) := by
  have other : ∀ sign : Char, Numeral.start? sign = none → c ≠ sign := by
    rintro _ none rfl
    rw [none] at opens
    cases opens
  simp [Scanner.begin, opens, other ' ' rfl, other '\t' rfl, other '\n' rfl, other '\r' rfl,
    other '[' rfl, other ']' rfl, other '{' rfl, other '}' rfl, other ',' rfl, other ':' rfl,
    other '"' rfl, other 'n' rfl, other 't' rfl, other 'f' rfl]

theorem scans_number {value : Number} {spelling : List Char}
    (spelled : SpelledNumber value spelling) : Scans spelling [.number value] := by
  obtain ⟨c, rest, start, last, rfl, opens, extends_, complete, isValue⟩ := spelled.literal
  have token : last.token = .number value := by simp [Numeral.token, complete, isValue]
  refine ⟨[], [last.token], .number last, .silent (begin_of_start opens) (yields_numeral extends_),
    .number complete, by rw [token, List.nil_append]⟩

theorem delimited_cons {c : Char} (delimits : Delimits c) (rest : List Char) :
    Delimited (c :: rest) := by
  intro _ isHead
  obtain rfl := Option.some.inj isHead
  exact delimits

/-- However a phrase is spelled, it scans to its tokens. -/
theorem Spelled.scans {phrase : Phrase} {spelling : List Char} (spelled : Spelled phrase spelling) :
    Scans spelling phrase.tokens := by
  have comma : Delimits ',' := Or.inr (Or.inl rfl)
  have colon : Delimits ':' := Or.inr (Or.inr (Or.inl rfl))
  have bracket : Delimits ']' := Or.inr (Or.inr (Or.inr (Or.inl rfl)))
  have brace : Delimits '}' := Or.inr (Or.inr (Or.inr (Or.inr rfl)))
  induction spelled with
  | blankBefore isBlank _ inductionHypothesis => exact inductionHypothesis.blank isBlank
  | blankAfter isBlank _ inductionHypothesis =>
      have all := inductionHypothesis.append (.blank isBlank .nil)
        (delimited_cons (Or.inl isBlank) [])
      rwa [List.append_nil] at all
  | null | yes | no => exact ⟨_, [], .between, fun _ => rfl, .between, rfl⟩
  | number isNumber => exact scans_number isNumber
  | text isText => exact scans_text isText
  | array _ inductionHypothesis =>
      exact .punctuation rfl (inductionHypothesis.append (.punctuation rfl .nil)
        (delimited_cons bracket []))
  | object _ inductionHypothesis =>
      exact .punctuation rfl (inductionHypothesis.append (.punctuation rfl .nil)
        (delimited_cons brace []))
  | noItem | noMember => exact .nil
  | lastItem _ inductionHypothesis => exact inductionHypothesis
  | item _ _ first others =>
      exact first.append (.punctuation rfl others) (delimited_cons comma _)
  | lastMember _ _ key value =>
      exact key.append (.punctuation rfl value) (delimited_cons colon _)
  | member _ _ _ key value others =>
      have rest := value.append (.punctuation rfl others) (delimited_cons comma _)
      exact key.append (.punctuation rfl rest) (delimited_cons colon _)

end PlanSupervision.Json
