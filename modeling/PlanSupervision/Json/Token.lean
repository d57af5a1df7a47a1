import PlanSupervision.Json.Basic

/-!
The tokens of a JSON text. A scanner reads one character at a time and gives out the
tokens that the character completes, so the tokens of a text are those of its parts in
turn. A text that is not JSON ends in the token `broken`.
-/

namespace PlanSupervision.Json

inductive Token where
  | openArray
  | closeArray
  | openObject
  | closeObject
  | comma
  | colon
  | null
  | bool (value : Bool)
  | number (value : Number)
  | text (value : String)
  /-- Well formed, yet it names no value: a number beyond the doubles, or a text with half of a
  surrogate pair. -/
  | valueless (isText : Bool)
  | broken
deriving DecidableEq, Inhabited

/-- The part of a number literal that was read last. -/
inductive NumeralPart where
  | sign
  | zero
  | whole
  | point
  | fraction
  | mark
  | markSign
  | exponent
deriving DecidableEq, Inhabited

def NumeralPart.complete : NumeralPart → Bool
  | .zero | .whole | .fraction | .exponent => true
  | .sign | .point | .mark | .markSign => false

/-- A number literal as far as it was read, digits last first. -/
structure Numeral where
  negative : Bool
  part : NumeralPart
  whole : List Nat
  fraction : List Nat
  exponentNegative : Bool
  exponent : Nat
deriving DecidableEq, Inhabited

namespace Numeral

def digit? (c : Char) : Option Nat :=
  if '0' ≤ c ∧ c ≤ '9' then some (c.toNat - 48) else none

/-- The literal that a first character opens. -/
def start? (c : Char) : Option Numeral :=
  if c = '-' then some ⟨true, .sign, [], [], false, 0⟩
  else (digit? c).map fun value =>
    ⟨false, if value = 0 then .zero else .whole, [value], [], false, 0⟩

/-- What a character means to a literal: it continues it, it cannot follow, or the literal
ended before it. -/
inductive Continuation where
  | extended (numeral : Numeral)
  | refused
  | ended

def next (numeral : Numeral) (c : Char) : Continuation :=
  let stop := if numeral.part.complete then Continuation.ended else .refused
  match numeral.part, digit? c with
  | .sign, some value =>
      .extended { numeral with part := if value = 0 then .zero else .whole, whole := [value] }
  | .zero, some _ => .refused
  | .whole, some value => .extended { numeral with whole := value :: numeral.whole }
  | .point, some value | .fraction, some value =>
      .extended { numeral with part := .fraction, fraction := value :: numeral.fraction }
  | .mark, some value | .markSign, some value | .exponent, some value =>
      .extended { numeral with part := .exponent, exponent := 10 * numeral.exponent + value }
  | part, none =>
      if c = '.' ∧ (part = .zero ∨ part = .whole) then .extended { numeral with part := .point }
      else if (c = 'e' ∨ c = 'E') ∧ (part = .zero ∨ part = .whole ∨ part = .fraction) then
        .extended { numeral with part := .mark }
      else if (c = '+' ∨ c = '-') ∧ part = .mark then
        .extended { numeral with part := .markSign, exponentNegative := c = '-' }
      else stop

def coefficientBound : Nat := 18446744073709551616

def negativeBound : Nat := 9223372036854775808

/-- Digits gathered below `2 ^ 64`, with the count of those taken and of those left out. -/
structure Gathered where
  coefficient : Nat
  taken : Nat
  left : Nat

/-- Append digits to a coefficient until one would not fit; all later ones are left out. -/
def gather (coefficient : Nat) (digits : List Nat) : Gathered :=
  digits.foldl (fun so digit =>
    let longer := 10 * so.coefficient + digit
    if so.left = 0 ∧ longer < coefficientBound then ⟨longer, so.taken + 1, 0⟩
    else ⟨so.coefficient, so.taken, so.left + 1⟩) ⟨coefficient, 0, 0⟩

/-- The number that a literal names: an integer literal of 64 bits is exact, and any other is
its first digits as a 64 bit coefficient times a power of ten. -/
def value? (numeral : Numeral) : Option Number :=
  let whole := gather 0 numeral.whole.reverse
  if whole.left = 0 ∧ (numeral.part = .zero ∨ numeral.part = .whole) then
    if !numeral.negative then some (.integer whole.coefficient)
    else if whole.coefficient ≠ 0 ∧ whole.coefficient ≤ negativeBound then
      some (.integer (-whole.coefficient))
    else (Double.ofDecimal? true whole.coefficient 0).map .real
  else
    let all := gather whole.coefficient numeral.fraction.reverse
    let written : Int := if numeral.exponentNegative then -numeral.exponent else numeral.exponent
    (Double.ofDecimal? numeral.negative all.coefficient (whole.left - all.taken + written)).map .real

def token (numeral : Numeral) : Token :=
  if numeral.part.complete then
    match numeral.value? with
    | some value => .number value
    | none => .valueless false
  else .broken

end Numeral

inductive EscapePart where
  | plain
  | backslash
  | hex (digits : Nat) (value : Nat)
deriving DecidableEq, Inhabited

/-- A quoted text as far as it was read, characters last first. -/
structure Quoted where
  read : List Char
  part : EscapePart
  high : Option Nat
  /-- No half of a pair was left alone. -/
  paired : Bool
deriving DecidableEq, Inhabited

namespace Quoted

def start : Quoted := ⟨[], .plain, none, true⟩

/-- Take one character; a half pair before it stays alone. -/
def push (quoted : Quoted) (c : Char) : Quoted :=
  ⟨c :: quoted.read, .plain, none, quoted.paired && quoted.high.isNone⟩

def pushUnit (quoted : Quoted) (unit : Nat) : Quoted :=
  match quoted.high with
  | some high =>
      if 0xdc00 ≤ unit ∧ unit < 0xe000 then
        let point := 0x10000 + (high - 0xd800) * 0x400 + (unit - 0xdc00)
        ⟨Char.ofNat point :: quoted.read, .plain, none, quoted.paired⟩
      else if 0xd800 ≤ unit ∧ unit < 0xdc00 then ⟨quoted.read, .plain, some unit, false⟩
      else ⟨Char.ofNat unit :: quoted.read, .plain, none, false⟩
  | none =>
      if 0xd800 ≤ unit ∧ unit < 0xdc00 then { quoted with part := .plain, high := some unit }
      else if 0xdc00 ≤ unit ∧ unit < 0xe000 then { quoted with part := .plain, paired := false }
      else ⟨Char.ofNat unit :: quoted.read, .plain, none, quoted.paired⟩

def hexValue? (c : Char) : Option Nat :=
  if '0' ≤ c ∧ c ≤ '9' then some (c.toNat - 48)
  else if 'a' ≤ c ∧ c ≤ 'f' then some (c.toNat - 87)
  else if 'A' ≤ c ∧ c ≤ 'F' then some (c.toNat - 55)
  else none

def escaped? (c : Char) : Option Char :=
  if c = '"' ∨ c = '\\' ∨ c = '/' then some c
  else if c = 'b' then some '\x08'
  else if c = 'f' then some '\x0c'
  else if c = 'n' then some '\n'
  else if c = 'r' then some '\r'
  else if c = 't' then some '\t'
  else none

def token (quoted : Quoted) : Token :=
  if quoted.paired && quoted.high.isNone then .text (String.ofList quoted.read.reverse)
  else .valueless true

end Quoted

/-- Where a scanner stands. -/
inductive Scanner where
  | between
  | word (expected : Char) (rest : List Char) (token : Token)
  | number (numeral : Numeral)
  | text (quoted : Quoted)
  | stopped
deriving DecidableEq, Inhabited

namespace Scanner

def begin (c : Char) : List Token × Scanner :=
  if c = ' ' ∨ c = '\t' ∨ c = '\n' ∨ c = '\r' then ([], between)
  else if c = '[' then ([.openArray], between)
  else if c = ']' then ([.closeArray], between)
  else if c = '{' then ([.openObject], between)
  else if c = '}' then ([.closeObject], between)
  else if c = ',' then ([.comma], between)
  else if c = ':' then ([.colon], between)
  else if c = '"' then ([], text .start)
  else if c = 'n' then ([], word 'u' ['l', 'l'] .null)
  else if c = 't' then ([], word 'r' ['u', 'e'] (.bool true))
  else if c = 'f' then ([], word 'a' ['l', 's', 'e'] (.bool false))
  else match Numeral.start? c with
    | some numeral => ([], number numeral)
    | none => ([.broken], stopped)

def insideText (quoted : Quoted) (c : Char) : List Token × Scanner :=
  match quoted.part with
  | .plain =>
      if c = '"' then ([quoted.token], between)
      else if c = '\\' then ([], text { quoted with part := .backslash })
      else if c.toNat < 32 then ([.broken], stopped)
      else ([], text (quoted.push c))
  | .backslash =>
      if c = 'u' then ([], text { quoted with part := .hex 0 0 })
      else match Quoted.escaped? c with
        | some value => ([], text (quoted.push value))
        | none => ([.broken], stopped)
  | .hex digits value =>
      match Quoted.hexValue? c with
      | none => ([.broken], stopped)
      | some digit =>
          if digits = 3 then ([], text (quoted.pushUnit (16 * value + digit)))
          else ([], text { quoted with part := .hex (digits + 1) (16 * value + digit) })

/-- One character: the tokens that it completes, and where the scanner stands after it. -/
def step : Scanner → Char → List Token × Scanner
  | between, c => begin c
  | word expected rest token, c =>
      if c = expected then
        match rest with
        | [] => ([token], between)
        | following :: later => ([], word following later token)
      else ([.broken], stopped)
  | number numeral, c =>
      match numeral.next c with
      | .extended longer => ([], number longer)
      | .refused => ([.broken], stopped)
      | .ended =>
          let (tokens, scanner) := begin c
          (numeral.token :: tokens, scanner)
  | text quoted, c => insideText quoted c
  | stopped, _ => ([], stopped)

def finish : Scanner → List Token
  | between | stopped => []
  | number numeral => [numeral.token]
  | word _ _ _ | text _ => [.broken]

def run (characters : List Char) (tokens : List Token) (scanner : Scanner) :
    List Token × Scanner :=
  characters.foldl (fun so c =>
    let (more, scanner) := so.2.step c
    (more.reverse ++ so.1, scanner)) (tokens, scanner)

end Scanner

def Token.scan (source : List Char) : List Token :=
  let (tokens, scanner) := Scanner.run source [] .between
  tokens.reverse ++ scanner.finish

end PlanSupervision.Json
