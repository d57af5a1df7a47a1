import PlanSupervision.Json.Double
import PlanSupervision.Table

/-!
JSON values and their compact text. The members of an object are a list, so that the
values of a text can be held as they were written; `Json.SortedKeys` singles out the
values whose objects are maps.
-/

namespace PlanSupervision

/-- A number: exact where the literal was an integer of 64 bits, else a double. -/
inductive Number where
  | integer (value : Int)
  | real (value : Double)
deriving DecidableEq, Inhabited

namespace Number

/-- The integers with an exact reading: unsigned or signed in 64 bits. -/
def Exact (value : Int) : Prop :=
  -9223372036854775808 ≤ value ∧ value < 18446744073709551616

instance (value : Int) : Decidable (Exact value) := by
  unfold Exact
  infer_instance

def toDouble : Number → Double
  | integer value => Double.ofInt value
  | real value => value

def chars : Number → List Char
  | integer value =>
      if value < 0 then '-' :: Nat.toDigits 10 value.natAbs else Nat.toDigits 10 value.natAbs
  | real value => value.chars

end Number

inductive Json where
  | null
  | bool (value : Bool)
  | number (value : Number)
  | text (value : String)
  | array (items : List Json)
  | object (members : List (String × Json))
deriving Inhabited

namespace Json

def ofNat (value : Nat) : Json := number (.integer value)

def ofInt (value : Int) : Json := number (.integer value)

def ofTable {Value : Type} (encode : Value → Json) (table : Table Value) : Json :=
  object (table.entries.map fun entry => (entry.1, encode entry.2))

/-- An object whose absent members are left out. -/
def ofFields (fields : List (String × Option Json)) : Json :=
  object (fields.filterMap fun field => field.2.map fun value => (field.1, value))

def hexDigit (value : Nat) : Char :=
  Char.ofNat (if value < 10 then value + 48 else value + 87)

def escape (c : Char) : List Char :=
  if c = '"' then ['\\', '"']
  else if c = '\\' then ['\\', '\\']
  else if c = '\x08' then ['\\', 'b']
  else if c = '\t' then ['\\', 't']
  else if c = '\n' then ['\\', 'n']
  else if c = '\x0c' then ['\\', 'f']
  else if c = '\r' then ['\\', 'r']
  else if c.toNat < 32 then
    ['\\', 'u', '0', '0', hexDigit (c.toNat / 16), hexDigit (c.toNat % 16)]
  else [c]

def quote (value : String) : List Char :=
  '"' :: value.toList.flatMap escape ++ ['"']

mutual

def chars : Json → List Char
  | null => "null".toList
  | bool true => "true".toList
  | bool false => "false".toList
  | number value => value.chars
  | text value => quote value
  | array items => '[' :: itemChars items ++ [']']
  | object members => '{' :: memberChars members ++ ['}']

def itemChars : List Json → List Char
  | [] => []
  | [item] => chars item
  | item :: rest => chars item ++ ',' :: itemChars rest

def memberChars : List (String × Json) → List Char
  | [] => []
  | [(key, value)] => quote key ++ ':' :: chars value
  | (key, value) :: rest => quote key ++ ':' :: chars value ++ ',' :: memberChars rest

end

def render (value : Json) : String := String.ofList value.chars

mutual

/-- Every object lists its members in strictly increasing key order. -/
def SortedKeys : Json → Prop
  | array items => SortedItems items
  | object members => Table.Sorted members ∧ SortedMembers members
  | _ => True

def SortedItems : List Json → Prop
  | [] => True
  | item :: rest => SortedKeys item ∧ SortedItems rest

def SortedMembers : List (String × Json) → Prop
  | [] => True
  | (_, value) :: rest => SortedKeys value ∧ SortedMembers rest

end

end Json

end PlanSupervision
