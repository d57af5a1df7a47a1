import PlanSupervision.Json.Draft

/-!
Reading typed values from a draft. A reader walks the draft in order and answers the first
fault it meets; a record reads its fields by name or, from an array, by position.
-/

namespace PlanSupervision.Json

/-- Why a payload has no value of the wanted type. -/
inductive Fault where
  | notJson
  | missingField (name : String)
  | duplicateField (name : String)
  | unknownVariant (found : String) (expected : List String)
  | wrongType
  | wrongLength
deriving DecidableEq, Inhabited

namespace Fault

def quoteName (name : String) : String := "`" ++ name ++ "`"

def message : Fault → String
  | notJson => "invalid JSON"
  | missingField name => "missing field " ++ quoteName name
  | duplicateField name => "duplicate field " ++ quoteName name
  | unknownVariant found expected =>
      "unknown variant " ++ quoteName found ++ ", expected one of " ++
        ", ".intercalate (expected.map quoteName)
  | wrongType => "invalid type"
  | wrongLength => "invalid length"

end Fault

/-- How a value is read from a draft. -/
abbrev Reader (Value : Type) := Draft → Except Fault Value

def demandClosed (closed : Bool) : Except Fault Unit :=
  if closed then .ok () else .error .notJson

mutual

/-- A value that nobody asked for: it only has to be well formed. -/
def Draft.skip : Draft → Except Fault Unit
  | .broken => .error .notJson
  | .array items closed => do
      Draft.skipItems items
      demandClosed closed
  | .object members closed => do
      Draft.skipMembers members
      demandClosed closed
  | _ => .ok ()

def Draft.skipItems : List Draft → Except Fault Unit
  | [] => .ok ()
  | item :: rest => do
      Draft.skip item
      Draft.skipItems rest

def Draft.skipMembers : List (Option String × Draft) → Except Fault Unit
  | [] => .ok ()
  | (_, value) :: rest => do
      Draft.skip value
      Draft.skipMembers rest

end

def readKey : Option String → Except Fault String
  | some key => .ok key
  | none => .error .notJson

mutual

/-- The whole value of a draft, with the members of objects sorted; of a repeated key the last
member counts. -/
def Draft.toJson : Draft → Except Fault Json
  | .null => .ok .null
  | .bool value => .ok (.bool value)
  | .number value => .ok (.number value)
  | .text value => .ok (.text value)
  | .array items closed => do
      let items ← Draft.toItems items
      demandClosed closed
      return .array items
  | .object members closed => do
      let members ← Draft.toMembers [] members
      demandClosed closed
      return .object members
  | .valueless | .broken => .error .notJson

def Draft.toItems : List Draft → Except Fault (List Json)
  | [] => .ok []
  | item :: rest => do
      let item ← Draft.toJson item
      let rest ← Draft.toItems rest
      return item :: rest

def Draft.toMembers (read : List (String × Json)) :
    List (Option String × Draft) → Except Fault (List (String × Json))
  | [] => .ok read
  | (key, value) :: rest => do
      let key ← readKey key
      let value ← Draft.toJson value
      Draft.toMembers (Table.put key value read) rest

end

namespace Reader

def mismatch {Value : Type} : Draft → Except Fault Value
  | .valueless | .broken => .error .notJson
  | _ => .error .wrongType

def text : Reader String
  | .text value => .ok value
  | other => mismatch other

def double : Reader Double
  | .number value => .ok value.toDouble
  | other => mismatch other

def optional {Value : Type} (read : Reader Value) : Reader (Option Value)
  | .null => .ok none
  | other => some <$> read other

def readItems {Value : Type} (read : Reader Value) : List Draft → Except Fault (List Value)
  | [] => .ok []
  | item :: rest => do
      let item ← read item
      let rest ← readItems read rest
      return item :: rest

def list {Value : Type} (read : Reader Value) : Reader (List Value)
  | .array items closed => do
      let items ← readItems read items
      demandClosed closed
      return items
  | other => mismatch other

def readMembers {Key Value : Type} (readKey : String → Except Fault Key) (read : Reader Value) :
    List (Option String × Draft) → Except Fault (List (Key × Value))
  | [] => .ok []
  | (key, value) :: rest => do
      let key ← Json.readKey key
      let key ← readKey key
      let value ← read value
      let rest ← readMembers readKey read rest
      return (key, value) :: rest

def members {Key Value : Type} (readKey : String → Except Fault Key) (read : Reader Value) :
    Reader (List (Key × Value))
  | .object members closed => do
      let members ← readMembers readKey read members
      demandClosed closed
      return members
  | other => mismatch other

def table {Value : Type} (read : Reader Value) : Reader (Table Value) :=
  fun draft => Table.ofList <$> members .ok read draft

def json : Reader Json := Draft.toJson

/-- One of a closed list of names. -/
def named {Value : Type} (names : List (String × Value)) (found : String) : Except Fault Value :=
  match names.lookup found with
  | some value => .ok value
  | none => .error (.unknownVariant found (names.map (·.1)))

/-- A name written as a text. -/
def name {Value : Type} (names : List (String × Value)) : Reader Value
  | .text found => named names found
  | other => mismatch other

def nothing : Reader Unit
  | .null => .ok ()
  | other => mismatch other

/-- In content that was held back an empty object is nothing as well. -/
def nothingHeldBack : Reader Unit
  | .object [] true => .ok ()
  | other => nothing other

/-- A name written as a text, or as an object with the name as its only key and a payload that
carries nothing. -/
def variantOf {Value : Type} (readPayload : Reader Unit) (names : List (String × Value)) :
    Reader Value
  | .object ((key, payload) :: rest) closed => do
      let key ← readKey key
      let value ← named names key
      readPayload payload
      if rest.isEmpty then
        demandClosed closed
        return value
      else .error .wrongType
  | .object [] closed => do
      demandClosed closed
      .error .wrongType
  | other => name names other

def variant {Value : Type} (names : List (String × Value)) : Reader Value :=
  variantOf nothing names

end Reader

structure RecordField (Value : Type) where
  name : String
  aliases : List String
  read : Reader Value
  /-- The value of the field when it is left out. -/
  absent : Option Value

/-- A field without the type of its value. -/
structure Slot where
  name : String
  aliases : List String
  accepts : Draft → Except Fault Unit
  required : Bool

namespace RecordField

variable {Value : Type}

def required (name : String) (read : Reader Value) : RecordField Value := ⟨name, [], read, none⟩

def withDefault (name : String) (read : Reader Value) (absent : Value) : RecordField Value :=
  ⟨name, [], read, some absent⟩

def optional (name : String) (read : Reader Value) : RecordField (Option Value) :=
  ⟨name, [], .optional read, some none⟩

def slot (field : RecordField Value) : Slot :=
  ⟨field.name, field.aliases, fun draft => (field.read draft).map fun _ => (), field.absent.isNone⟩

end RecordField

namespace Record

/-- The drafts of the fields that are present. -/
abbrev Present := List (String × Draft)

def slot? (slots : List Slot) (key : String) : Option Slot :=
  slots.find? fun slot => slot.name == key || slot.aliases.contains key

/-- Read members in order; a member of no field is skipped. -/
def readMembers (slots : List Slot) (present : Present) :
    List (Option String × Draft) → Except Fault Present
  | [] => .ok present
  | (key, value) :: rest => do
      let key ← readKey key
      match slot? slots key with
      | none =>
          value.skip
          readMembers slots present rest
      | some slot =>
          if (present.lookup slot.name).isSome then .error (.duplicateField slot.name)
          else
            slot.accepts value
            readMembers slots ((slot.name, value) :: present) rest

/-- Read items in order of the fields; only fields with a default may be left off. -/
def readItems (closed : Bool) (present : Present) :
    List Slot → List Draft → Except Fault Present
  | [], [] => do
      demandClosed closed
      return present
  | [], _ :: _ => do
      demandClosed closed
      .error .wrongLength
  | slot :: slots, [] => do
      demandClosed closed
      if slot.required then .error .wrongLength else readItems closed present slots []
  | slot :: slots, item :: rest => do
      slot.accepts item
      readItems closed ((slot.name, item) :: present) slots rest

def present (slots : List Slot) : Reader Present
  | .object members closed => do
      let present ← readMembers slots [] members
      demandClosed closed
      return present
  | .array items closed => readItems closed [] slots items
  | other => Reader.mismatch other

def get {Value : Type} (present : Present) (field : RecordField Value) : Except Fault Value :=
  match present.lookup field.name, field.absent with
  | some draft, _ => field.read draft
  | none, some absent => .ok absent
  | none, none => .error (.missingField field.name)

end Record

def readText {Value : Type} (read : Reader Value) (source : String) : Except Fault Value := do
  let (draft, clean) := Draft.ofText source
  let value ← read draft
  demandClosed clean
  return value

def readJson {Value : Type} (read : Reader Value) (value : Json) : Except Fault Value :=
  read (Draft.ofJson value)

def parse (source : String) : Except Fault Json := readText Reader.json source

end PlanSupervision.Json
