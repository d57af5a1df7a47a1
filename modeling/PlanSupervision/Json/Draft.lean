import PlanSupervision.Json.Token

/-!
A JSON text as far as it can be read. A draft keeps the members of objects in the order
of the text, repeated keys included, and shows where a text that is not JSON stops, so a
reader that walks it in order meets the first fault of the text first.
-/

namespace PlanSupervision.Json

inductive Draft where
  | null
  | bool (value : Bool)
  | number (value : Number)
  | text (value : String)
  | array (items : List Draft) (closed : Bool)
  /-- A member without key has a key that names no text. -/
  | object (members : List (Option String × Draft)) (closed : Bool)
  /-- Well formed without a value: a number or text that names none, or an array or object
  nested too deep. -/
  | valueless
  | broken
deriving Inhabited

mutual

def Draft.ofJson : Json → Draft
  | .null => .null
  | .bool value => .bool value
  | .number value => .number value
  | .text value => .text value
  | .array items => .array (Draft.ofItems items) true
  | .object members => .object (Draft.ofMembers members) true

def Draft.ofItems : List Json → List Draft
  | [] => []
  | item :: rest => Draft.ofJson item :: Draft.ofItems rest

def Draft.ofMembers : List (String × Json) → List (Option String × Draft)
  | [] => []
  | (key, value) :: rest => (some key, Draft.ofJson value) :: Draft.ofMembers rest

end

/-- An array or object that is still open, contents last first. -/
inductive Frame where
  | items (read : List Draft)
  | members (read : List (Option String × Draft)) (key : Option (Option String))
deriving Inhabited

/-- What the next token may be. -/
inductive Turn where
  | value
  | firstItem
  | afterItem
  | firstKey
  | key
  | colon
  | afterMember
  | ended
  | stuck
deriving DecidableEq, Inhabited

/-- A text being put together from its tokens. -/
structure Assembly where
  frames : List Frame
  turn : Turn
  root : Option Draft
  clean : Bool
deriving Inhabited

namespace Assembly

/-- How deep arrays and objects may nest, the outermost counted. -/
def depthLimit : Nat := 127

def start : Assembly := ⟨[], .value, none, true⟩

def stop (assembly : Assembly) : Assembly := { assembly with turn := .stuck, clean := false }

def place (assembly : Assembly) (value : Draft) : Assembly :=
  match assembly.frames with
  | [] => { assembly with turn := .ended, root := some value }
  | .items read :: outer =>
      { assembly with frames := .items (value :: read) :: outer, turn := .afterItem }
  | .members read key :: outer =>
      { assembly with
        frames := .members ((key.getD none, value) :: read) none :: outer
        turn := .afterMember }

def enclose (frame : Frame) (closed : Bool) : Draft :=
  match frame with
  | .items read => .array read.reverse closed
  | .members read _ => .object read.reverse closed

def close (assembly : Assembly) : Assembly :=
  match assembly.frames with
  | [] => assembly.stop
  | frame :: outer =>
      let value := if depthLimit < assembly.frames.length then .valueless else enclose frame true
      { assembly with frames := outer }.place value

def enter (assembly : Assembly) (frame : Frame) (turn : Turn) : Assembly :=
  { assembly with frames := frame :: assembly.frames, turn }

def scalar? : Token → Option Draft
  | .null => some .null
  | .bool value => some (.bool value)
  | .number value => some (.number value)
  | .text value => some (.text value)
  | .valueless _ => some .valueless
  | _ => none

def key? : Token → Option (Option String)
  | .text value => some (some value)
  | .valueless true => some none
  | _ => none

def takeValue (assembly : Assembly) (token : Token) : Assembly :=
  match token with
  | .openArray => assembly.enter (.items []) .firstItem
  | .openObject => assembly.enter (.members [] none) .firstKey
  | _ =>
      match scalar? token with
      | some value => assembly.place value
      | none => assembly.stop

def takeKey (assembly : Assembly) (token : Token) : Assembly :=
  match assembly.frames, key? token with
  | .members read _ :: outer, some key =>
      { assembly with frames := .members read (some key) :: outer, turn := .colon }
  | _, _ => assembly.stop

def step (assembly : Assembly) (token : Token) : Assembly :=
  match assembly.turn with
  | .value => assembly.takeValue token
  | .firstItem => if token = .closeArray then assembly.close else assembly.takeValue token
  | .afterItem =>
      if token = .comma then { assembly with turn := .value }
      else if token = .closeArray then assembly.close
      else assembly.stop
  | .firstKey => if token = .closeObject then assembly.close else assembly.takeKey token
  | .key => assembly.takeKey token
  | .colon => if token = .colon then { assembly with turn := .value } else assembly.stop
  | .afterMember =>
      if token = .comma then { assembly with turn := .key }
      else if token = .closeObject then assembly.close
      else assembly.stop
  | .ended | .stuck => assembly.stop

/-- End the open frames where the text stopped, innermost first. -/
def unwind : List Frame → Draft → Draft
  | [], inner => inner
  | .items read :: outer, inner => unwind outer (.array (inner :: read).reverse false)
  | .members read key :: outer, inner =>
      unwind outer (.object ((key.getD none, inner) :: read).reverse false)

/-- The draft of all tokens, and whether they hold it and nothing else. -/
def finish (assembly : Assembly) : Draft × Bool :=
  match assembly.root with
  | some root => (root, assembly.clean)
  | none =>
      match assembly.frames with
      | [] => (.broken, false)
      | .members read none :: outer => (unwind outer (.object read.reverse false), false)
      | frames => (unwind frames .broken, false)

end Assembly

def Draft.ofText (source : String) : Draft × Bool :=
  ((Token.scan source.toList).foldl Assembly.step Assembly.start).finish

end PlanSupervision.Json
