import PineCheck.Decimal.Notation

/-!
# PineCheck — JSON values and their compact text

Reports are written as JSON on one line without blanks. An object is a list of
fields and keeps their order.
-/

namespace PineCheck

/-- A JSON value. -/
inductive Json where
  | null
  | bool (value : Bool)
  | int (value : Int)
  | float (value : Float)
  | string (value : String)
  | array (elements : List Json)
  | object (fields : List (String × Json))
deriving Inhabited

namespace Json

/-- A natural number. -/
def nat (n : Nat) : Json :=
  int n

/-- A value that may be absent. -/
def optional {α : Type} (encode : α → Json) : Option α → Json
  | none => null
  | some a => encode a

/-- A text that may be absent. -/
def text? : Option String → Json :=
  optional string

/-- The field of an object with the given name. -/
def field? (json : Json) (name : String) : Option Json :=
  match json with
  | object fields => (fields.find? fun field => field.1 = name).map Prod.snd
  | _ => none

/-- One character of a JSON string. -/
def escape (c : Char) : List Char :=
  if c = '"' || c = '\\' then ['\\', c]
  else if c = '\n' then ['\\', 'n']
  else if c = '\t' then ['\\', 't']
  else if c = '\r' then ['\\', 'r']
  else if c = '\x08' then ['\\', 'b']
  else if c = '\x0c' then ['\\', 'f']
  else if c.toNat < 0x20 then
    let digits := Nat.toDigits 16 c.toNat
    ['\\', 'u'] ++ List.replicate (4 - digits.length) '0' ++ digits
  else [c]

/-- A text as a JSON string. -/
def quoted (s : String) : String :=
  String.ofList (['"'] ++ s.toList.flatMap escape ++ ['"'])

mutual

/-- A value on one line without blanks. -/
def compact : Json → String
  | null => "null"
  | bool value => if value then "true" else "false"
  | int value => toString value
  | float value => Decimal.inJson value
  | string value => quoted value
  | array elements => "[" ++ ",".intercalate (compactElements elements) ++ "]"
  | object fields => "\x7b" ++ ",".intercalate (compactFields fields) ++ "\x7d"

/-- The elements of an array, each on its own. -/
def compactElements : List Json → List String
  | [] => []
  | element :: elements => compact element :: compactElements elements

/-- The fields of an object, each on its own. -/
def compactFields : List (String × Json) → List String
  | [] => []
  | (name, value) :: fields => (quoted name ++ ":" ++ compact value) :: compactFields fields

end

end Json

end PineCheck
