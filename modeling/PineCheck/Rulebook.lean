import PineCheck.Json.Text

/-!
# PineCheck — rulebooks

A rulebook tells which codes are turned on and holds their settings. It is
written in JSON, in one of two ways: as an object `errorCodeDefinitions` with one
field for every code, or as a tree `functionValidationRules` in which every
object with a text `errorCode` defines that code.
-/

namespace PineCheck

/-- The settings of one code. -/
structure RuleSetting where
  isEnabled : Bool := true
  maxLength : Option Nat := none
  min : Option Float := none
  max : Option Float := none
deriving Inhabited

/-- Why a rulebook cannot be read. -/
inductive RulebookError where
  | notJson
  | definitionsNotObject
  | invalidDefinition (code : String)
  | noDefinitions
deriving DecidableEq, Inhabited

/-- What is told about a rulebook that cannot be read. -/
def RulebookError.message : RulebookError → String
  | notJson => "rule registry is not valid JSON"
  | definitionsNotObject => "'errorCodeDefinitions' must be an object"
  | invalidDefinition code => "invalid definition of " ++ code
  | noDefinitions =>
    "rule registry has neither 'errorCodeDefinitions' nor 'functionValidationRules'"

/-- The settings of codes, sorted by code, each code once. -/
structure Rulebook where
  settings : List (String × RuleSetting)
deriving Inhabited

namespace Rulebook

/-- The rulebook without any code. -/
def empty : Rulebook := ⟨[]⟩

/-- Puts a setting into a sorted list, in place of an earlier one for the code. -/
def insertSorted (code : String) (setting : RuleSetting) :
    List (String × RuleSetting) → List (String × RuleSetting)
  | [] => [(code, setting)]
  | entry :: entries =>
    if code < entry.1 then (code, setting) :: entry :: entries
    else if code = entry.1 then (code, setting) :: entries
    else entry :: insertSorted code setting entries

/-- Defines a code, in place of an earlier definition. -/
def define (book : Rulebook) (code : String) (setting : RuleSetting) : Rulebook :=
  ⟨insertSorted code setting book.settings⟩

/-- The rulebook that turns on the given codes. -/
def ofCodes (codes : List String) : Rulebook :=
  codes.foldl (fun book code => book.define code {}) empty

/-- The settings of a code. -/
def setting? (book : Rulebook) (code : String) : Option RuleSetting :=
  (book.settings.find? fun entry => entry.1 = code).map Prod.snd

/-- Whether a code is defined and turned on. -/
def defines (book : Rulebook) (code : String) : Bool :=
  (book.setting? code).any RuleSetting.isEnabled

/-- The number of codes that are defined. -/
def size (book : Rulebook) : Nat :=
  book.settings.length

/-! ## Reading -/

/-- Reads a setting that may be absent or `null`. -/
def readOptional? {α : Type} (json : Json) (name : String) (decode? : Json → Option α) :
    Option (Option α) :=
  match json.field? name with
  | none | some .null => some none
  | some value => (decode? value).map some

/-- Reads whether a code is turned on, which it is if nothing is said. -/
def readEnabled? (json : Json) : Option Bool :=
  match json.field? "enabled" with
  | none => some true
  | some (.bool value) => some value
  | some _ => none

/-- Reads the settings of a code. What is no object stands for the usual
settings. -/
def readSetting? (json : Json) : Option RuleSetting :=
  match json with
  | .object _ => do
    let isEnabled ← readEnabled? json
    let maxLength ← readOptional? json "maxLength" Json.asWord?
    let min ← readOptional? json "min" Json.asFloat?
    let max ← readOptional? json "max" Json.asFloat?
    some { isEnabled, maxLength, min, max }
  | _ => some {}

/-- Defines a code with settings in JSON. -/
def defineJson (book : Rulebook) (code : String) (json : Json) :
    Except RulebookError Rulebook :=
  match readSetting? json with
  | some setting => .ok (book.define code setting)
  | none => .error (.invalidDefinition code)

/-- Defines every code of an object. -/
def readFlat (book : Rulebook) : List (String × Json) → Except RulebookError Rulebook
  | [] => .ok book
  | (code, json) :: fields => do
    let book ← book.defineJson code json
    readFlat book fields

/-- Defines the code that an object names for itself, if it does. -/
def defineOwn (book : Rulebook) (json : Json) : Except RulebookError Rulebook :=
  match json.field? "errorCode" with
  | some (.string code) => book.defineJson code json
  | _ => .ok book

mutual

/-- Defines the codes of a tree, those of an object before those inside it. -/
def readTree (book : Rulebook) : Json → Except RulebookError Rulebook
  | .object fields => do
    -- the definitions inside come later and replace those outside
    let book ← book.defineOwn (.object fields)
    readTreeFields book fields
  | .array elements => readTreeElements book elements
  | _ => .ok book

/-- Defines the codes inside the fields of an object. -/
def readTreeFields (book : Rulebook) : List (String × Json) → Except RulebookError Rulebook
  | [] => .ok book
  | (_, json) :: fields => do
    let book ← readTree book json
    readTreeFields book fields

/-- Defines the codes inside the elements of an array. -/
def readTreeElements (book : Rulebook) : List Json → Except RulebookError Rulebook
  | [] => .ok book
  | json :: elements => do
    let book ← readTree book json
    readTreeElements book elements

end

/-- The rulebook in a JSON value. -/
def ofJson (root : Json) : Except RulebookError Rulebook :=
  -- the object of definitions is read alone, even if there is a tree as well
  match root.field? "errorCodeDefinitions" with
  | some (.object fields) => readFlat empty fields
  | some _ => .error .definitionsNotObject
  | none =>
    match root.field? "functionValidationRules" with
    | some tree => readTree empty tree
    | none => .error .noDefinitions

/-- The rulebook in a text. -/
def read (text : String) : Except RulebookError Rulebook :=
  match Json.parse? text with
  | some root => ofJson root
  | none => .error .notJson

end Rulebook

end PineCheck
