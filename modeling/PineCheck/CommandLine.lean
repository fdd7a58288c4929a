import PineCheck.Decimal.Notation
import PineCheck.Json.Text
import PineCheck.Preferences

/-!
# PineCheck — the command line

A command line names the scripts to examine and gives options between them, in
any order. `Invocation.read` goes through its arguments from left to right; the
first one that cannot be understood makes it an error, and the first one that
asks for the version or for help ends it.
-/

namespace PineCheck

/-- When the console is written in colours. -/
inductive ColorChoice where
  | auto
  | always
  | never
deriving DecidableEq, Inhabited

/-- The choice of colours that is called so. -/
def ColorChoice.ofName? (name : String) : Option ColorChoice :=
  match name with
  | "auto" => some .auto
  | "always" => some .always
  | "never" => some .never
  | _ => none

/-- The characters that arrows in reports are drawn with. -/
inductive Arrows where
  | unicode
  | ascii
deriving DecidableEq, Inhabited

/-- The characters that are called so. -/
def Arrows.ofName? (name : String) : Option Arrows :=
  match name with
  | "unicode" => some .unicode
  | "ascii" => some .ascii
  | _ => none

/-- What a command line asks a run to do. -/
structure Invocation where
  /-- The paths of the scripts, in the order in which they are given. -/
  files : List String := []
  preferences : Preferences := {}
  /-- The path of a settings file. -/
  settingsFile : Option String := none
  isVerbose : Bool := false
  color : Option ColorChoice := none
  arrows : Option Arrows := none
deriving DecidableEq, Inhabited

/-- What a command line asks for. -/
inductive Request where
  | run (invocation : Invocation)
  | version
  | help
deriving DecidableEq, Inhabited

/-- Why a command line cannot be understood. -/
inductive UsageError where
  | unknownOption (name : String)
  | missingValue (name : String)
  | unexpectedValue (name : String)
  | invalidValue (name value : String)
  | repeated (name : String)
  | noFiles
deriving DecidableEq, Inhabited

/-- What is told about a command line that cannot be understood. -/
def UsageError.message : UsageError → String
  | unknownOption name => "unexpected argument '" ++ name ++ "' found"
  | missingValue name => "a value is required for '" ++ name ++ "' but none was supplied"
  | unexpectedValue name => "no value is allowed for '" ++ name ++ "'"
  | invalidValue name value => "invalid value '" ++ value ++ "' for '" ++ name ++ "'"
  | repeated name => "the argument '" ++ name ++ "' cannot be used multiple times"
  | noFiles => "no script is given"

/-- Options that stand alone. -/
inductive Flag where
  | noRules
  | denyWarnings
  | verbose
  | version
  | help
deriving DecidableEq, Inhabited

/-- The flag with a long name. -/
def Flag.ofName? (name : String) : Option Flag :=
  match name with
  | "--no-rules" => some .noRules
  | "--deny-warnings" => some .denyWarnings
  | "--verbose" => some .verbose
  | "--version" => some .version
  | "--help" => some .help
  | _ => none

/-- The flag with a letter. -/
def Flag.ofLetter? (c : Char) : Option Flag :=
  if c = 'v' then some .verbose
  else if c = 'V' then some .version
  else if c = 'h' then some .help
  else none

/-- Options that take a value. -/
inductive ValueOption where
  | rules
  | docs
  | config
  | only
  | format
  | allowed
  | color
  | arrows
deriving DecidableEq, Inhabited

/-- The option with a name. -/
def ValueOption.ofName? (name : String) : Option ValueOption :=
  match name with
  | "--rules" => some .rules
  | "--docs" => some .docs
  | "--config" => some .config
  | "--only" => some .only
  | "--format" => some .format
  | "--max-recovery-attempts" => some .allowed
  | "--color" => some .color
  | "--arrows" => some .arrows
  | _ => none

namespace Invocation

/-- A path, which is not empty. -/
def path? (value : String) : Option String :=
  if value.isEmpty then none else some value

/-- A count in decimal digits that fits a machine word. It may have a plus before
it. -/
def count? (value : String) : Option Nat :=
  let digits :=
    match value.toList with
    | '+' :: cs => cs
    | cs => cs
  if digits.isEmpty || !digits.all Char.isDigit then none
  else
    let n := Decimal.ofDigits digits
    if n ≤ Numeral.maxWord then some n else none

/-- The value of an option that is still open. -/
def fill {α : Type} (name value : String) (old : Option α) (read? : String → Option α) :
    Except UsageError (Option α) :=
  -- an option given twice is refused before its second value is read
  if old.isSome then .error (.repeated name)
  else match read? value with
    | some a => .ok (some a)
    | none => .error (.invalidValue name value)

/-- An invocation with one more option given by a value. -/
def withOption (inv : Invocation) (name : String) (option : ValueOption) (value : String) :
    Except UsageError Invocation := do
  let p := inv.preferences
  match option with
  | .rules =>
    let rules ← fill name value p.rules some
    pure { inv with preferences := { p with rules } }
  | .docs =>
    let docs ← fill name value p.docs some
    pure { inv with preferences := { p with docs } }
  | .config =>
    let settingsFile ← fill name value inv.settingsFile path?
    pure { inv with settingsFile }
  | .only =>
    let only ← fill name value p.only Check.ofChoice?
    pure { inv with preferences := { p with only } }
  | .format =>
    let format ← fill name value p.format Format.ofName?
    pure { inv with preferences := { p with format } }
  | .allowed =>
    let allowed ← fill name value p.allowed count?
    pure { inv with preferences := { p with allowed } }
  | .color =>
    let color ← fill name value inv.color ColorChoice.ofName?
    pure { inv with color }
  | .arrows =>
    let arrows ← fill name value inv.arrows Arrows.ofName?
    pure { inv with arrows }

/-- An invocation with one more flag, or what the flag asks for instead of a run. -/
def withFlag (inv : Invocation) (name : String) (flag : Flag) :
    Except UsageError (Invocation ⊕ Request) :=
  let p := inv.preferences
  match flag with
  | .noRules =>
    if p.noRules.isSome then .error (.repeated name)
    else .ok (.inl { inv with preferences := { p with noRules := some true } })
  | .denyWarnings =>
    if p.denyWarnings.isSome then .error (.repeated name)
    else .ok (.inl { inv with preferences := { p with denyWarnings := some true } })
  | .verbose =>
    if inv.isVerbose then .error (.repeated name) else .ok (.inl { inv with isVerbose := true })
  | .version => .ok (.inr .version)
  | .help => .ok (.inr .help)

/-- An invocation with the flags of several letters in a row. -/
def withLetters (inv : Invocation) : List Char → Except UsageError (Invocation ⊕ Request)
  | [] => .ok (.inl inv)
  | c :: cs =>
    let name := String.ofList ['-', c]
    match Flag.ofLetter? c with
    | none => .error (.unknownOption name)
    | some flag => do
      match ← inv.withFlag name flag with
      | .inl inv => inv.withLetters cs
      | .inr request => .ok (.inr request)

/-- An invocation with one more script. -/
def withFile (inv : Invocation) (file : String) : Except UsageError Invocation :=
  match path? file with
  | some file => .ok { inv with files := inv.files ++ [file] }
  | none => .error (.invalidValue "files" file)

/-- An invocation with more scripts. -/
def withFiles (inv : Invocation) : List String → Except UsageError Invocation
  | [] => .ok inv
  | file :: files => do
    let inv ← inv.withFile file
    inv.withFiles files

/-- A run of an invocation, which needs a script. -/
def finish (inv : Invocation) : Except UsageError Request :=
  if inv.files.isEmpty then .error .noFiles else .ok (.run inv)

/-- The kinds of arguments. -/
inductive ArgumentKind where
  /-- The mark behind which every argument is a script. -/
  | stop
  /-- An option with a long name and perhaps a value behind `=`. -/
  | long (name : String) (value : Option String)
  | letters (letters : List Char)
  | file
deriving DecidableEq, Inhabited

/-- The kind of an argument, as its first characters tell it. -/
def ArgumentKind.ofText (text : String) : ArgumentKind :=
  match text.toList with
  | '-' :: '-' :: [] => .stop
  | '-' :: '-' :: cs =>
    let name := String.ofList ('-' :: '-' :: cs.takeWhile (· ≠ '='))
    match cs.dropWhile (· ≠ '=') with
    | [] => .long name none
    | _ :: value => .long name (some (String.ofList value))
  | '-' :: c :: cs => .letters (c :: cs)
  | _ => .file

/-- Goes through the arguments that are left. -/
def readFrom (inv : Invocation) : List String → Except UsageError Request
  | [] => inv.finish
  | text :: texts =>
    match ArgumentKind.ofText text with
    | .stop => do
      let inv ← inv.withFiles texts
      inv.finish
    | .file => do
      let inv ← inv.withFile text
      inv.readFrom texts
    | .letters letters => do
      match ← inv.withLetters letters with
      | .inl inv => inv.readFrom texts
      | .inr request => .ok request
    | .long name value =>
      match Flag.ofName? name with
      | some flag =>
        if value.isSome then .error (.unexpectedValue name)
        else do
          match ← inv.withFlag name flag with
          | .inl inv => inv.readFrom texts
          | .inr request => .ok request
      | none =>
        match ValueOption.ofName? name with
        | none => .error (.unknownOption name)
        | some option =>
          match value with
          | some value => do
            let inv ← inv.withOption name option value
            inv.readFrom texts
          | none =>
            match texts with
            | [] => .error (.missingValue name)
            | value :: rest =>
              -- what looks like an option is not taken for a value
              if ArgumentKind.ofText value = .file then do
                let inv ← inv.withOption name option value
                inv.readFrom rest
              else .error (.missingValue name)

/-- What a command line asks for. -/
def read (arguments : List String) : Except UsageError Request :=
  readFrom {} arguments

end Invocation

end PineCheck
