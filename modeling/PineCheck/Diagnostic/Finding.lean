import PineCheck.Diagnostic.Rule
import PineCheck.Json.Value
import PineCheck.Language.Name
import PineCheck.Language.ValueType
import PineCheck.Text.Position

/-!
# PineCheck — findings

A finding is the cause for a complaint and the span it is about. The cause holds
all that a check has found out; from it follow the rule that is broken, the
message, the facts for other programs to read, and the fix that is suggested.
-/

namespace PineCheck

/-- The ways to write a name that are not the usual one, which joins lower case
words by underscores. -/
inductive Convention where
  | singleCharacter
  | camelCase
  | pascalCase
  | allCaps
deriving DecidableEq, Inhabited

/-- How a convention is called. -/
def Convention.description : Convention → String
  | singleCharacter => "a single character"
  | camelCase => "camelCase"
  | pascalCase => "PascalCase"
  | allCaps => "ALL_CAPS"

/-- A number that a script gives for a parameter, and the numbers that are
allowed. -/
structure Measurement where
  parameter : String
  /-- The number as it is written. -/
  raw : String
  value : Float
  min : Float
  max : Float

namespace Measurement

/-- Whether the number has a fraction. -/
def isFractional (m : Measurement) : Bool :=
  m.value.floor != m.value

/-- Whether the number is too small or too large. -/
def isOutOfRange (m : Measurement) : Bool :=
  m.value < m.min || m.max < m.value

end Measurement

/-- What a check has found. -/
inductive Cause where
  | missingArguments (function : String) (required given : Nat) (missing : List String)
  | tooManyArguments (function : String) (total given : Nat)
  | wrongType (function parameter : String) (index : Nat) (expected actual : ValueType)
  /-- A field is read of an object that holds nothing since the given line. -/
  | naAccess (object field typeName : String) (isVar : Bool) (line : Nat)
  /-- A field is read of an earlier value of an object. -/
  | naHistoryAccess (object field history : String)
  | renamedParameter (function parameter replacement : String)
  | unusualName (function parameter : String) (convention : Convention)
      (suggestion : Option String)
  | longShortTitle (title : String) (length limit : Nat)
  | badNumber (rule : Rule) (measurement : Measurement)
  | shadowedNamespace (name : String)
  | badContinuation (line continued indentation : Nat)
  | renamedFunction (function replacement : String)
  | missingNamespace (function namespaced : String)
  | outdatedVersion (version : Nat)
  | noVersion
  | failedCheck (check : Check) (reason : String)

/-- A cause and the span it is about. -/
structure Finding where
  cause : Cause
  span : Span

namespace Cause

/-- The rule that is broken. -/
def rule : Cause → Rule
  | missingArguments .. => .missingRequiredParameters
  | tooManyArguments .. => .tooManyParameters
  | wrongType .. => .typeMismatch
  | naAccess .. => .naObjectAccess
  | naHistoryAccess .. => .naObjectHistoryAccess
  | renamedParameter .. => .deprecatedParameterName
  | unusualName .. => .invalidParameterNamingConvention
  | longShortTitle .. => .shortTitleTooLong
  | badNumber rule _ => rule
  | shadowedNamespace _ => .namespaceShadowing
  | badContinuation .. => .invalidLineContinuation
  | renamedFunction .. => .deprecatedFunction
  | missingNamespace .. => .missingNamespace
  | outdatedVersion _ => .outdatedVersion
  | noVersion => .missingVersionDirective
  | failedCheck check _ => .checkFailure check

/-- A text in single quotes. -/
def quote (s : String) : String :=
  "'" ++ s ++ "'"

/-- What a cause tells the author of the script. -/
def message : Cause → String
  | missingArguments function required given _ =>
    quote function ++ " requires at least " ++ toString required ++ " arguments, but "
      ++ toString given ++ " were given"
  | tooManyArguments function total given =>
    quote function ++ " accepts at most " ++ toString total ++ " arguments, but "
      ++ toString given ++ " were given"
  | wrongType function parameter _ expected actual =>
    "Argument " ++ quote parameter ++ " of " ++ quote function ++ " should be "
      ++ expected.tag ++ ", found " ++ actual.tag
  | naAccess object field _ isVar line =>
    "Accessing field " ++ quote field ++ " of " ++ quote object ++ ", which was "
      ++ (if isVar then "declared with `var` as na" else "assigned na")
      ++ " on line " ++ toString line
  | naHistoryAccess object field history =>
    "Historical value '" ++ object ++ "[" ++ history ++ "]' may be na, so reading its field "
      ++ quote field ++ " can fail"
  | renamedParameter function parameter replacement =>
    "Parameter " ++ quote parameter ++ " of " ++ quote function ++ " has been renamed to "
      ++ quote replacement
  | unusualName _ parameter convention _ =>
    "Parameter " ++ quote parameter ++ " is " ++ convention.description
      ++ ", but parameter names are snake_case"
  | longShortTitle title length limit =>
    "Short title \"" ++ title ++ "\" is " ++ toString length
      ++ " characters long, the maximum is " ++ toString limit
  | badNumber _ m =>
    -- a number may be both; then the fraction is what is told
    if m.isFractional then
      quote m.parameter ++ " must be a whole number, found " ++ m.raw
    else
      quote m.parameter ++ " must be between " ++ Decimal.inMessage m.min ++ " and "
        ++ Decimal.inMessage m.max ++ ", found " ++ m.raw
  | shadowedNamespace name =>
    "Assigning to " ++ quote name ++ " shadows the built-in " ++ quote name ++ " namespace"
  | badContinuation line continued indentation =>
    "Line " ++ toString line ++ " continues line " ++ toString continued
      ++ " but is indented by " ++ toString indentation
      ++ " spaces, which starts a local block"
  | renamedFunction function replacement =>
    quote function ++ " is deprecated, use " ++ replacement ++ " instead"
  | missingNamespace function namespaced =>
    quote function ++ " must be called as " ++ quote namespaced ++ " in version "
      ++ toString Language.currentVersion
  | outdatedVersion version =>
    "Version " ++ toString version ++ " is outdated, the current version is "
      ++ toString Language.currentVersion
  | noVersion => "The script has no //@version directive"
  | failedCheck check reason =>
    "The " ++ check.name ++ " check could not be completed: " ++ reason

/-- A number as a fact: whole numbers below `10 ^ 15` have no point. -/
def numberFact (x : Float) : Json :=
  -- within this range every whole number is exact
  if x.floor == x && x.abs < 1e15 then .int x.toInt64.toInt else .float x

/-- The facts behind a cause, sorted by name. -/
def facts : Cause → List (String × Json)
  | missingArguments function required given missing =>
    [("actual", .nat given), ("expected", .nat required), ("function", .string function),
     ("missing", .array (missing.map .string))]
  | tooManyArguments function total given =>
    [("actual", .nat given), ("expected", .nat total), ("function", .string function)]
  | wrongType function parameter index expected actual =>
    [("actual", .string actual.tag), ("expected", .string expected.tag),
     ("function", .string function), ("index", .nat index), ("parameter", .string parameter)]
  | naAccess object field typeName _ line =>
    [("declarationLine", .nat line), ("field", .string field), ("object", .string object),
     ("typeName", .string typeName)]
  | naHistoryAccess object field history =>
    [("field", .string field), ("historyOffset", .string history), ("object", .string object)]
  | renamedParameter function parameter replacement =>
    [("function", .string function), ("parameter", .string parameter),
     ("replacement", .string replacement)]
  | unusualName function parameter convention suggestion =>
    [("convention", .string convention.description), ("function", .string function),
     ("parameter", .string parameter)]
      ++ suggestion.toList.map fun name => ("suggestion", .string name)
  | longShortTitle title length limit =>
    [("actualLength", .nat length), ("maxLength", .nat limit), ("shorttitle", .string title)]
  | badNumber _ m =>
    [("actual", numberFact m.value), ("isNonInteger", .bool m.isFractional),
     ("isOutOfRange", .bool m.isOutOfRange), ("max", numberFact m.max),
     ("min", numberFact m.min), ("parameter", .string m.parameter),
     ("violation", .string (if m.isFractional then "non_integer" else "out_of_range"))]
  | shadowedNamespace name => [("namespace", .string name)]
  | badContinuation _ continued indentation =>
    [("continuedLine", .nat continued), ("indentation", .nat indentation)]
  | renamedFunction function replacement =>
    [("function", .string function), ("replacement", .string replacement)]
  | missingNamespace function namespaced =>
    [("function", .string function), ("namespaced", .string namespaced)]
  | outdatedVersion version =>
    [("currentVersion", .nat Language.currentVersion), ("version", .nat version)]
  | noVersion => []
  | failedCheck check reason => [("checker", .string check.name), ("reason", .string reason)]

/-- The fix that is suggested. -/
def fix? : Cause → Option String
  | missingArguments _ _ _ missing =>
    if missing = [] then none
    else some ("Add the missing arguments: " ++ ", ".intercalate missing)
  | tooManyArguments .. | wrongType .. | failedCheck .. => none
  | naAccess object _ typeName _ _ =>
    some ("Initialize " ++ quote object ++ " with " ++ typeName
      ++ ".new() before accessing its fields")
  | naHistoryAccess object field history =>
    some ("Check `not na(" ++ object ++ "[" ++ history ++ "])` before reading " ++ quote field)
  | renamedParameter _ parameter replacement =>
    some ("Replace " ++ quote parameter ++ " with " ++ quote replacement)
  | unusualName _ parameter _ suggestion =>
    suggestion.map fun name => "Rename " ++ quote parameter ++ " to " ++ quote name
  | longShortTitle _ _ limit =>
    some ("Shorten the short title to at most " ++ toString limit ++ " characters")
  | badNumber _ m =>
    some ("Use a whole number from " ++ Decimal.inMessage m.min ++ " to "
      ++ Decimal.inMessage m.max)
  | shadowedNamespace name =>
    some ("Rename the variable, for example to '" ++ name ++ "_value'")
  | badContinuation .. =>
    some ("Indent continuation lines by a number of spaces that is not a multiple of four")
  | renamedFunction function replacement =>
    some ("Replace " ++ quote function ++ " with " ++ replacement)
  | missingNamespace function namespaced =>
    some ("Replace " ++ quote function ++ " with " ++ quote namespaced)
  | outdatedVersion _ =>
    some ("Migrate the script and use //@version=" ++ toString Language.currentVersion)
  | noVersion =>
    some ("Add //@version=" ++ toString Language.currentVersion ++ " as the first line")

end Cause

namespace Finding

/-- The rule that is broken. -/
def rule (finding : Finding) : Rule :=
  finding.cause.rule

/-- The code of the rule that is broken. -/
def code (finding : Finding) : String :=
  finding.rule.code

/-- How bad a finding is. -/
def severity (finding : Finding) : Severity :=
  finding.rule.severity

/-- Whether a finding makes a script fail. -/
def isError (finding : Finding) : Bool :=
  finding.severity.isError

end Finding

end PineCheck
