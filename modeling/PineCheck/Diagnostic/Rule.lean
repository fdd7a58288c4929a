import PineCheck.Check
import PineCheck.Diagnostic.Severity

/-!
# PineCheck — rules

A rule is a kind of finding. Its code names it in a rulebook and in a report, and
it decides the severity and the category of the finding.
-/

namespace PineCheck

/-- A kind of finding. -/
inductive Rule where
  | missingRequiredParameters
  | tooManyParameters
  | typeMismatch
  | naObjectAccess
  | naObjectHistoryAccess
  | deprecatedParameterName
  | invalidParameterNamingConvention
  | shortTitleTooLong
  | invalidPrecision
  | invalidMaxBarsBack
  | invalidMaxLinesCount
  | invalidMaxLabelsCount
  | invalidMaxBoxesCount
  | namespaceShadowing
  | invalidLineContinuation
  | deprecatedFunction
  | outdatedVersion
  | missingVersionDirective
  | missingNamespace
  /-- A check could not be completed. -/
  | checkFailure (check : Check)
deriving DecidableEq, Inhabited

namespace Rule

/-- Every rule. -/
def all : List Rule :=
  [missingRequiredParameters, tooManyParameters, typeMismatch, naObjectAccess,
   naObjectHistoryAccess, deprecatedParameterName, invalidParameterNamingConvention,
   shortTitleTooLong, invalidPrecision, invalidMaxBarsBack, invalidMaxLinesCount,
   invalidMaxLabelsCount, invalidMaxBoxesCount, namespaceShadowing, invalidLineContinuation,
   deprecatedFunction, outdatedVersion, missingVersionDirective, missingNamespace]
    ++ Check.all.map checkFailure

/-- The code of a rule. -/
def code : Rule → String
  | missingRequiredParameters => "missing_required_parameters"
  | tooManyParameters => "too_many_parameters"
  | typeMismatch => "type_mismatch"
  | naObjectAccess => "na_object_access"
  | naObjectHistoryAccess => "na_object_history_access"
  | deprecatedParameterName => "DEPRECATED_PARAMETER_NAME"
  | invalidParameterNamingConvention => "INVALID_PARAMETER_NAMING_CONVENTION"
  | shortTitleTooLong => "SHORT_TITLE_TOO_LONG"
  | invalidPrecision => "INVALID_PRECISION"
  | invalidMaxBarsBack => "INVALID_MAX_BARS_BACK"
  | invalidMaxLinesCount => "INVALID_MAX_LINES_COUNT"
  | invalidMaxLabelsCount => "INVALID_MAX_LABELS_COUNT"
  | invalidMaxBoxesCount => "INVALID_MAX_BOXES_COUNT"
  | namespaceShadowing => "NAMESPACE_SHADOWING"
  | invalidLineContinuation => "INVALID_LINE_CONTINUATION"
  | deprecatedFunction => "DEPRECATED_FUNCTION"
  | outdatedVersion => "OUTDATED_VERSION"
  | missingVersionDirective => "MISSING_VERSION_DIRECTIVE"
  | missingNamespace => "MISSING_NAMESPACE"
  | checkFailure check => check.codeStart ++ "_VALIDATION_ERROR"

/-- The rule with this code. -/
def ofCode? (code : String) : Option Rule :=
  all.find? fun rule => rule.code = code

/-- What a rule is about. -/
def category : Rule → Category
  | missingRequiredParameters | tooManyParameters | shortTitleTooLong => .parameterValidation
  | typeMismatch => .typeChecking
  | naObjectAccess | naObjectHistoryAccess => .runtimeSafety
  | deprecatedParameterName => .deprecation
  | invalidParameterNamingConvention => .namingConvention
  | invalidPrecision | invalidMaxBarsBack => .rangeValidation
  | invalidMaxLinesCount | invalidMaxLabelsCount | invalidMaxBoxesCount => .rangeValidation
  | namespaceShadowing | invalidLineContinuation => .syntactic
  | deprecatedFunction | outdatedVersion => .compatibility
  | missingVersionDirective | missingNamespace => .compatibility
  | checkFailure _ => .integration

/-- How bad a finding of this rule is. -/
def severity : Rule → Severity
  | naObjectHistoryAccess | deprecatedParameterName => .warning
  | invalidParameterNamingConvention | invalidLineContinuation => .warning
  | deprecatedFunction | outdatedVersion => .warning
  | missingVersionDirective => .info
  | _ => .error

end Rule

/-- The rules that an optional check can report. -/
def Check.rules : Check → List Rule
  | .signatures | .objectState | .naming => []
  | .shortTitle => [.shortTitleTooLong]
  | .precision => [.invalidPrecision]
  | .maxBarsBack => [.invalidMaxBarsBack]
  | .drawingLimits => [.invalidMaxLinesCount, .invalidMaxLabelsCount, .invalidMaxBoxesCount]
  | .namespaceShadowing => [.namespaceShadowing]
  | .lineContinuation => [.invalidLineContinuation]
  | .compatibility =>
    [.deprecatedFunction, .outdatedVersion, .missingVersionDirective, .missingNamespace]

end PineCheck
