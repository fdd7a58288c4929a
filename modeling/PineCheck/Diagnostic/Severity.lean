/-!
# PineCheck — how bad a diagnostic is, and what it is about

Diagnostics come from the parser and from the checks. Both share four levels of
severity and eleven categories, and every category belongs to one class.
-/

namespace PineCheck

/-- How bad a diagnostic is. -/
inductive Severity where
  | info
  | warning
  | error
  | critical
deriving DecidableEq, Inhabited

namespace Severity

/-- Every severity, from the mildest on. -/
def all : List Severity :=
  [info, warning, error, critical]

/-- How a severity is called. -/
def name : Severity → String
  | info => "info"
  | warning => "warning"
  | error => "error"
  | critical => "critical"

/-- How a severity is called in a record of findings, which knows three levels. -/
def recordName : Severity → String
  | info => "suggestion"
  | warning => "warning"
  | error => "error"
  | critical => "error"

/-- How a severity is called at the head of a report. -/
def headline : Severity → String
  | info => "Advice"
  | warning => "Warning"
  | error => "Error"
  | critical => "Error"

/-- Whether a diagnostic of this severity makes a script fail. -/
def isError : Severity → Bool
  | info | warning => false
  | error | critical => true

end Severity

/-- The large groups of categories. -/
inductive DiagnosticClass where
  | lexical
  | syntactic
  | semantic
  | validation
  | performance
  | integration
deriving DecidableEq, Inhabited

/-- How a class is called. -/
def DiagnosticClass.name : DiagnosticClass → String
  | lexical => "lexical"
  | syntactic => "syntax"
  | semantic => "semantic"
  | validation => "validation"
  | performance => "performance"
  | integration => "integration"

/-- What a diagnostic is about. -/
inductive Category where
  | lexical
  | syntactic
  | typeChecking
  | parameterValidation
  | runtimeSafety
  | namingConvention
  | deprecation
  | compatibility
  | rangeValidation
  | performance
  | integration
deriving DecidableEq, Inhabited

namespace Category

/-- How a category is called. -/
def name : Category → String
  | lexical => "lexical"
  | syntactic => "syntax"
  | typeChecking => "type_checking"
  | parameterValidation => "parameter_validation"
  | runtimeSafety => "runtime_safety"
  | namingConvention => "naming_convention"
  | deprecation => "deprecation"
  | compatibility => "compatibility"
  | rangeValidation => "range_validation"
  | performance => "performance"
  | integration => "integration"

/-- The class of a category. -/
def diagnosticClass : Category → DiagnosticClass
  | lexical => .lexical
  | syntactic => .syntactic
  | typeChecking | parameterValidation | runtimeSafety => .semantic
  | namingConvention | deprecation | compatibility | rangeValidation => .validation
  | performance => .performance
  | integration => .integration

end Category

end PineCheck
