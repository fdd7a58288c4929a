import PineCheck.Analysis

/-!
# PineCheck — results as JSON records

The shape of calls, parse errors, findings and whole analyses in JSON. A record
has its fields in a fixed order, and fields without a value are left out.
-/

namespace PineCheck.Report

/-- A field that is left out if it has no value. -/
def optionalField (name : String) (value : Option Json) : List (String × Json) :=
  value.toList.map fun json => (name, json)

mutual

/-- The record of a value. -/
def valueRecord : Value → Json
  | .literal l =>
    .object [("type", .string "literal"), ("kind", .string l.kind.name), ("raw", .string l.raw)]
  | .identifier i => .object [("type", .string "identifier"), ("name", .string i.name)]
  | .call c => .object (("type", .string "functionCall") :: callFields c)

/-- The fields of the record of a call. -/
def callFields : Call → List (String × Json)
  | ⟨name, arguments, span⟩ =>
    [("name", .string name)]
      ++ optionalField "namespace" ((Call.splitName? name).map fun parts => .string parts.1)
      ++ [("parameters", .array (argumentRecords arguments)), ("line", .nat span.line)]

/-- The records of arguments. -/
def argumentRecords : List Argument → List Json
  | [] => []
  | argument :: arguments => argumentRecord argument :: argumentRecords arguments

/-- The record of an argument. -/
def argumentRecord : Argument → Json
  | ⟨name, value, position, isExpression, _⟩ =>
    .object ([("name", .text? (name.map Identifier.name)), ("value", valueRecord value),
        ("position", .nat position)]
      ++ if isExpression then [("isExpression", .bool true)] else [])

end

/-- The record of a call. -/
def callRecord (call : Call) : Json :=
  .object (callFields call)

/-- The fields of the record of a parse error. -/
def parseErrorFields (error : ParseError) : List (String × Json) :=
  [("code", .string error.problem.code.name), ("message", .string error.problem.message),
   ("severity", .string error.problem.severity.name),
   ("category", .string error.problem.category.name),
   ("recovery", .string error.problem.recovery.name),
   ("line", .nat error.span.line), ("column", .nat error.span.column)]

/-- The record of a parse error. -/
def parseErrorRecord (error : ParseError) : Json :=
  .object (parseErrorFields error)

/-- The fields of the record of something that breaks a rule. -/
def ruleFields (rule : Rule) (message : String) (span : Span) (facts : List (String × Json))
    (fix : Option String) : List (String × Json) :=
  [("rule", .string rule.code), ("severity", .string rule.severity.recordName),
   ("category", .string rule.category.name), ("message", .string message),
   ("line", .nat span.line), ("column", .nat span.column)]
    ++ optionalField "metadata" (if facts.isEmpty then none else some (.object facts))
    ++ optionalField "suggestedFix" (fix.map .string)

/-- The fields of the record of a finding. -/
def findingFields (finding : Finding) : List (String × Json) :=
  let cause := finding.cause
  ruleFields cause.rule cause.message finding.span cause.facts cause.fix?

/-- The record of a finding. -/
def findingRecord (finding : Finding) : Json :=
  .object (findingFields finding)

/-- The fields of the record of an analysis. The times are not measured and are
given as zero. -/
def analysisFields (analysis : Analysis) : List (String × Json) :=
  [("success", .bool analysis.isComplete),
   ("violations", .array (analysis.findings.map findingRecord)),
   ("functionCalls", .array (analysis.calls.map callRecord)),
   ("metrics", .object
     [("totalTimeMs", .nat 0), ("parseTimeMs", .nat 0),
      ("functionsFound", .nat analysis.calls.length),
      ("errorsFound", .nat analysis.errorCount),
      ("checksPerformed", .nat analysis.performed), ("checksFailed", .nat analysis.failed)]),
   ("errors", .array (analysis.errors.map parseErrorRecord)),
   ("warnings", .array (analysis.warnings.map parseErrorRecord))]

/-- The fields of the record of the outcome of one check. -/
def outcomeFields (outcome : Outcome) : List (String × Json) :=
  [("violations", .array (outcome.findings.map findingRecord)),
   ("metrics", .object
     [("totalTimeMs", .nat 0), ("checksPerformed", .nat 1),
      ("checksFailed", .nat outcome.failed)])]

/-- A record that says which file it is about. -/
def fileRecord (file : String) (fields : List (String × Json)) : Json :=
  .object (("file", .string file) :: fields)

end PineCheck.Report
