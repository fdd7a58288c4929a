import PineCheck.Check.Compatibility
import PineCheck.Check.Continuation
import PineCheck.Check.Declaration
import PineCheck.Check.Naming
import PineCheck.Check.ObjectState
import PineCheck.Check.Shadowing
import PineCheck.Check.Signatures
import PineCheck.Parser.Statement
import PineCheck.Text.Mask

/-!
# PineCheck — analysing a script

`analyze` parses a script and runs the checks that are turned on; `runSingle`
runs one check whether it is turned on or not.
-/

namespace PineCheck

/-- All that decides about an analysis beside the script. -/
structure Settings where
  rules : Option Rulebook := none
  documentation : Option Documentation := none
  /-- How many errors the parse may go on behind. -/
  allowed : Nat := Parser.defaultAllowed
deriving Inhabited

namespace Settings

/-- Whether the rulebook turns on a code. -/
def defines (settings : Settings) (code : String) : Bool :=
  settings.rules.any fun rules => rules.defines code

/-- Whether a check runs in a full analysis. -/
def enables (settings : Settings) (check : Check) : Bool :=
  check.isAlwaysOn || check.rules.any fun rule => settings.defines rule.code

/-- The checks that run in a full analysis, in order. -/
def enabledChecks (settings : Settings) : List Check :=
  Check.all.filter settings.enables

end Settings

/-- What the checks of one analysis look at. -/
structure Subject where
  script : List Char
  /-- The script with the inside of strings and comments made blank. -/
  masked : List Char
  program : Program
  settings : Settings

namespace Subject

/-- A script with its tree. -/
def ofSource (source : String) (program : Program) (settings : Settings) : Subject :=
  let script := source.toList
  ⟨script, Text.mask script, program, settings⟩

end Subject

namespace Check

/-- Runs a check. A check for numbers needs to know their limits. -/
def run (check : Check) (subject : Subject) : Except String (List Finding) :=
  let settings := subject.settings
  match check with
  | .signatures => .ok (Signatures.check settings.documentation subject.program)
  | .objectState => .ok (ObjectState.check subject.script subject.masked)
  | .naming => .ok (Naming.check settings.documentation subject.script subject.masked)
  | .shortTitle =>
    .ok (Declaration.checkShortTitles settings.rules subject.script subject.masked)
  | .precision | .maxBarsBack | .drawingLimits =>
    match Declaration.limits? check with
    | some limits =>
      .ok (Declaration.checkNumbers settings.rules subject.script subject.masked limits)
    | none => .error (check.name ++ " is not a range check")
  | .namespaceShadowing => .ok (Shadowing.check subject.script subject.masked)
  | .lineContinuation => .ok (Continuation.check subject.script subject.masked)
  | .compatibility => .ok (Compatibility.check subject.script subject.masked)

/-- The finding that a check could not be completed. -/
def failure (check : Check) (subject : Subject) (reason : String) : Finding :=
  ⟨.failedCheck check reason, locate subject.script 0 0⟩

/-- Whether a finding of a check is reported: an optional check only reports codes
that are turned on. -/
def reports (check : Check) (settings : Settings) (finding : Finding) : Bool :=
  check.isAlwaysOn || settings.defines finding.code

end Check

/-- The outcome of checks: what they have found, and how many of them failed. -/
structure Outcome where
  findings : List Finding := []
  failed : Nat := 0
deriving Inhabited

namespace Outcome

/-- One outcome after another. -/
def append (a b : Outcome) : Outcome :=
  ⟨a.findings ++ b.findings, a.failed + b.failed⟩

/-- The outcome of one check, restricted to the findings for which `keep` holds. -/
def ofCheck (check : Check) (subject : Subject) (keep : Finding → Bool) : Outcome :=
  match check.run subject with
  | .ok findings => ⟨findings.filter keep, 0⟩
  -- a check that fails is reported even if none of its codes is turned on
  | .error reason => ⟨[check.failure subject reason], 1⟩

/-- The outcome of several checks in order. -/
def ofChecks (checks : List Check) (subject : Subject) : Outcome :=
  match checks with
  | [] => {}
  | check :: checks =>
    (ofCheck check subject (check.reports subject.settings)).append (ofChecks checks subject)

end Outcome

/-- The result of an analysis. -/
structure Analysis where
  findings : List Finding
  calls : List Call
  errors : List ParseError
  warnings : List ParseError
  /-- The number of checks that ran. -/
  performed : Nat
  /-- The number of checks that could not be completed. -/
  failed : Nat

namespace Analysis

/-- Whether the parse came to the end of the script. -/
def isComplete (analysis : Analysis) : Bool :=
  !analysis.errors.any fun error => error.problem.severity = .critical

/-- The number of findings and parse errors that make a script fail. -/
def errorCount (analysis : Analysis) : Nat :=
  analysis.findings.countP Finding.isError + analysis.errors.length

/-- Whether something makes the script fail. -/
def hasErrors (analysis : Analysis) : Bool :=
  analysis.findings.any Finding.isError ||
    analysis.errors.any fun error => error.problem.severity.isError

/-- Whether there is a warning. -/
def hasWarnings (analysis : Analysis) : Bool :=
  (analysis.findings.any fun finding => finding.severity = .warning) ||
    !analysis.warnings.isEmpty

end Analysis

/-- Parses a script and runs the checks that are turned on. -/
def analyze (source : String) (settings : Settings) : Analysis :=
  let parsed := parse source settings.allowed
  -- the checks also run on what is left of a script that does not parse
  let subject := Subject.ofSource source parsed.program settings
  let checks := settings.enabledChecks
  let outcome := Outcome.ofChecks checks subject
  { findings := outcome.findings
    calls := parsed.program.calls
    errors := parsed.errors
    warnings := parsed.warnings
    performed := checks.length
    failed := outcome.failed }

/-- Runs one check. The script is only parsed if the check looks at its tree. -/
def runSingle (check : Check) (source : String) (settings : Settings) : Outcome :=
  let program := if check.readsTree then (parse source settings.allowed).program else ⟨[], none⟩
  -- a check that is asked for reports all it finds, whatever the rulebook says
  Outcome.ofCheck check (Subject.ofSource source program settings) fun _ => true

end PineCheck
