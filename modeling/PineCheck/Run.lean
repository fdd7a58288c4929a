import PineCheck.BuiltinFile
import PineCheck.CommandLine
import PineCheck.Report.Console

/-!
# PineCheck — a run over several scripts

A run settles what it is asked to do (`Plan.ofInvocation`), examines one script
after the other and gives the results (`Plan.result`). A script that cannot be
read ends the run; what was written before stays.

* `Plan.examine` — what is found out about a script.
* `Examination.fails` — whether a script does not pass.
* `run` — the text for the console, the reports, and the failure if there is one.
* `execute` — what a command line comes to.
-/

namespace PineCheck

/-- Why a run does not succeed. -/
inductive Failure where
  | unreadable (path : String)
  | invalidSettings (path : String)
  /-- A rulebook is named and refused at once. -/
  | contradictoryRules
  | notLoaded (error : LoadError)
  /-- So many scripts do not pass. -/
  | notPassed (count : Nat)
deriving DecidableEq, Inhabited

/-- What is told about a run that does not succeed. -/
def Failure.message : Failure → String
  | unreadable path => "failed to read '" ++ path ++ "'"
  | invalidSettings path => "failed to parse '" ++ path ++ "'"
  | contradictoryRules => "--rules cannot be used with --no-rules"
  | notLoaded error => error.message
  | notPassed count => toString count ++ " files did not pass"

/-- What a run does, with nothing left open. -/
structure Plan where
  files : List String
  rules : Option Rulebook
  documentation : Documentation
  only : Option Check
  format : Format
  denyWarnings : Bool
  allowed : Nat
  isVerbose : Bool
  hasColors : Bool

namespace Plan

/-- The preferences in the settings file of an invocation, if it names one. -/
def settingsOf (files : Files) (inv : Invocation) : Except Failure Preferences :=
  match inv.settingsFile with
  | none => .ok {}
  | some path =>
    match files path with
    | none => .error (.unreadable path)
    | some text =>
      match Preferences.read? text with
      | some preferences => .ok preferences
      | none => .error (.invalidSettings path)

/-- The rulebook that preferences ask for. -/
def rulesOf (files : Files) (preferences : Preferences) : Except Failure (Option Rulebook) :=
  match preferences.noRules.getD false, preferences.rules with
  -- the two are refused wherever each comes from, the settings file included
  | true, some _ => .error .contradictoryRules
  | true, none => .ok none
  | false, path =>
    match loadRulebook files (path.getD BuiltinFile.rules.path) with
    | .ok rules => .ok (some rules)
    | .error error => .error (.notLoaded error)

/-- The documentation that preferences ask for. -/
def documentationOf (files : Files) (preferences : Preferences) :
    Except Failure Documentation :=
  match loadDocumentation files (preferences.docs.getD BuiltinFile.documentation.path) with
  | .ok documentation => .ok documentation
  | .error error => .error (.notLoaded error)

/-- Settles what an invocation asks for. Its own preferences count before those in
the settings file. -/
def ofInvocation (files : Files) (inv : Invocation) : Except Failure Plan := do
  let preferences := inv.preferences.orElse (← settingsOf files inv)
  let rules ← rulesOf files preferences
  let documentation ← documentationOf files preferences
  pure
    { files := inv.files
      rules
      documentation
      only := preferences.only
      format := preferences.format.getD .human
      denyWarnings := preferences.denyWarnings.getD false
      allowed := preferences.allowed.getD Parser.defaultAllowed
      isVerbose := inv.isVerbose
      hasColors := inv.color = some .always }

/-- The settings of every analysis of a run. -/
def settings (plan : Plan) : Settings where
  rules := plan.rules
  documentation := some plan.documentation
  allowed := plan.allowed

end Plan

/-! ## One script -/

/-- What is found out about a script. -/
inductive Examination where
  | single (check : Check) (outcome : Outcome)
  | full (analysis : Analysis)

namespace Examination

/-- What the checks have found. -/
def findings : Examination → List Finding
  | single _ outcome => outcome.findings
  | full analysis => analysis.findings

/-- What the parser has to say, which a single check leaves out. -/
def parseErrors : Examination → List ParseError
  | single _ _ => []
  | full analysis => analysis.errors ++ analysis.warnings

/-- Whether a script does not pass. -/
def fails (denyWarnings : Bool) : Examination → Bool
  | single _ outcome =>
    outcome.findings.any fun finding =>
      finding.isError || (denyWarnings && finding.severity = .warning)
  | full analysis =>
    !analysis.isComplete || analysis.hasErrors || (denyWarnings && analysis.hasWarnings)

/-- The number of diagnostics of each kind. -/
def tally (examination : Examination) : Report.Tally :=
  .ofSeverities (examination.findings.map Finding.severity
    ++ examination.parseErrors.map fun error => error.problem.severity)

/-- The first lines of the reports. -/
def headlines (examination : Examination) : List String :=
  examination.parseErrors.map Report.parseErrorHeadline
    ++ examination.findings.map Report.findingHeadline

/-- What is being done to a script. -/
def activity : Examination → String
  | single check _ => "Checking " ++ check.name ++ " of"
  | full _ => "Analyzing"

/-- The record of an examination. -/
def record (file : String) : Examination → Json
  | single _ outcome => Report.fileRecord file (Report.outcomeFields outcome)
  | full analysis => Report.fileRecord file (Report.analysisFields analysis)

end Examination

namespace Plan

/-- Examines a script. -/
def examine (plan : Plan) (source : String) : Examination :=
  match plan.only with
  | some check => .single check (runSingle check source plan.settings)
  | none => .full (analyze source plan.settings)

/-- What is written on demand about a script and its examination. -/
def details (file source : String) (examination : Examination) : List Report.Piece :=
  Report.heading "Lexing" file ++ Report.tokenListing (lex source)
    ++ Report.heading examination.activity file
    ++ match examination with
      | .single _ _ => []
      | .full analysis => Report.callListing analysis.calls ++ Report.workLine analysis

/-- The text for the console about a script. -/
def page (plan : Plan) (file source : String) (examination : Examination) :
    List Report.Piece :=
  (if plan.isVerbose then details file source examination else [])
    ++ match plan.format with
      | .human => examination.tally.summary file
      | .json =>
        (if plan.isVerbose then [.look .plain] else [])
          ++ Report.recordLine (examination.record file)

/-- The reports on a script. -/
def reports (plan : Plan) (examination : Examination) : List String :=
  match plan.format with
  | .human => examination.headlines
  | .json => []

end Plan

/-! ## All scripts -/

/-- What a run has come to. -/
structure RunResult where
  output : List Report.Piece := []
  /-- The first lines of the reports, in order. -/
  reports : List String := []
  failure : Option Failure := none
deriving Inhabited

namespace Plan

/-- The result of going on with the scripts that are left when `count` scripts
have not passed. -/
def resultFrom (plan : Plan) (files : Files) (count : Nat) : List String → RunResult
  | [] =>
    { output := if plan.isVerbose then Report.farewell else []
      failure := if count = 0 then none else some (.notPassed count) }
  | file :: rest =>
    match files file with
    -- what the scripts before have written stays, and the count of failures is dropped
    | none => { failure := some (.unreadable file) }
    | some source =>
      let examination := plan.examine source
      let count := if examination.fails plan.denyWarnings then count + 1 else count
      let later := plan.resultFrom files count rest
      { output := plan.page file source examination ++ later.output
        reports := plan.reports examination ++ later.reports
        failure := later.failure }

/-- The result of a run over all scripts. -/
def result (plan : Plan) (files : Files) : RunResult :=
  plan.resultFrom files 0 plan.files

end Plan

/-- The end of a session at the console: what is written, and the exit status. -/
structure Session where
  exitStatus : Nat
  output : String := ""
  reports : List String := []
  /-- What is told if a run does not succeed. -/
  message : Option String := none
  /-- What is told if the command line cannot be understood. -/
  usage : Option String := none
deriving Inhabited

/-- Runs what an invocation asks for. -/
def run (files : Files) (inv : Invocation) : Session :=
  match Plan.ofInvocation files inv with
  | .error failure => { exitStatus := 1, message := some failure.message }
  | .ok plan =>
    let result := plan.result files
    { exitStatus := if result.failure.isSome then 1 else 0
      output := Report.render plan.hasColors result.output
      reports := result.reports
      message := result.failure.map Failure.message }

/-- The name of the program and its version. -/
def versionLine : String :=
  "pinelint 0.1.0\n"

/-- How the program is used. -/
def helpText : String :=
  "\n".intercalate
    ["Usage: pinelint [OPTIONS] <FILEPATHS>...",
     "",
     "Arguments:",
     "  <FILEPATHS>...  One or more Pine Script source files",
     "",
     "Options:",
     "      --rules <PATH>               Rule registry (JSON) that enables the optional checks",
     "      --no-rules                   Only run the checks that do not depend on a rule registry",
     "      --docs <PATH>                Function documentation (JSON)",
     "      --config <CONFIG>            Load additional options from TOML file",
     "      --only <CHECK>               Run a single check, regardless of the rule registry",
     "      --format <FORMAT>            How to print the results [human, json]",
     "      --deny-warnings              Fail when any warning is reported",
     "      --max-recovery-attempts <N>  How often the parser may recover from an error",
     "  -v, --verbose                    Show a lot of intermediate output",
     "      --color <WHEN>               When to use ANSI colors [auto, always, never]",
     "      --arrows <CHARSET>           How to draw arrows in reports [unicode, ascii]",
     "  -h, --help                       Print help",
     "  -V, --version                    Print version",
     ""]

/-- What a command line comes to. -/
def execute (files : Files) (arguments : List String) : Session :=
  match Invocation.read arguments with
  | .error error => { exitStatus := 2, usage := some error.message }
  | .ok .version => { exitStatus := 0, output := versionLine }
  | .ok .help => { exitStatus := 0, output := helpText }
  | .ok (.run inv) => run files inv

end PineCheck
