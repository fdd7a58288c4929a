import PineCheck.Report.Record

/-!
# PineCheck — results on the console

What a run writes for a person to read: a line of counts for every script, and
on demand the tokens, the calls and the work that was done. A text on the console
is a list of `Piece`s; without colours only their characters are written.
-/

namespace PineCheck.Report

/-- How the characters on the console look from some point on. -/
inductive Look where
  | plain
  | dimmed
  | failing
  | doubtful
  | passing
deriving DecidableEq, Inhabited

/-- The control sequence that switches to a look: it takes back the look before,
and then sets weight and colour. -/
def Look.sequence : Look → String
  | plain => "\x1b[0m"
  | dimmed => "\x1b[0m\x1b[2m"
  | failing => "\x1b[0m\x1b[1m\x1b[31m"
  | doubtful => "\x1b[0m\x1b[1m\x1b[33m"
  | passing => "\x1b[0m\x1b[32m"

/-- A piece of a text on the console. -/
inductive Piece where
  | look (style : Look)
  | text (contents : String)
deriving DecidableEq, Inhabited

/-- The characters of a piece. -/
def Piece.render (hasColors : Bool) : Piece → String
  | look style => if hasColors then style.sequence else ""
  | text contents => contents

/-- The characters of a text. -/
def render (hasColors : Bool) (pieces : List Piece) : String :=
  String.join (pieces.map (Piece.render hasColors))

/-! ## The line of counts -/

/-- How many diagnostics of each kind a script has. -/
structure Tally where
  errors : Nat
  warnings : Nat
  suggestions : Nat
deriving DecidableEq, Inhabited

namespace Tally

/-- The tally of a list of severities. -/
def ofSeverities (severities : List Severity) : Tally where
  errors := severities.count .error + severities.count .critical
  warnings := severities.count .warning
  suggestions := severities.count .info

/-- The look of the worst kind of diagnostic there is. -/
def look (tally : Tally) : Look :=
  if 0 < tally.errors then .failing
  else if 0 < tally.warnings then .doubtful
  else .passing

/-- The line of counts for a script. -/
def summary (tally : Tally) (file : String) : List Piece :=
  [.look tally.look,
   .text (file ++ ": " ++ toString tally.errors ++ " errors, " ++ toString tally.warnings
     ++ " warnings, " ++ toString tally.suggestions ++ " suggestions\n"),
   .look .plain]

end Tally

/-! ## Reports -/

/-- The first line of the report on a diagnostic. -/
def headline (code : String) (severity : Severity) (message : String) : String :=
  -- a message may go over several lines, of which a report shows the first
  "[" ++ code ++ "] " ++ severity.headline ++ ": "
    ++ String.ofList (message.toList.takeWhile (· ≠ '\n'))

/-- The first line of the report on a parse error. -/
def parseErrorHeadline (error : ParseError) : String :=
  headline error.problem.code.name error.problem.severity error.problem.message

/-- The first line of the report on a finding. -/
def findingHeadline (finding : Finding) : String :=
  headline finding.code finding.severity finding.cause.message

/-! ## What is written on demand -/

/-- The line that says what is done next. -/
def heading (activity file : String) : List Piece :=
  [.look .plain, .text (activity ++ " " ++ file ++ "...\n")]

/-- The tokens of a script in a row. -/
def tokenListing (lexed : List Lexed) : List Piece :=
  let entry (lexed : Lexed) : String :=
    match lexed.reading with
    | .ok token => token.listing ++ "   "
    | .error _ => "ERROR   "
  [.look .dimmed, .text (String.join (lexed.map entry) ++ "\n\n")]

/-- A text with spaces before it that make it `width` characters long. -/
def padLeft (width : Nat) (text : String) : String :=
  String.ofList (List.replicate (width - text.length) ' ') ++ text

/-- How an argument is listed: by its name, or else by its position. -/
def argumentLabel (argument : Argument) : String :=
  match argument.name with
  | some name => name.name ++ "="
  | none => "#" ++ toString argument.position

/-- The line that lists a call. -/
def callLine (call : Call) : String :=
  padLeft 5 (toString call.span.line) ++ "  " ++ call.name ++ "("
    ++ ", ".intercalate (call.arguments.map argumentLabel) ++ ")\n"

/-- The calls of a script, one to a line. -/
def callListing (calls : List Call) : List Piece :=
  [.look .dimmed, .text (String.join (calls.map callLine) ++ "\n")]

/-- What an analysis has done. The times are not measured and are given as zero. -/
def workLine (analysis : Analysis) : List Piece :=
  [.look .dimmed,
   .text ("parsed in 0ms, analyzed in 0ms; " ++ toString analysis.calls.length ++ " calls, "
     ++ toString analysis.performed ++ " checks (" ++ toString analysis.failed
     ++ " failed)\n\n")]

/-- The line that ends a run. -/
def farewell : List Piece :=
  [.look .plain, .text "Done.\n"]

/-- A JSON record on a line of its own. -/
def recordLine (record : Json) : List Piece :=
  [.text (record.compact ++ "\n")]

end PineCheck.Report
