import PineCheck.Diagnostic.Severity
import PineCheck.Token

/-!
# PineCheck — parse errors

What can go wrong in a parse. Each problem has a code, a severity, a message and
a way in which the parser goes on behind it.
-/

namespace PineCheck

/-- A problem in a script, as the parser meets it. -/
inductive ParseProblem where
  /-- A stretch of the script is no token. -/
  | lexical (fault : Fault)
  | expectedDeclaration
  | expectedAssignedValue
  | unmatchedClosing
  | expectedParenthesis
  | expectedParenthesisBeforeStatement
  | expectedParenthesisBeforeEnd
  | expectedArgumentBeforeComma
  | expectedArgumentValue
  | expectedCommaOrParenthesis
  | positionalAfterNamed
  | trailingComma
  | nestedTooDeeply
  /-- The parser has gone on behind more problems than it is allowed to. -/
  | recoveryExhausted (allowed : Nat)
deriving DecidableEq, Inhabited

/-- The code of a parse problem. -/
inductive ParseCode where
  | lexicalError
  | unexpectedToken
  | unexpectedEndOfFile
  | missingClosingParen
  | missingValue
  | trailingComma
  | positionalAfterNamed
  | parseTimeout
deriving DecidableEq, Inhabited

/-- How a code is written. -/
def ParseCode.name : ParseCode → String
  | lexicalError => "LEXICAL_ERROR"
  | unexpectedToken => "UNEXPECTED_TOKEN"
  | unexpectedEndOfFile => "UNEXPECTED_END_OF_FILE"
  | missingClosingParen => "MISSING_CLOSING_PAREN"
  | missingValue => "MISSING_VALUE"
  | trailingComma => "TRAILING_COMMA"
  | positionalAfterNamed => "POSITIONAL_AFTER_NAMED"
  | parseTimeout => "PARSE_TIMEOUT"

/-- How the parser goes on behind a problem. -/
inductive Recovery where
  | skipToken
  | skipToNewline
  | skipToClosingParen
  | insertMissingToken
  | continueParsing
  | halt
deriving DecidableEq, Inhabited

/-- How a recovery is written. -/
def Recovery.name : Recovery → String
  | skipToken => "skip_token"
  | skipToNewline => "skip_to_newline"
  | skipToClosingParen => "skip_to_closing_paren"
  | insertMissingToken => "insert_missing_token"
  | continueParsing => "continue_parsing"
  | halt => "halt"

namespace ParseProblem

/-- The code of a problem. -/
def code : ParseProblem → ParseCode
  | lexical _ => .lexicalError
  | expectedDeclaration | unmatchedClosing => .unexpectedToken
  | expectedCommaOrParenthesis | nestedTooDeeply => .unexpectedToken
  | expectedAssignedValue => .missingValue
  | expectedArgumentBeforeComma | expectedArgumentValue => .missingValue
  | expectedParenthesis | expectedParenthesisBeforeStatement => .missingClosingParen
  | expectedParenthesisBeforeEnd => .unexpectedEndOfFile
  | positionalAfterNamed => .positionalAfterNamed
  | trailingComma => .trailingComma
  | recoveryExhausted _ => .parseTimeout

/-- The severity of a problem. -/
def severity : ParseProblem → Severity
  | trailingComma => .warning
  | recoveryExhausted _ => .critical
  | _ => .error

/-- The category of a problem. -/
def category : ParseProblem → Category
  | lexical _ => .lexical
  | recoveryExhausted _ => .performance
  | _ => .syntactic

/-- How the parser goes on behind a problem. -/
def recovery : ParseProblem → Recovery
  | lexical _ | unmatchedClosing => .skipToken
  | expectedArgumentBeforeComma | expectedArgumentValue => .skipToken
  | expectedDeclaration | expectedAssignedValue => .skipToNewline
  | expectedCommaOrParenthesis | nestedTooDeeply => .skipToClosingParen
  | expectedParenthesis | expectedParenthesisBeforeStatement => .insertMissingToken
  | expectedParenthesisBeforeEnd => .insertMissingToken
  | positionalAfterNamed | trailingComma => .continueParsing
  | recoveryExhausted _ => .halt

/-- What a problem tells the author of the script. -/
def message : ParseProblem → String
  | lexical fault => fault.message
  | expectedDeclaration => "Expected a variable declaration"
  | expectedAssignedValue => "Expected a value after the assignment"
  | unmatchedClosing => "Unmatched closing bracket"
  | expectedParenthesis => "Expected ')'"
  | expectedParenthesisBeforeStatement => "Expected ')' before the next statement"
  | expectedParenthesisBeforeEnd => "Expected ')' before the end of the file"
  | expectedArgumentBeforeComma => "Expected an argument before ','"
  | expectedArgumentValue => "Expected an argument value"
  | expectedCommaOrParenthesis => "Expected ',' or ')'"
  | positionalAfterNamed => "Positional argument after a named argument"
  | trailingComma => "Trailing comma in argument list"
  | nestedTooDeeply => "Expression is nested too deeply"
  | recoveryExhausted allowed =>
    "Parsing stopped after " ++ toString allowed ++ " recovery attempts"

end ParseProblem

/-- A problem and where it was met. -/
structure ParseError where
  problem : ParseProblem
  span : Span
deriving DecidableEq, Inhabited

end PineCheck
