import PineCheck.Text.Position
import PineCheck.Text.Quoted

/-!
# PineCheck — tokens

The words of a script. A token is a punctuation mark, an operator, a keyword, a
name, a literal, a comment or a mark of layout; what cannot be read as a token
is a `Fault`. A `Lexed` is one reading of either kind with the span it covers.

Marks, operators and keywords are each written in one way, given by `spelling`.
-/

namespace PineCheck

/-- Marks that group and separate. -/
inductive Punctuation where
  | parenLeft | parenRight | bracketLeft | bracketRight | comma | dot | colon | question
deriving DecidableEq, Inhabited

/-- Operators, among them all that assign. -/
inductive Operator where
  | plus | minus | times | divide | modulo | assignment | less | greater
  | reassignment | equals | notEquals | lessEquals | greaterEquals | arrow
  | plusAssign | minusAssign | timesAssign | divideAssign | moduloAssign
deriving DecidableEq, Inhabited

/-- Words that cannot be names. -/
inductive Keyword where
  | ifKw | elseKw | forKw | toKw | byKw | inKw | whileKw | switchKw | varKw | varipKw
  | importKw | exportKw | asKw | typeKw | enumKw | methodKw | andKw | orKw | notKw
  | continueKw | breakKw
deriving DecidableEq, Inhabited

/-- A token of a script. -/
inductive Token where
  | punctuation (mark : Punctuation)
  | operator (op : Operator)
  | keyword (word : Keyword)
  | identifier (name : String)
  | number (text : String)
  /-- A string literal holds its contents with the escapes resolved. -/
  | string (contents : String)
  | boolean (value : Bool)
  | color (text : String)
  /-- A comment holds its text with the markers. -/
  | comment (text : String)
  | newline
  | indent
  | dedent
  | endOfFile
deriving DecidableEq, Inhabited

/-- The coarse class of a reading. -/
inductive TokenKind where
  | string | number | boolean | color | identifier | keyword | operator | punctuation
  | newline | indent | dedent | comment | endOfFile | fault
deriving DecidableEq, Inhabited

/-- Why a stretch of a script is no token. -/
inductive Fault where
  | unexpectedCharacter (c : Char)
  | unterminatedString
  | invalidColorLiteral
  | unmatchedCommentEnd
deriving DecidableEq, Inhabited

/-- What a stretch of a script reads as. -/
abbrev Reading := Except Fault Token

/-- A reading and the span it covers. -/
structure Lexed where
  reading : Reading
  span : Span

namespace Punctuation

/-- How a mark is written. -/
def spelling : Punctuation → Char
  | parenLeft => '('
  | parenRight => ')'
  | bracketLeft => '['
  | bracketRight => ']'
  | comma => ','
  | dot => '.'
  | colon => ':'
  | question => '?'

/-- What a mark is called in a listing. -/
def name : Punctuation → String
  | parenLeft => "ParenLeft"
  | parenRight => "ParenRight"
  | bracketLeft => "BracketLeft"
  | bracketRight => "BracketRight"
  | comma => "Comma"
  | dot => "Dot"
  | colon => "Colon"
  | question => "Question"

end Punctuation

namespace Operator

/-- How an operator is written. -/
def spelling : Operator → String
  | plus => "+"
  | minus => "-"
  | times => "*"
  | divide => "/"
  | modulo => "%"
  | assignment => "="
  | less => "<"
  | greater => ">"
  | reassignment => ":="
  | equals => "=="
  | notEquals => "!="
  | lessEquals => "<="
  | greaterEquals => ">="
  | arrow => "=>"
  | plusAssign => "+="
  | minusAssign => "-="
  | timesAssign => "*="
  | divideAssign => "/="
  | moduloAssign => "%="

/-- What an operator is called in a listing. -/
def name : Operator → String
  | plus => "Plus"
  | minus => "Minus"
  | times => "Times"
  | divide => "Divide"
  | modulo => "Modulo"
  | assignment => "Assignment"
  | less => "Less"
  | greater => "Greater"
  | reassignment => "Reassignment"
  | equals => "Equals"
  | notEquals => "NotEquals"
  | lessEquals => "LessEquals"
  | greaterEquals => "GreaterEquals"
  | arrow => "Arrow"
  | plusAssign => "PlusAssign"
  | minusAssign => "MinusAssign"
  | timesAssign => "TimesAssign"
  | divideAssign => "DivideAssign"
  | moduloAssign => "ModuloAssign"

end Operator

namespace Keyword

/-- Every keyword. -/
def all : List Keyword :=
  [ifKw, elseKw, forKw, toKw, byKw, inKw, whileKw, switchKw, varKw, varipKw, importKw,
   exportKw, asKw, typeKw, enumKw, methodKw, andKw, orKw, notKw, continueKw, breakKw]

/-- How a keyword is written. -/
def spelling : Keyword → String
  | ifKw => "if"
  | elseKw => "else"
  | forKw => "for"
  | toKw => "to"
  | byKw => "by"
  | inKw => "in"
  | whileKw => "while"
  | switchKw => "switch"
  | varKw => "var"
  | varipKw => "varip"
  | importKw => "import"
  | exportKw => "export"
  | asKw => "as"
  | typeKw => "type"
  | enumKw => "enum"
  | methodKw => "method"
  | andKw => "and"
  | orKw => "or"
  | notKw => "not"
  | continueKw => "continue"
  | breakKw => "break"

/-- What a keyword is called in a listing: its spelling with a capital. -/
def name (word : Keyword) : String :=
  word.spelling.capitalize

/-- The keyword that is written so. -/
def ofSpelling? (s : String) : Option Keyword :=
  all.find? fun word => word.spelling = s

end Keyword

namespace Token

/-- The coarse class of a token. -/
def kind : Token → TokenKind
  | punctuation _ => .punctuation
  | operator _ => .operator
  | keyword _ => .keyword
  | identifier _ => .identifier
  | number _ => .number
  | string _ => .string
  | boolean _ => .boolean
  | color _ => .color
  | comment _ => .comment
  | newline => .newline
  | indent => .indent
  | dedent => .dedent
  | endOfFile => .endOfFile

/-- What a token is called in a listing, without its contents. -/
def name : Token → String
  | punctuation mark => mark.name
  | operator op => op.name
  | keyword word => word.name
  | identifier _ => "Identifier"
  | number _ => "Number"
  | string _ => "StringLiteral"
  | boolean _ => "Bool"
  | color _ => "Color"
  | comment _ => "Comment"
  | newline => "Newline"
  | indent => "Indent"
  | dedent => "Dedent"
  | endOfFile => "EndOfFile"

/-- A token as a listing shows it: its name, with its contents in brackets. -/
def listing (token : Token) : String :=
  match token with
  | identifier text | number text | string text | color text | comment text =>
    token.name ++ "(" ++ Text.quoteText text ++ ")"
  | boolean value => token.name ++ (if value then "(true)" else "(false)")
  | _ => token.name

end Token

namespace TokenKind

/-- What a class is called in a table. -/
def name : TokenKind → String
  | string => "STRING"
  | number => "NUMBER"
  | boolean => "BOOLEAN"
  | color => "COLOR"
  | identifier => "IDENTIFIER"
  | keyword => "KEYWORD"
  | operator => "OPERATOR"
  | punctuation => "PUNCTUATION"
  | newline => "NEWLINE"
  | indent => "INDENT"
  | dedent => "DEDENT"
  | comment => "COMMENT"
  | endOfFile => "EOF"
  | fault => "ERROR"

end TokenKind

namespace Fault

/-- What a fault is called in a listing, without its contents. -/
def name : Fault → String
  | unexpectedCharacter _ => "UnexpectedCharacter"
  | unterminatedString => "UnterminatedString"
  | invalidColorLiteral => "InvalidColorLiteral"
  | unmatchedCommentEnd => "UnmatchedCommentEnd"

/-- What a fault tells the author of the script. -/
def message : Fault → String
  | unexpectedCharacter c => "unexpected character " ++ Text.quoteChar c
  | unterminatedString => "unterminated string"
  | invalidColorLiteral => "invalid color literal"
  | unmatchedCommentEnd => "'*/' without matching '/*'"

/-- A fault as a listing shows it. -/
def listing (fault : Fault) : String :=
  match fault with
  | unexpectedCharacter c => fault.name ++ "(" ++ Text.quoteChar c ++ ")"
  | _ => fault.name

end Fault

/-- The coarse class of a reading. -/
def Lexed.kind (lexed : Lexed) : TokenKind :=
  match lexed.reading with
  | .ok token => token.kind
  | .error _ => .fault

end PineCheck
