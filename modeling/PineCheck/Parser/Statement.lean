import PineCheck.Parser.Expression
import PineCheck.Token.Lexer

/-!
# PineCheck — parsing scripts

A script is parsed statement by statement. A statement is a declaration, or a
line of which only the calls are kept; definitions of types are skipped, and so
are the heads of function definitions, whose bodies are parsed like any other
statements.

* `parseTokens` parses any list of tokens.
* `parse` parses a script, and `extractCalls` finds its calls without looking at
  declarations.
-/

namespace PineCheck.Parser

/-- How many errors a parse may go on behind, unless told otherwise. -/
def defaultAllowed : Nat := 10

namespace State

/-- Skips the rest of the line. -/
def skipLine (s : State) : State :=
  s.pop (lineLength s.queue)

/-- Skips the head of a type definition and the indented block below it. -/
def skipDefinition (s : State) : State :=
  let s := s.skipLine
  let breaks := (s.queue.takeWhile fun placed => placed.token = .newline).length
  -- a definition without a block ends with its line
  if startsWith (s.queue.drop breaks) .indent then
    let s := s.pop (breaks + 1)
    s.pop (blockLength 1 s.queue)
  else s

/-- Skips the head of a function definition. -/
def skipHead (s : State) : State :=
  s.pop (headLength s.queue)

end State

/-- The calls up to the end of the line, or beyond it as long as a parenthesis is
open. -/
def scanLine : Nat → Nat → State → List Call × State
  | 0, _, s => ([], s)
  | fuel + 1, depth, s =>
    if s.isHalted then ([], s)
    else match s.front? with
      | none => ([], s)
      | some token =>
        match token with
        -- nothing is recorded about brackets that are still open here
        | .endOfFile => ([], s)
        | .newline | .indent | .dedent =>
          if depth = 0 then ([], s) else scanLine fuel depth (s.pop 1)
        | .punctuation .parenLeft | .punctuation .bracketLeft =>
          scanLine fuel (depth + 1) (s.pop 1)
        | .punctuation .parenRight | .punctuation .bracketRight =>
          -- a bracket that closes nothing leaves the count at zero
          if depth = 0 then scanLine fuel 0 ((s.record .unmatchedClosing).pop 1)
          else scanLine fuel (depth - 1) (s.pop 1)
        | .identifier _ =>
          if isCallAhead s.queue then
            let (found, s) := s.callWithInner
            let (later, s) := scanLine fuel depth s
            (found ++ later, s)
          else scanLine fuel depth (s.pop 1)
        | _ => scanLine fuel depth (s.pop 1)

/-- The calls on the rest of the line. -/
def State.scanLine (s : State) : List Call × State :=
  Parser.scanLine (s.queue.length + 1) 0 s

/-- What a variable is given, and the calls that are met beside it. A value that
is only part of an expression is not kept, but a call is. -/
def assignedValue (s : State) : Option Value × List Call × State :=
  match s.front? with
  -- the branches are read as statements of their own
  | some (.keyword .ifKw) | some (.keyword .switchKw) => (none, [], s)
  | none | some .newline | some .indent | some .dedent | some .endOfFile =>
    (none, [], s.record .expectedAssignedValue)
  | some _ =>
    match s.expression .statement with
    | (some (value, false), calls, s) => (some value, calls, s)
    | (some (.call found, true), calls, s) => (none, found :: calls, s)
    | (some (_, true), calls, s) => (none, calls, s)
    | (none, calls, s) => (none, calls, (s.record .expectedAssignedValue).skipLine)

/-- A declaration, and the calls on its line that are not its value. -/
def declaration (s : State) : List Node × List Call × State :=
  let start := s.here
  let isVar := s.front? = some (.keyword .varKw) || s.front? = some (.keyword .varipKw)
  let s := if isVar then s.pop 1 else s
  match declaredType? s.queue with
  | none => ([], [], (s.record .expectedDeclaration).skipLine)
  | some type =>
    let typeName := if type = [] then none else some (textOf type)
    let s := s.pop type.length
    match s.queue with
    | ⟨.identifier name, span⟩ :: op :: _ =>
      let isReassignment := op.token ≠ .operator .assignment
      let (value, calls, s) := assignedValue (s.pop 2)
      let (others, s) := s.scanLine
      let node : Declaration :=
        { name := ⟨name, span⟩
          typeName := typeName
          isVar := isVar
          isReassignment := isReassignment
          value := value
          span := s.spanFrom start }
      ([.declaration node], calls ++ others, s)
    -- not met: `declaredType?` has seen the variable and the operator
    | _ => ([], [], s.pop 1)

/-- The nodes of the statement at the front of the queue. -/
def statement (s : State) : List Node × State :=
  let withCalls (nodes : List Node) (calls : List Call) (s : State) : List Node × State :=
    (nodes ++ calls.map .call, s)
  match s.front? with
  | none => ([], s)
  | some token =>
    match token with
    | .keyword .typeKw | .keyword .enumKw => ([], s.skipDefinition)
    | .keyword .importKw => ([], s.skipLine)
    -- what is exported is a statement of its own
    | .keyword .exportKw | .keyword .methodKw => ([], s.pop 1)
    | .keyword .varKw | .keyword .varipKw =>
      let (nodes, calls, s) := declaration s
      withCalls nodes calls s
    | .identifier _ =>
      if isDefinitionAhead s.queue then ([], s.skipHead)
      else if (declaredType? s.queue).isSome then
        let (nodes, calls, s) := declaration s
        withCalls nodes calls s
      else
        let (calls, s) := s.scanLine
        withCalls [] calls s
    | _ =>
      let (calls, s) := s.scanLine
      withCalls [] calls s

/-- The statements of a queue. -/
def statements : Nat → State → List Node × State
  | 0, s => ([], s)
  | fuel + 1, s =>
    if s.isHalted then ([], s)
    else match s.front? with
      | none | some .endOfFile => ([], s)
      | some .newline | some .indent | some .dedent => statements fuel (s.pop 1)
      | some _ =>
        let (nodes, s) := statement s
        let (others, s) := statements fuel s
        (nodes ++ others, s)

/-- The calls of a queue, with those in their arguments that are not kept there. -/
def looseCalls : Nat → State → List Call × State
  | 0, s => ([], s)
  | fuel + 1, s =>
    if s.isHalted then ([], s)
    else match s.front? with
      | none | some .endOfFile => ([], s)
      | some (.identifier _) =>
        if isDefinitionAhead s.queue then looseCalls fuel s.skipHead
        else if isCallAhead s.queue then
          let (found, s) := s.callWithInner
          let (later, s) := looseCalls fuel s
          (found ++ later, s)
        else looseCalls fuel (s.pop 1)
      | some _ => looseCalls fuel (s.pop 1)

end PineCheck.Parser

namespace PineCheck

open PineCheck.Parser

/-- The result of a parse. -/
structure Parsed where
  program : Program
  errors : List ParseError
  warnings : List ParseError
  /-- The number of tokens, comments and faults included. -/
  tokenCount : Nat
  /-- How many errors the parse has gone on behind. -/
  attempts : Nat

/-- Whether a parse has stopped before the end of the script. -/
def Parsed.isHalted (parsed : Parsed) : Bool :=
  parsed.errors.any fun error => error.problem.code = .parseTimeout

/-- Parses a list of tokens. -/
def parseTokens (tokens : List Lexed) (allowed : Nat) : Parsed :=
  let start := State.start tokens allowed
  -- every statement takes a token, so that there are no more of them
  let (nodes, s) := statements (start.queue.length + 1) start
  { program := ⟨nodes, tokens.head?.map fun first => first.span.through s.last⟩
    errors := s.errors
    warnings := s.warnings
    tokenCount := tokens.length
    attempts := s.attempts }

/-- Parses a script, going on behind at most `allowed` errors. -/
def parse (source : String) (allowed : Nat) : Parsed :=
  parseTokens (lex source) allowed

/-- The calls of a script, the outermost ones before those in their arguments
that are not kept there. -/
def extractCalls (source : String) : List Call :=
  let start := State.start (lex source) defaultAllowed
  (looseCalls (start.queue.length + 1) start).1

end PineCheck
