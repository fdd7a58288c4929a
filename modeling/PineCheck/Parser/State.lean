import PineCheck.Diagnostic.ParseError

/-!
# PineCheck — the state of a parse

A parse works through a queue of tokens, without comments and faults. It keeps
the span of the last token that it has taken, the problems it has met, and how
many of them it has gone on behind. When these are more than allowed, the parse
halts: it adds one last problem and records no more.
-/

namespace PineCheck.Parser

/-- A token and its span. -/
structure Placed where
  token : Token
  span : Span
deriving DecidableEq, Inhabited

/-- The tokens that are still to be parsed. -/
abbrev Queue := List Placed

/-- The state of a parse. -/
structure State where
  queue : Queue
  /-- The span of the last token that was taken. -/
  last : Span
  errors : List ParseError
  warnings : List ParseError
  /-- How many errors the parse has gone on behind. -/
  attempts : Nat
  /-- How many errors the parse may go on behind. -/
  allowed : Nat
  isHalted : Bool
  /-- How many parentheses the parse is inside of. -/
  depth : Nat

namespace State

/-- The token at the front of the queue. -/
def front? (s : State) : Option Token :=
  s.queue.head?.map Placed.token

/-- Takes `n` tokens off the queue. -/
def pop (s : State) (n : Nat) : State :=
  { s with
    queue := s.queue.drop n
    -- if nothing was taken, the last token stays what it was
    last := ((s.queue.take n).getLast?.map Placed.span).getD s.last }

/-- Where the next token stands. -/
def here (s : State) : Span :=
  (s.queue.head?.map Placed.span).getD s.last

/-- The span from `start` to the end of the last token that was taken. -/
def spanFrom (s : State) (start : Span) : Span :=
  start.through s.last

/-- Records a problem at the next token. A warning costs nothing; every other
problem counts as one attempt to recover. -/
def record (s : State) (problem : ParseProblem) : State :=
  -- a parse that has halted unwinds through its callers, who find more problems on the way
  if s.isHalted then s
  else if problem.severity = .warning then
    { s with warnings := s.warnings ++ [⟨problem, s.here⟩] }
  else
    let attempts := s.attempts + 1
    let errors := s.errors ++ [⟨problem, s.here⟩]
    if s.allowed < attempts then
      { s with
        -- the error that halts the parse stands behind the one that was too many
        errors := errors ++ [⟨.recoveryExhausted s.allowed, s.here⟩]
        attempts := attempts
        isHalted := true }
    else { s with errors := errors, attempts := attempts }

/-- How deep parentheses may be nested. -/
def maxDepth : Nat := 127

/-- Enters a parenthesis, unless that is nested too deeply. -/
def enter (s : State) : Bool × State :=
  if maxDepth ≤ s.depth then (false, s.record .nestedTooDeeply)
  else (true, { s with depth := s.depth + 1 })

/-- Leaves a parenthesis. -/
def leave (s : State) : State :=
  { s with depth := s.depth - 1 }

/-- The tokens that a parse works through: all but comments and faults. -/
def kept (tokens : List Lexed) : Queue :=
  tokens.filterMap fun lexed =>
    match lexed.reading with
    | .ok (.comment _) => none
    | .ok token => some ⟨token, lexed.span⟩
    | .error _ => none

/-- The faults among tokens, as problems. -/
def lexicalErrors (tokens : List Lexed) : List ParseError :=
  tokens.filterMap fun lexed =>
    match lexed.reading with
    | .ok _ => none
    | .error fault => some ⟨.lexical fault, lexed.span⟩

/-- The start of a parse. -/
def start (tokens : List Lexed) (allowed : Nat) : State where
  queue := kept tokens
  -- spans that end before any token was taken end at the first one
  last := (tokens.head?.map Lexed.span).getD ⟨0, 0, 1, 0⟩
  errors := lexicalErrors tokens
  warnings := []
  attempts := 0
  allowed := allowed
  isHalted := false
  depth := 0

end State

end PineCheck.Parser
