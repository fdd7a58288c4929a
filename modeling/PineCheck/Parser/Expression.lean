import PineCheck.Parser.Lookahead
import PineCheck.Text.Blank
import PineCheck.Tree

/-!
# PineCheck — parsing expressions and calls

Of an expression the parser keeps the first operand and every call in it. The
five functions below call each other; each takes a number of steps that it may
still go down, and `fuelFor` gives enough of them for any queue: between two
steps that take no token there are at most two others that do.

Every function returns what it has read, the calls it has met on the way and has
not put into what it has read, and the state behind it.
-/

namespace PineCheck.Parser

/-- Where an expression stands: in a statement of its own, which ends with the
line, or in an argument list. -/
inductive Setting where
  | statement
  | arguments
deriving DecidableEq, Inhabited

/-- Whether a name is a constant of the namespace `color`. -/
def isColorConstant (name : String) : Bool :=
  match Text.dropWord? "color.".toList name.toList with
  | some member => !member.contains '.'
  | none => false

/-- The literal that a token is. -/
def literalOf? : Token → Option (LiteralKind × String)
  | .number text => some (.number, text)
  | .string contents => some (.string, contents)
  | .boolean value => some (.boolean, if value then "true" else "false")
  | .color text => some (.color, text)
  | _ => none

/-- Whether a token is an operator that stands before its only operand. -/
def isUnary : Token → Bool
  | .operator .minus | .operator .plus | .keyword .notKw => true
  | _ => false

/-- Whether the parse of a bad argument stops before this token. -/
def endsArgument : Token → Bool
  | .punctuation .comma | .punctuation .parenRight => true
  | .newline | .indent | .dedent | .endOfFile => true
  | _ => false

namespace State

/-- Skips brackets and what stands between them, if they follow. -/
def skipBrackets (s : State) : State :=
  s.pop (bracketsLength 0 s.queue)

/-- Skips an index behind an operand. -/
def skipIndex (s : State) : State :=
  if s.front? = some (.punctuation .bracketLeft) then s.skipBrackets else s

/-- Skips up to and with a closing parenthesis, or up to the next statement. -/
def skipToClosing (s : State) : State :=
  s.pop (closingLength 0 s.queue)

/-- Skips marks of layout. -/
def skipLayout (s : State) : State :=
  s.pop (layoutLength s.queue)

/-- Whether the next statement interrupts an argument list here. -/
def isInterrupted (s : State) : Bool :=
  interrupts false s.queue

/-- The name of an argument, if it has one, with the `=` behind it. -/
def argumentName (s : State) : Option Identifier × State :=
  match s.queue with
  | word :: op :: _ =>
    match word.token with
    | .identifier name =>
      if op.token = .operator .assignment then (some ⟨name, word.span⟩, s.pop 2) else (none, s)
    | _ => (none, s)
  | _ => (none, s)

end State

mutual

/-- An operand, and whether it is part of a longer expression already. -/
def primary : Nat → State → Option (Value × Bool) × List Call × State
  | 0, s => (none, [], s)
  | fuel + 1, s =>
    match s.queue with
    | [] => (none, [], s)
    | front :: _ =>
      match literalOf? front.token with
      | some (kind, raw) =>
        (some (.literal ⟨kind, raw, front.span⟩, false), [], (s.pop 1).skipIndex)
      | none =>
        match front.token with
        | .identifier _ =>
          if isCallAhead s.queue then
            let (call, calls, s) := call fuel s
            (some (.call call, false), calls, s.skipIndex)
          else
            let words := (name s.queue).1
            let s := s.pop words.length
            let span := s.spanFrom front.span
            let text := textOf words
            -- constants such as `color.red` count as colors
            let value : Value :=
              if isColorConstant text then .literal ⟨.color, text, span⟩
              else .identifier ⟨text, span⟩
            (some (value, false), [], s.skipIndex)
        | .punctuation .parenLeft =>
          match s.enter with
          | (false, s) => (none, [], s)
          | (true, s) =>
            -- a group is an argument list in that its lines may be broken
            let (inner, calls, s) := expression fuel .arguments (s.pop 1)
            let s :=
              if s.front? = some (.punctuation .parenRight) then s.pop 1
              else s.record .expectedParenthesis
            let s := s.leave
            match inner with
            | some value => (some value, calls, s.skipIndex)
            | none => (none, calls, s)
        | .punctuation .bracketLeft =>
          -- an array literal is skipped whole and leaves only this name
          let s := s.skipBrackets
          (some (.identifier ⟨"[]", s.spanFrom front.span⟩, true), [], s.skipIndex)
        | token =>
          if isUnary token then
            match primary fuel (s.pop 1) with
            -- behind a sign the operand is only a part of the expression
            | (some (value, _), calls, s) => (some (value, true), calls, s.skipIndex)
            | (none, calls, s) => (none, calls, s)
          else (none, [], s)

/-- An expression: its first operand, and whether more follows. -/
def expression : Nat → Setting → State → Option (Value × Bool) × List Call × State
  | 0, _, s => (none, [], s)
  | fuel + 1, setting, s =>
    match primary fuel s with
    | (none, calls, s) => (none, calls, s)
    | (some (value, isCompound), calls, s) =>
      let (hasTail, tailCalls, s) := tail fuel setting 0 false s
      (some (value, isCompound || hasTail), calls ++ tailCalls, s)

/-- Skips the operators and operands behind the first operand, and tells whether
there were any. -/
def tail : Nat → Setting → Nat → Bool → State → Bool × List Call × State
  | 0, _, _, consumed, s => (consumed, [], s)
  | fuel + 1, setting, depth, consumed, s =>
    if s.isHalted then (consumed, [], s)
    else match s.front? with
      | none => (consumed, [], s)
      | some token =>
        match token with
        | .endOfFile => (consumed, [], s)
        | .newline | .indent | .dedent =>
          -- inside brackets a statement goes on over the end of its line
          if (setting = .statement && depth = 0) || s.isInterrupted then (consumed, [], s)
          else tail fuel setting depth consumed (s.pop 1)
        | .punctuation .parenLeft | .punctuation .bracketLeft =>
          tail fuel setting (depth + 1) true (s.pop 1)
        | .punctuation .parenRight | .punctuation .bracketRight =>
          -- it belongs to the list or group around this expression
          if depth = 0 then (consumed, [], s) else tail fuel setting (depth - 1) true (s.pop 1)
        | .punctuation .comma | .operator .assignment | .operator .arrow =>
          -- in a statement these are skipped like any other token
          if depth = 0 && setting = .arguments then (consumed, [], s)
          else tail fuel setting depth true (s.pop 1)
        | .identifier _ =>
          if isCallAhead s.queue then
            let (found, inner, s) := call fuel s
            let (consumed, later, s) := tail fuel setting depth true s
            (consumed, found :: inner ++ later, s)
          else tail fuel setting depth true (s.pop 1)
        | _ => tail fuel setting depth true (s.pop 1)

/-- The call at the front of the queue. Arguments that are nested too deeply are
skipped. -/
def call : Nat → State → Call × List Call × State
  | 0, s => (⟨"", [], s.here⟩, [], s)
  | fuel + 1, s =>
    let start := s.here
    let words := (name s.queue).1
    let s := s.pop words.length
    let s := s.pop (generics s.queue).1.length
    -- the parenthesis that `isCallAhead` has seen
    let s := s.pop 1
    match s.enter with
    | (true, s) =>
      let (arguments, calls, s) := arguments fuel false false 0 s
      let s := s.leave
      (⟨textOf words, arguments, s.spanFrom start⟩, calls, s)
    | (false, s) =>
      let s := s.skipToClosing
      (⟨textOf words, [], s.spanFrom start⟩, [], s)

/-- The arguments of a call from inside its parentheses, up to and with the
closing one. `position` arguments stand before these. -/
def arguments : Nat → Bool → Bool → Nat → State → List Argument × List Call × State
  | 0, _, _, _, s => ([], [], s)
  | fuel + 1, hasNamed, afterComma, position, s =>
    if s.isHalted then ([], [], s)
    else if s.isInterrupted then ([], [], s.record .expectedParenthesisBeforeStatement)
    else
      let s := s.skipLayout
      match s.front? with
      | none | some .endOfFile => ([], [], s.record .expectedParenthesisBeforeEnd)
      | some (.punctuation .parenRight) =>
        let s := if afterComma then s.record .trailingComma else s
        ([], [], s.pop 1)
      | some (.punctuation .comma) =>
        arguments fuel hasNamed true position
          ((s.record .expectedArgumentBeforeComma).pop 1)
      | some _ =>
        let start := s.here
        let (name, s) := s.argumentName
        let s := if name.isNone && hasNamed then s.record .positionalAfterNamed else s
        let hasNamed := hasNamed || name.isSome
        let (operand, calls, s) := expression fuel .arguments s
        let (given, s) : List Argument × State :=
          match operand with
          | some (value, isExpression) =>
            ([⟨name, value, position, isExpression, s.spanFrom start⟩], s)
          | none =>
            let s := s.record .expectedArgumentValue
            -- one token is dropped, so that the list goes on behind what cannot be read
            ([], if s.front?.any (!endsArgument ·) then s.pop 1 else s)
        -- an argument without a value has no position
        let position := position + given.length
        if s.isInterrupted then
          -- the next round records the problem and ends the list
          let (others, later, s) := arguments fuel hasNamed false position s
          (given ++ others, calls ++ later, s)
        else
          let s := s.skipLayout
          match s.front? with
          | some (.punctuation .comma) =>
            let (others, later, s) := arguments fuel hasNamed true position (s.pop 1)
            (given ++ others, calls ++ later, s)
          | none | some .endOfFile | some (.punctuation .parenRight) =>
            let (others, later, s) := arguments fuel hasNamed false position s
            (given ++ others, calls ++ later, s)
          | some _ =>
            (given, calls, (s.record .expectedCommaOrParenthesis).skipToClosing)

end

/-- Enough steps for whatever stands in a queue. -/
def fuelFor (q : Queue) : Nat :=
  2 * q.length + 8

/-- Parses the expression at the front of the queue. -/
def State.expression (s : State) (setting : Setting) : Option (Value × Bool) × List Call × State :=
  Parser.expression (fuelFor s.queue) setting s

/-- Parses the call at the front of the queue, and lists it before the calls that
are met in its arguments. -/
def State.callWithInner (s : State) : List Call × State :=
  let (found, inner, s) := Parser.call (fuelFor s.queue) s
  (found :: inner, s)

end PineCheck.Parser
