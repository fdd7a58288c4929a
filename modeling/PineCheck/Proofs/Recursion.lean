import Mathlib.Logic.Function.Iterate
import PineCheck.Proofs.Parsing

/-!
# PineCheck — the recursion of the parser

The functions of the parser count the steps that they may still go down. This
module takes the count out: `Parsers.next` is one step, with whatever the step
calls as a parameter. The functions with `fuel` steps are `fuel` times `next` on
top of the functions with none (`Parsers.level_eq_iterate`).

Two questions about the parser are asked on `next`, and once for all numbers of
steps: whether the recursion comes to an end whatever lies below it, and how two
parses differ that are allowed different numbers of errors.

An argument list is read in rounds. `Parsers.round` is one of them, and tells
whether another one follows.

A step does the same with other functions if they do the same where it calls them:
`Parsers.nextPrimary_congr` and its like say for each function where that is.
-/

namespace PineCheck.Parser

-- ---------------------------------------------------------------------------
-- One step
-- ---------------------------------------------------------------------------

/-- The functions that a step of the parser may call. -/
structure Parsers where
  primary : State → Option (Value × Bool) × List Call × State
  expression : Setting → State → Option (Value × Bool) × List Call × State
  tail : Setting → Nat → Bool → State → Bool × List Call × State
  call : State → Call × List Call × State
  arguments : Bool → Bool → Nat → State → List Argument × List Call × State
  scanLine : Nat → State → List Call × State
  statements : State → List Node × State

/-- Leaves a parenthesis behind the closing one, which may be missing. -/
def State.close (s : State) : State :=
  (if s.front? = some (.punctuation .parenRight) then s.pop 1
    else s.record .expectedParenthesis).leave

/-- The state behind the name, the type arguments and the parenthesis of a call. -/
def State.openCall (s : State) : State :=
  let s := s.pop (name s.queue).1.length
  let s := s.pop (generics s.queue).1.length
  s.pop 1

/-- What one round of an argument list has read. -/
structure Round where
  given : List Argument
  calls : List Call
  /-- The round behind this one, unless this is the last: whether a named argument
  stands before it, whether a comma does, and how many arguments do. -/
  next : Option (Bool × Bool × Nat)

/-- Looks for what stands behind an argument. -/
def afterArgument (given : List Argument) (calls : List Call) (hasNamed : Bool) (position : Nat)
    (s : State) : Round × State :=
  if s.isInterrupted then (⟨given, calls, some (hasNamed, false, position)⟩, s)
  else
    let s := s.skipLayout
    match s.front? with
    | some (.punctuation .comma) =>
      (⟨given, calls, some (hasNamed, true, position)⟩, s.pop 1)
    | none | some .endOfFile | some (.punctuation .parenRight) =>
      (⟨given, calls, some (hasNamed, false, position)⟩, s)
    | some _ =>
      (⟨given, calls, none⟩, (s.record .expectedCommaOrParenthesis).skipToClosing)

/-- An argument, and what stands behind it. -/
def afterOperand (name : Option Identifier) (hasNamed : Bool) (position : Nat) (start : Span) :
    Option (Value × Bool) × List Call × State → Round × State
  | (operand, calls, s) =>
    let (given, s) := given name position start operand s
    afterArgument given calls (hasNamed || name.isSome) (position + given.length) s

/-- An operand in parentheses. -/
def closed : Option (Value × Bool) × List Call × State → Option (Value × Bool) × List Call × State
  | (inner, calls, s) =>
    match inner with
    | some value => (some value, calls, s.close.skipIndex)
    | none => (none, calls, s.close)

/-- An operand behind an operator. -/
def signed : Option (Value × Bool) × List Call × State → Option (Value × Bool) × List Call × State
  | (some (value, _), calls, s) => (some (value, true), calls, s.skipIndex)
  | (none, calls, s) => (none, calls, s)

namespace Parsers

variable (p : Parsers)

/-- An operand. -/
def nextPrimary (s : State) : Option (Value × Bool) × List Call × State :=
  match s.queue with
  | [] => (none, [], s)
  | front :: _ =>
    match literalOf? front.token with
    | some (kind, raw) =>
      (some (.literal ⟨kind, raw, front.span⟩, false), [], (s.pop 1).skipIndex)
    | none =>
      match front.token with
      | .identifier _ =>
        if isCallAhead s.queue then
          let (call, calls, s) := p.call s
          (some (.call call, false), calls, s.skipIndex)
        else
          let words := (name s.queue).1
          let s := s.pop words.length
          let span := s.spanFrom front.span
          let text := textOf words
          let value : Value :=
            if isColorConstant text then .literal ⟨.color, text, span⟩
            else .identifier ⟨text, span⟩
          (some (value, false), [], s.skipIndex)
      | .punctuation .parenLeft =>
        match s.enter with
        | (false, s) => (none, [], s)
        | (true, s) => closed (p.expression .arguments (s.pop 1))
      | .punctuation .bracketLeft =>
        let s := s.skipBrackets
        (some (.identifier ⟨"[]", s.spanFrom front.span⟩, true), [], s.skipIndex)
      | token =>
        if isUnary token then signed (p.primary (s.pop 1)) else (none, [], s)

/-- An operand, and what stands behind it. -/
def withTail (setting : Setting) :
    Option (Value × Bool) × List Call × State → Option (Value × Bool) × List Call × State
  | (none, calls, s) => (none, calls, s)
  | (some (value, isCompound), calls, s) =>
    let (hasTail, tailCalls, s) := p.tail setting 0 false s
    (some (value, isCompound || hasTail), calls ++ tailCalls, s)

/-- An expression. -/
def nextExpression (setting : Setting) (s : State) : Option (Value × Bool) × List Call × State :=
  p.withTail setting (p.primary s)

/-- What stands behind the first operand of an expression. -/
def nextTail (setting : Setting) (depth : Nat) (consumed : Bool) (s : State) :
    Bool × List Call × State :=
  if s.isHalted then (consumed, [], s)
  else match s.front? with
    | none => (consumed, [], s)
    | some token =>
      match token with
      | .endOfFile => (consumed, [], s)
      | .newline | .indent | .dedent =>
        if (setting = .statement && depth = 0) || s.isInterrupted then (consumed, [], s)
        else p.tail setting depth consumed (s.pop 1)
      | .punctuation .parenLeft | .punctuation .bracketLeft =>
        p.tail setting (depth + 1) true (s.pop 1)
      | .punctuation .parenRight | .punctuation .bracketRight =>
        if depth = 0 then (consumed, [], s) else p.tail setting (depth - 1) true (s.pop 1)
      | .punctuation .comma | .operator .assignment | .operator .arrow =>
        if depth = 0 && setting = .arguments then (consumed, [], s)
        else p.tail setting depth true (s.pop 1)
      | .identifier _ =>
        if isCallAhead s.queue then
          let (found, inner, s) := p.call s
          let (consumed, later, s) := p.tail setting depth true s
          (consumed, found :: inner ++ later, s)
        else p.tail setting depth true (s.pop 1)
      | _ => p.tail setting depth true (s.pop 1)

/-- A call. -/
def nextCall (s : State) : Call × List Call × State :=
  let text := textOf (name s.queue).1
  match s.openCall.enter with
  | (true, inside) =>
    let (arguments, calls, behind) := p.arguments false false 0 inside
    (⟨text, arguments, behind.leave.spanFrom s.here⟩, calls, behind.leave)
  | (false, inside) =>
    (⟨text, [], inside.skipToClosing.spanFrom s.here⟩, [], inside.skipToClosing)

/-- One argument, and what stands behind it. -/
def argument (hasNamed : Bool) (position : Nat) (s : State) : Round × State :=
  let start := s.here
  let (name, s) := s.argumentName
  let s := if name.isNone && hasNamed then s.record .positionalAfterNamed else s
  afterOperand name hasNamed position start (p.expression .arguments s)

/-- One round of an argument list. -/
def round (hasNamed afterComma : Bool) (position : Nat) (s : State) : Round × State :=
  if s.isHalted then (⟨[], [], none⟩, s)
  else if s.isInterrupted then
    (⟨[], [], none⟩, s.record .expectedParenthesisBeforeStatement)
  else
    let s := s.skipLayout
    match s.front? with
    | none | some .endOfFile => (⟨[], [], none⟩, s.record .expectedParenthesisBeforeEnd)
    | some (.punctuation .parenRight) =>
      let s := if afterComma then s.record .trailingComma else s
      (⟨[], [], none⟩, s.pop 1)
    | some (.punctuation .comma) =>
      (⟨[], [], some (hasNamed, true, position)⟩,
        (s.record .expectedArgumentBeforeComma).pop 1)
    | some _ => p.argument hasNamed position s

/-- Goes on behind a round, unless it is the last one. -/
def goOn : Round × State → List Argument × List Call × State
  | (⟨given, calls, none⟩, s) => (given, calls, s)
  | (⟨given, calls, some (hasNamed, afterComma, position)⟩, s) =>
    let (others, later, s) := p.arguments hasNamed afterComma position s
    (given ++ others, calls ++ later, s)

/-- An argument list: a round, and the rounds behind it. -/
def nextArguments (hasNamed afterComma : Bool) (position : Nat) (s : State) :
    List Argument × List Call × State :=
  p.goOn (p.round hasNamed afterComma position s)

/-- The calls on a line. -/
def nextScanLine (depth : Nat) (s : State) : List Call × State :=
  if s.isHalted then ([], s)
  else match s.front? with
    | none => ([], s)
    | some token =>
      match token with
      | .endOfFile => ([], s)
      | .newline | .indent | .dedent =>
        if depth = 0 then ([], s) else p.scanLine depth (s.pop 1)
      | .punctuation .parenLeft | .punctuation .bracketLeft =>
        p.scanLine (depth + 1) (s.pop 1)
      | .punctuation .parenRight | .punctuation .bracketRight =>
        if depth = 0 then p.scanLine 0 ((s.record .unmatchedClosing).pop 1)
        else p.scanLine (depth - 1) (s.pop 1)
      | .identifier _ =>
        if isCallAhead s.queue then
          let (found, s) := s.callWithInner
          let (later, s) := p.scanLine depth s
          (found ++ later, s)
        else p.scanLine depth (s.pop 1)
      | _ => p.scanLine depth (s.pop 1)

/-- The statements of a queue. -/
def nextStatements (s : State) : List Node × State :=
  if s.isHalted then ([], s)
  else match s.front? with
    | none | some .endOfFile => ([], s)
    | some .newline | some .indent | some .dedent => p.statements (s.pop 1)
    | some _ =>
      let (nodes, s) := statement s
      let (others, s) := p.statements s
      (nodes ++ others, s)

/-- One step of every function. -/
def next : Parsers where
  primary := p.nextPrimary
  expression := p.nextExpression
  tail := p.nextTail
  call := p.nextCall
  arguments := p.nextArguments
  scanLine := p.nextScanLine
  statements := p.nextStatements

-- ---------------------------------------------------------------------------
-- Steps that call the same
-- ---------------------------------------------------------------------------

section
variable {p} {q : Parsers} {s : State}

/-- What an operand is depends on a call, on what stands in parentheses, and on the operand
behind an operator, each only where it is read. -/
theorem nextPrimary_congr (hcall : p.call s = q.call s)
    (hclosed : ∀ inside, s.front? = some (.punctuation .parenLeft) → s.enter = (true, inside) →
      p.expression .arguments (inside.pop 1) = q.expression .arguments (inside.pop 1))
    (hsigned : ∀ front rest, s.queue = front :: rest → isUnary front.token = true →
      p.primary (s.pop 1) = q.primary (s.pop 1)) :
    p.nextPrimary s = q.nextPrimary s := by
  unfold nextPrimary
  rw [hcall]
  split
  · rfl
  · next front rest hqueue =>
    split
    · rfl
    · split
      · rfl
      -- an operand in parentheses
      · next hparen =>
        have hfront : s.front? = some (.punctuation .parenLeft) := by
          rw [State.front?, hqueue]
          exact congrArg some hparen
        rcases henter : s.enter with ⟨entered, inside⟩
        cases entered with
        | false => rfl
        | true =>
          show closed _ = closed _
          rw [hclosed inside hfront henter]
      · rfl
      -- an operand behind an operator
      · split
        · next hunary => rw [hsigned front rest hqueue hunary]
        · rfl

theorem nextExpression_congr {setting : Setting} (hprimary : p.primary s = q.primary s)
    (htail : p.tail setting 0 false (q.primary s).2.2 =
      q.tail setting 0 false (q.primary s).2.2) :
    p.nextExpression setting s = q.nextExpression setting s := by
  unfold nextExpression
  rw [hprimary]
  rcases hread : q.primary s with ⟨operand, calls, s'⟩
  rw [hread] at htail
  cases operand with
  | none => rfl
  | some => rw [withTail, withTail, htail]

theorem nextTail_congr {setting : Setting} (hcall : p.call s = q.call s)
    (hgo : ∀ depth consumed,
      p.tail setting depth consumed (s.pop 1) = q.tail setting depth consumed (s.pop 1))
    (hlater : ∀ depth, p.tail setting depth true (q.call s).2.2 =
      q.tail setting depth true (q.call s).2.2) (depth : Nat) (consumed : Bool) :
    p.nextTail setting depth consumed s = q.nextTail setting depth consumed s := by
  unfold nextTail
  rw [hcall]
  rcases hread : q.call s with ⟨found, inner, s'⟩
  rw [hread] at hlater
  simp only [hgo, hlater]

/-- A round depends on the expression of its argument only. -/
theorem round_congr {hasNamed : Bool}
    (hexpression : p.expression .arguments
        (if s.skipLayout.argumentName.1.isNone && hasNamed then
          s.skipLayout.argumentName.2.record .positionalAfterNamed
        else s.skipLayout.argumentName.2) =
      q.expression .arguments
        (if s.skipLayout.argumentName.1.isNone && hasNamed then
          s.skipLayout.argumentName.2.record .positionalAfterNamed
        else s.skipLayout.argumentName.2)) (afterComma : Bool) (position : Nat) :
    p.round hasNamed afterComma position s = q.round hasNamed afterComma position s := by
  have hargument : p.argument hasNamed position s.skipLayout =
      q.argument hasNamed position s.skipLayout := by
    unfold argument
    dsimp only
    rw [hexpression]
  unfold round
  dsimp only
  rw [hargument]

theorem nextArguments_congr {hasNamed afterComma : Bool} {position : Nat}
    (hround : p.round hasNamed afterComma position s = q.round hasNamed afterComma position s)
    (hothers : ∀ hasNamed' afterComma' position',
      p.arguments hasNamed' afterComma' position' (q.round hasNamed afterComma position s).2 =
        q.arguments hasNamed' afterComma' position' (q.round hasNamed afterComma position s).2) :
    p.nextArguments hasNamed afterComma position s =
      q.nextArguments hasNamed afterComma position s := by
  unfold nextArguments
  rw [hround]
  rcases hread : q.round hasNamed afterComma position s with ⟨⟨given, calls, next⟩, s'⟩
  rw [hread] at hothers
  cases next with
  | none => rfl
  | some next => rw [goOn, goOn, hothers]

end

-- ---------------------------------------------------------------------------
-- The functions of the parser
-- ---------------------------------------------------------------------------

/-- The functions of the parser with `fuel` steps. -/
def level (fuel : Nat) : Parsers where
  primary := Parser.primary fuel
  expression := Parser.expression fuel
  tail := Parser.tail fuel
  call := Parser.call fuel
  arguments := Parser.arguments fuel
  scanLine := Parser.scanLine fuel
  statements := Parser.statements fuel

/-- Going on behind an argument, written out: a statement in the way and every mark that may follow.
-/
theorem goOn_afterArgument (fuel : Nat) (given : List Argument) (calls : List Call)
    (hasNamed : Bool) (position : Nat) (s : State) :
    (level fuel).goOn (afterArgument given calls hasNamed position s) =
      if s.isInterrupted then
        let (others, later, s) := Parser.arguments fuel hasNamed false position s
        (given ++ others, calls ++ later, s)
      else
        let s := s.skipLayout
        match s.front? with
        | some (.punctuation .comma) =>
          let (others, later, s) := Parser.arguments fuel hasNamed true position (s.pop 1)
          (given ++ others, calls ++ later, s)
        | none | some .endOfFile | some (.punctuation .parenRight) =>
          let (others, later, s) := Parser.arguments fuel hasNamed false position s
          (given ++ others, calls ++ later, s)
        | some _ =>
          (given, calls, (s.record .expectedCommaOrParenthesis).skipToClosing) := by
  rw [afterArgument]
  split
  · rfl
  · dsimp only
    generalize s.skipLayout = s
    generalize s.front? = front
    split <;> rfl

/-- A list of arguments is read by rounds. -/
theorem arguments_succ (fuel : Nat) (hasNamed afterComma : Bool) (position : Nat) (s : State) :
    Parser.arguments (fuel + 1) hasNamed afterComma position s =
      (level fuel).nextArguments hasNamed afterComma position s := by
  rw [Parser.arguments, nextArguments, round]
  split
  · rfl
  split
  · rfl
  dsimp only
  generalize s.skipLayout = s
  generalize s.front? = front
  split
  · rfl
  · rfl
  · rfl
  · rfl
  · trans (level fuel).goOn ((level fuel).argument hasNamed position s)
    · exact (goOn_afterArgument ..).symm
    · refine congrArg (level fuel).goOn ?_
      simp_all

/-- Every level of the parser is one step on top of the level below. -/
theorem level_succ (fuel : Nat) : level (fuel + 1) = (level fuel).next := by
  have hprimary (s : State) : Parser.primary (fuel + 1) s = (level fuel).nextPrimary s := by
    rw [Parser.primary]
    rfl
  have hexpression (setting : Setting) (s : State) :
      Parser.expression (fuel + 1) setting s = (level fuel).nextExpression setting s := by
    rw [Parser.expression]
    rfl
  have htail (setting : Setting) (depth : Nat) (consumed : Bool) (s : State) :
      Parser.tail (fuel + 1) setting depth consumed s =
        (level fuel).nextTail setting depth consumed s := by
    rw [Parser.tail]
    rfl
  have hcall (s : State) : Parser.call (fuel + 1) s = (level fuel).nextCall s := by
    rw [Parser.call]
    rfl
  have hscanLine (depth : Nat) (s : State) :
      Parser.scanLine (fuel + 1) depth s = (level fuel).nextScanLine depth s := by
    rw [Parser.scanLine]
    rfl
  have hstatements (s : State) :
      Parser.statements (fuel + 1) s = (level fuel).nextStatements s := by
    rw [Parser.statements]
    rfl
  rw [level, next, Parsers.mk.injEq]
  exact ⟨funext hprimary, funext₂ hexpression,
    funext₂ fun setting depth => funext₂ (htail setting depth), funext hcall,
    funext₂ fun hasNamed afterComma => funext₂ (arguments_succ fuel hasNamed afterComma),
    funext₂ hscanLine, funext hstatements⟩

/-- The functions with `fuel` steps are made of `fuel` steps. -/
theorem level_eq_iterate (fuel : Nat) : level fuel = next^[fuel] (level 0) := by
  induction fuel with
  | zero => rfl
  | succ fuel ih => rw [level_succ, ih, Function.iterate_succ_apply']

end Parsers
end PineCheck.Parser
