import PineCheck.Proofs.LineEndings
import PineCheck.Proofs.Outline

/-!
# PineCheck — two parses side by side

Parallel states are parsed to trees that are the same on every line, and to parallel
states. `Parsers.Respects` says this of the functions that read expressions and calls;
one step keeps it (`Parsers.Respects.next`), so any number of steps has it. Lines and
statements follow, and then whole scripts.

Main results:

* `Parsers.level_respects` — the functions that read expressions and calls do not tell
  parallel states apart.
* `statements_accord` — neither do those that read statements.
* `parseTokens_onLine` — tokens that say the same on the same lines, and in the same columns
  unless they are line breaks, are parsed alike.
* `parse_withReturns` — a carriage return before every line break makes no difference to the
  tokens of a script and to its tree, errors, warnings and counts, but for the texts of
  comments and the columns of line breaks.
-/

namespace PineCheck.Parser

-- ---------------------------------------------------------------------------
-- Results
-- ---------------------------------------------------------------------------

/-- Two results are the same in what `f` keeps of them, and leave parallel states. -/
structure Accord {α β : Type} (f : α → β) (r r' : α × State) : Prop where
  value : f r'.1 = f r.1
  state : Parallel r.2 r'.2

/-- `Accord` for results with calls beside them, which are the same on their lines. -/
structure AccordWithCalls {α β : Type} (f : α → β) (r r' : α × List Call × State) : Prop where
  value : f r'.1 = f r.1
  calls : r'.2.1.map Call.onLine = r.2.1.map Call.onLine
  state : Parallel r.2.2 r'.2.2

/-- Two lists that agree up to a function in both parts agree up to it as a whole. -/
theorem map_append_congr {α β : Type} {f : α → β} {a a' b b' : List α} (h : a'.map f = a.map f)
    (h' : b'.map f = b.map f) : (a' ++ b').map f = (a ++ b).map f := by
  rw [List.map_append, h, h', List.map_append]

/-- An operand on its lines. -/
def operandOnLine : Option (Value × Bool) → Option (Value × Bool) :=
  Option.map fun operand => (operand.1.onLine, operand.2)

/-- A round of an argument list on its lines. -/
def Round.onLine (round : Round) : Round :=
  ⟨round.given.map Argument.onLine, round.calls.map Call.onLine, round.next⟩

/-- The functions that read expressions and calls do not tell parallel states apart. -/
structure Parsers.Respects (p : Parsers) : Prop where
  primary : ∀ {s t}, Parallel s t → AccordWithCalls operandOnLine (p.primary s) (p.primary t)
  expression : ∀ setting {s t}, Parallel s t →
    AccordWithCalls operandOnLine (p.expression setting s) (p.expression setting t)
  tail : ∀ setting depth consumed {s t}, Parallel s t →
    AccordWithCalls id (p.tail setting depth consumed s) (p.tail setting depth consumed t)
  call : ∀ {s t}, Parallel s t → AccordWithCalls Call.onLine (p.call s) (p.call t)
  arguments : ∀ hasNamed afterComma position {s t}, Parallel s t →
    AccordWithCalls (List.map Argument.onLine) (p.arguments hasNamed afterComma position s)
      (p.arguments hasNamed afterComma position t)

-- ---------------------------------------------------------------------------
-- Expressions
-- ---------------------------------------------------------------------------

/-- Operands that are the same on their lines are both there or both missing. -/
theorem operand_cases {operand operand' : Option (Value × Bool)}
    (h : operandOnLine operand' = operandOnLine operand) :
    (operand = none ∧ operand' = none) ∨
      ∃ value value' isCompound, operand = some (value, isCompound) ∧
        operand' = some (value', isCompound) ∧ value'.onLine = value.onLine := by
  unfold operandOnLine at h
  cases operand with
  | none =>
    rw [Option.map_none, Option.map_eq_none_iff] at h
    exact Or.inl ⟨rfl, h⟩
  | some operand =>
    obtain ⟨⟨value', isCompound'⟩, rfl, hsame⟩ := Option.map_eq_some_iff.mp h
    obtain ⟨hvalue, rfl⟩ := Prod.mk.inj hsame
    exact Or.inr ⟨operand.1, value', operand.2, rfl, rfl, hvalue⟩

section Operands

variable {r r' : Option (Value × Bool) × List Call × State}

/-- Parallel parses end a parenthesised expression alike. -/
theorem closed_accord (h : AccordWithCalls operandOnLine r r') :
    AccordWithCalls operandOnLine (closed r) (closed r') := by
  obtain ⟨operand, calls, s⟩ := r
  obtain ⟨operand', calls', t⟩ := r'
  rcases operand_cases h.value with ⟨rfl, rfl⟩ | ⟨value, value', isCompound, rfl, rfl, -⟩
  · exact ⟨rfl, h.calls, h.state.close⟩
  · exact ⟨h.value, h.calls, h.state.close.skipIndex⟩

/-- Parallel parses read the sign before an operand alike. -/
theorem signed_accord (h : AccordWithCalls operandOnLine r r') :
    AccordWithCalls operandOnLine (signed r) (signed r') := by
  obtain ⟨operand, calls, s⟩ := r
  obtain ⟨operand', calls', t⟩ := r'
  rcases operand_cases h.value with ⟨rfl, rfl⟩ | ⟨value, value', isCompound, rfl, rfl, hvalue⟩
  · exact ⟨rfl, h.calls, h.state⟩
  · exact ⟨congrArg (fun value => some (value, true)) hvalue, h.calls, h.state.skipIndex⟩

end Operands

section Steps

variable {p : Parsers} {s t : State}

/-- Parallel parses take a step of an operand alike. -/
theorem nextPrimary_accord (hp : p.Respects) (h : Parallel s t) :
    AccordWithCalls operandOnLine (p.nextPrimary s) (p.nextPrimary t) := by
  simp only [Parsers.nextPrimary, h.isCallAhead, h.name]
  rcases hs : s.queue with _ | ⟨front, rest⟩
  · rw [h.queue_nil hs]
    exact ⟨rfl, rfl, h⟩
  obtain ⟨front', rest', ht, htoken, hline, -⟩ := h.queue_cons hs
  rw [ht]
  dsimp only
  rw [htoken]
  split
  · -- a literal
    next kind raw hliteral =>
    have hvalue : (Value.literal ⟨kind, raw, front'.span⟩).onLine =
        (Value.literal ⟨kind, raw, front.span⟩).onLine := by
      rw [Value.onLine, Value.onLine, Literal.onLine, Literal.onLine, hline]
    exact ⟨congrArg (fun value => some (value, false)) hvalue, rfl, (h.pop 1).skipIndex⟩
  split
  · -- a call or a name
    split
    · have hcall := hp.call h
      have hvalue : (Value.call (p.call t).1).onLine = (Value.call (p.call s).1).onLine := by
        rw [Value.onLine, Value.onLine, hcall.value]
      exact ⟨congrArg (fun value => some (value, false)) hvalue, hcall.calls,
        hcall.state.skipIndex⟩
    · refine ⟨congrArg (fun value => some (value, false)) ?_, rfl, (h.pop _).skipIndex⟩
      split
      · rw [Value.onLine, Value.onLine, Literal.onLine, Literal.onLine, State.onLine_spanFrom,
          State.onLine_spanFrom, hline]
      · rw [Value.onLine, Value.onLine, Identifier.onLine, Identifier.onLine,
          State.onLine_spanFrom, State.onLine_spanFrom, hline]
  · -- an operand in parentheses, unless they are nested too deeply
    obtain ⟨hentered, hinside⟩ := h.enter
    rcases hs' : s.enter with ⟨entered, inside⟩
    rcases ht' : t.enter with ⟨entered', inside'⟩
    rw [hs', ht'] at hentered hinside
    cases hentered
    cases entered with
    | false => exact ⟨rfl, rfl, hinside⟩
    | true => exact closed_accord (hp.expression .arguments (hinside.pop 1))
  -- an array literal, of which only the span is kept
  · have hvalue : (Value.identifier ⟨"[]", t.skipBrackets.spanFrom front'.span⟩).onLine =
        (Value.identifier ⟨"[]", s.skipBrackets.spanFrom front.span⟩).onLine := by
      rw [Value.onLine, Value.onLine, Identifier.onLine, Identifier.onLine,
        State.onLine_spanFrom, State.onLine_spanFrom, hline]
    exact ⟨congrArg (fun value => some (value, true)) hvalue, rfl, h.skipBrackets.skipIndex⟩
  -- a sign before an operand, or nothing that an expression starts with
  · split
    · exact signed_accord (hp.primary (h.pop 1))
    · exact ⟨rfl, rfl, h⟩

/-- Parallel parses take a step of an expression alike. -/
theorem nextExpression_accord (hp : p.Respects) (setting : Setting) (h : Parallel s t) :
    AccordWithCalls operandOnLine (p.nextExpression setting s) (p.nextExpression setting t) := by
  have hoperand := hp.primary h
  unfold Parsers.nextExpression
  generalize p.primary s = r at hoperand ⊢
  generalize p.primary t = r' at hoperand ⊢
  obtain ⟨operand, calls, s'⟩ := r
  obtain ⟨operand', calls', t'⟩ := r'
  rcases operand_cases hoperand.value with
    ⟨rfl, rfl⟩ | ⟨value, value', isCompound, rfl, rfl, hvalue⟩
  · exact hoperand
  · have htail := hp.tail setting 0 false hoperand.state
    have hboth : (p.tail setting 0 false t').1 = (p.tail setting 0 false s').1 := htail.value
    refine ⟨?_, map_append_congr hoperand.calls htail.calls, htail.state⟩
    show some (value'.onLine, isCompound || (p.tail setting 0 false t').1) = _
    rw [hvalue, hboth]
    rfl

/-- Parallel parses take a step of a tail alike. -/
theorem nextTail_accord (hp : p.Respects) (setting : Setting) (depth : Nat) (consumed : Bool)
    (h : Parallel s t) :
    AccordWithCalls id (p.nextTail setting depth consumed s)
      (p.nextTail setting depth consumed t) := by
  have hstop : AccordWithCalls id (consumed, [], s) (consumed, [], t) := ⟨rfl, rfl, h⟩
  have hgo (depth : Nat) (consumed : Bool) :
      AccordWithCalls id (p.tail setting depth consumed (s.pop 1))
        (p.tail setting depth consumed (t.pop 1)) :=
    hp.tail setting depth consumed (h.pop 1)
  simp only [Parsers.nextTail, h.isHalted, h.front?, h.isInterrupted, h.isCallAhead]
  split
  · exact hstop
  split
  · exact hstop
  split
  case h_1 => exact hstop
  case h_2 | h_3 | h_4 | h_7 | h_8 | h_9 | h_10 | h_11 =>
    split
    · exact hstop
    · exact hgo _ _
  case h_5 | h_6 | h_13 => exact hgo _ _
  case h_12 =>
    split
    · have hcall := hp.call h
      have hrest := hp.tail setting depth true hcall.state
      have hinner := congrArg₂ List.cons hcall.value hcall.calls
      exact ⟨hrest.value, map_append_congr (a := _ :: _) hinner hrest.calls, hrest.state⟩
    · exact hgo _ _

/-- Parallel parses take a step of a call alike. -/
theorem nextCall_accord (hp : p.Respects) (h : Parallel s t) :
    AccordWithCalls Call.onLine (p.nextCall s) (p.nextCall t) := by
  obtain ⟨hentered, hinside⟩ := h.openCall.enter
  -- the call starts at the name and ends on the line where its arguments do
  have hcall (given given' : List Argument) (behind behind' : State)
      (hgiven : given'.map Argument.onLine = given.map Argument.onLine) :
      (Call.mk (textOf (name t.queue).1) given' (behind'.spanFrom t.here)).onLine =
        (Call.mk (textOf (name s.queue).1) given (behind.spanFrom s.here)).onLine := by
    rw [Call.onLine, Call.onLine, Argument.allOnLine_eq_map, Argument.allOnLine_eq_map, hgiven,
      h.name.2, State.onLine_spanFrom, State.onLine_spanFrom, h.here]
  unfold Parsers.nextCall
  rcases hs : s.openCall.enter with ⟨entered, inside⟩
  rcases ht : t.openCall.enter with ⟨entered', inside'⟩
  rw [hs, ht] at hentered hinside
  cases hentered
  cases entered with
  | false => exact ⟨hcall _ _ _ _ rfl, rfl, hinside.skipToClosing⟩
  | true =>
    have hread := hp.arguments false false 0 hinside
    exact ⟨hcall _ _ _ _ hread.value, hread.calls, hread.state.leave⟩

-- ---------------------------------------------------------------------------
-- Argument lists
-- ---------------------------------------------------------------------------

/-- Parallel parses go on alike behind an argument. -/
theorem afterArgument_accord (h : Parallel s t) {given given' : List Argument}
    {calls calls' : List Call} (hgiven : given'.map Argument.onLine = given.map Argument.onLine)
    (hcalls : calls'.map Call.onLine = calls.map Call.onLine) (hasNamed : Bool)
    (position : Nat) :
    Accord Round.onLine (afterArgument given calls hasNamed position s)
      (afterArgument given' calls' hasNamed position t) := by
  have hround (next : Option (Bool × Bool × Nat)) :
      Round.onLine ⟨given', calls', next⟩ = Round.onLine ⟨given, calls, next⟩ := by
    rw [Round.onLine, Round.onLine, hgiven, hcalls]
  simp only [afterArgument, h.isInterrupted, h.skipLayout.front?]
  split
  · exact ⟨hround _, h⟩
  split
  · exact ⟨hround _, h.skipLayout.pop 1⟩
  · exact ⟨hround _, h.skipLayout⟩
  · exact ⟨hround _, h.skipLayout⟩
  · exact ⟨hround _, h.skipLayout⟩
  · exact ⟨hround _, (h.skipLayout.record _).skipToClosing⟩

/-- Parallel parses give an argument alike, or record alike that there is none. -/
theorem given_accord (h : Parallel s t) {name name' : Option Identifier}
    {operand operand' : Option (Value × Bool)} {start start' : Span} (position : Nat)
    (hname : name'.map Identifier.onLine = name.map Identifier.onLine)
    (hstart : start'.onLine = start.onLine)
    (hoperand : operandOnLine operand' = operandOnLine operand) :
    Accord (List.map Argument.onLine) (given name position start operand s)
      (given name' position start' operand' t) := by
  rcases operand_cases hoperand with ⟨rfl, rfl⟩ | ⟨value, value', isCompound, rfl, rfl, hvalue⟩
  · -- an argument without a value is left out
    have hrecord := h.record .expectedArgumentValue
    unfold given
    dsimp only
    rw [hrecord.front?]
    exact ⟨rfl, (hrecord.pop 1).ite hrecord⟩
  · have hargument : (Argument.mk name' value' position isCompound (t.spanFrom start')).onLine =
        (Argument.mk name value position isCompound (s.spanFrom start)).onLine := by
      rw [Argument.onLine, Argument.onLine, hname, hvalue, State.onLine_spanFrom,
        State.onLine_spanFrom, hstart]
    exact ⟨congrArg (fun argument => [argument]) hargument, h⟩

/-- Parallel parses go on alike behind the operand of an argument. -/
theorem afterOperand_accord {r r' : Option (Value × Bool) × List Call × State}
    (h : AccordWithCalls operandOnLine r r') {name name' : Option Identifier}
    {start start' : Span} (hasNamed : Bool) (position : Nat)
    (hname : name'.map Identifier.onLine = name.map Identifier.onLine)
    (hstart : start'.onLine = start.onLine) :
    Accord Round.onLine (afterOperand name hasNamed position start r)
      (afterOperand name' hasNamed position start' r') := by
  have hgiven := given_accord h.state position hname hstart h.value
  have hlength := congrArg List.length hgiven.value
  -- both arguments are named, or neither is
  have hsome : name'.isSome = name.isSome := by
    have hsome := congrArg Option.isSome hname
    rwa [Option.isSome_map, Option.isSome_map] at hsome
  rw [List.length_map, List.length_map] at hlength
  have hargument := afterArgument_accord hgiven.state hgiven.value h.calls
    (hasNamed || name.isSome) (position + (given name position start r.1 r.2.2).1.length)
  unfold afterOperand
  dsimp only
  rw [hsome, hlength]
  exact hargument

/-- Parallel parses read an argument alike. -/
theorem argument_accord (hp : p.Respects) (hasNamed : Bool) (position : Nat)
    (h : Parallel s t) :
    Accord Round.onLine (p.argument hasNamed position s) (p.argument hasNamed position t) := by
  obtain ⟨hname, hstate⟩ := h.argumentName
  have hnone : t.argumentName.1.isNone = s.argumentName.1.isNone := by
    have hnone := congrArg Option.isNone hname
    rwa [Option.isNone_map, Option.isNone_map] at hnone
  unfold Parsers.argument
  dsimp only
  rw [hnone]
  exact afterOperand_accord (hp.expression .arguments ((hstate.record _).ite hstate)) hasNamed
    position hname h.here

/-- Parallel parses read a round of an argument list alike. -/
theorem round_accord (hp : p.Respects) (hasNamed afterComma : Bool) (position : Nat)
    (h : Parallel s t) :
    Accord Round.onLine (p.round hasNamed afterComma position s)
      (p.round hasNamed afterComma position t) := by
  simp only [Parsers.round, h.isHalted, h.isInterrupted, h.skipLayout.front?]
  split
  · exact ⟨rfl, h⟩
  split
  · exact ⟨rfl, h.record _⟩
  split
  · exact ⟨rfl, h.skipLayout.record _⟩
  · exact ⟨rfl, h.skipLayout.record _⟩
  · exact ⟨rfl, ((h.skipLayout.record _).ite h.skipLayout).pop 1⟩
  · exact ⟨rfl, (h.skipLayout.record _).pop 1⟩
  · exact argument_accord hp hasNamed position h.skipLayout

/-- Parallel parses take a step of an argument list alike. -/
theorem nextArguments_accord (hp : p.Respects) (hasNamed afterComma : Bool) (position : Nat)
    (h : Parallel s t) :
    AccordWithCalls (List.map Argument.onLine) (p.nextArguments hasNamed afterComma position s)
      (p.nextArguments hasNamed afterComma position t) := by
  have hround := round_accord hp hasNamed afterComma position h
  unfold Parsers.nextArguments
  generalize p.round hasNamed afterComma position s = r at hround ⊢
  generalize p.round hasNamed afterComma position t = r' at hround ⊢
  obtain ⟨⟨given, calls, next⟩, s'⟩ := r
  obtain ⟨⟨given', calls', next'⟩, t'⟩ := r'
  -- the rounds behind it start from the same settings
  obtain ⟨hgiven, hcalls, rfl⟩ := Round.mk.inj hround.value
  cases next' with
  | none => exact ⟨hgiven, hcalls, hround.state⟩
  | some next =>
    obtain ⟨hasNamed', afterComma', position'⟩ := next
    have hothers := hp.arguments hasNamed' afterComma' position' hround.state
    exact ⟨map_append_congr hgiven hothers.value, map_append_congr hcalls hothers.calls,
      hothers.state⟩

end Steps

-- ---------------------------------------------------------------------------
-- Any number of steps
-- ---------------------------------------------------------------------------

namespace Parsers

/-- One step on top of functions that do not tell parallel states apart. -/
theorem Respects.next {p : Parsers} (hp : p.Respects) : p.next.Respects where
  primary := nextPrimary_accord hp
  expression := fun setting _ _ h => nextExpression_accord hp setting h
  tail := fun setting depth consumed _ _ h => nextTail_accord hp setting depth consumed h
  call := nextCall_accord hp
  arguments := fun hasNamed afterComma position _ _ h =>
    nextArguments_accord hp hasNamed afterComma position h

/-- The functions that read expressions and calls do not tell parallel states apart. -/
theorem level_respects (fuel : Nat) : (level fuel).Respects := by
  induction fuel with
  | zero =>
    refine ⟨?_, ?_, ?_, ?_, ?_⟩
    · intro s t h
      exact ⟨rfl, rfl, h⟩
    · intro setting s t h
      exact ⟨rfl, rfl, h⟩
    · intro setting depth consumed s t h
      exact ⟨rfl, rfl, h⟩
    · intro s t h
      exact ⟨congrArg (Call.mk "" []) h.here, rfl, h⟩
    · intro hasNamed afterComma position s t h
      exact ⟨rfl, rfl, h⟩
  | succ fuel ih =>
    rw [level_succ]
    exact ih.next

end Parsers

-- ---------------------------------------------------------------------------
-- Lines
-- ---------------------------------------------------------------------------

section Statements

variable {s t : State}

/-- Parallel parses read an expression alike. -/
theorem expression_accord (setting : Setting) (h : Parallel s t) :
    AccordWithCalls operandOnLine (s.expression setting) (t.expression setting) := by
  have hfuel : fuelFor t.queue = fuelFor s.queue := congrArg (2 * · + 8) h.length_eq
  unfold State.expression
  rw [hfuel]
  exact (Parsers.level_respects (fuelFor s.queue)).expression setting h

/-- Parallel parses read a call and the calls inside it alike. -/
theorem callWithInner_accord (h : Parallel s t) :
    Accord (List.map Call.onLine) s.callWithInner t.callWithInner := by
  have hfuel : fuelFor t.queue = fuelFor s.queue := congrArg (2 * · + 8) h.length_eq
  have hcall := (Parsers.level_respects (fuelFor s.queue)).call h
  unfold State.callWithInner
  rw [hfuel]
  exact ⟨congrArg₂ List.cons hcall.value hcall.calls, hcall.state⟩

/-- Parallel parses scan a line alike. -/
theorem scanLine_accord (fuel depth : Nat) (h : Parallel s t) :
    Accord (List.map Call.onLine) (scanLine fuel depth s) (scanLine fuel depth t) := by
  induction fuel generalizing depth s t with
  | zero => exact ⟨rfl, h⟩
  | succ fuel ih =>
    have hstop : Accord (List.map Call.onLine) (([] : List Call), s) ([], t) := ⟨rfl, h⟩
    -- every branch but a call goes on one token later
    have hgo (depth : Nat) : Accord (List.map Call.onLine) (scanLine fuel depth (s.pop 1))
        (scanLine fuel depth (t.pop 1)) :=
      ih depth (h.pop 1)
    unfold scanLine
    simp only [h.isHalted, h.front?, h.isCallAhead]
    split
    · exact hstop
    split
    · exact hstop
    split
    case h_1 => exact hstop
    case h_2 | h_3 | h_4 =>
      split
      · exact hstop
      · exact hgo _
    case h_5 | h_6 | h_10 => exact hgo _
    case h_7 | h_8 =>
      split
      · exact ih 0 ((h.record _).pop 1)
      · exact hgo _
    case h_9 =>
      split
      · have hfound := callWithInner_accord h
        have hlater := ih depth hfound.state
        exact ⟨map_append_congr hfound.value hlater.value, hlater.state⟩
      · exact hgo _

/-- Parallel parses scan the rest of their line alike. -/
theorem restOfLine_accord (h : Parallel s t) :
    Accord (List.map Call.onLine) s.scanLine t.scanLine := by
  unfold State.scanLine
  rw [h.length_eq]
  exact scanLine_accord _ 0 h

-- ---------------------------------------------------------------------------
-- Statements
-- ---------------------------------------------------------------------------

/-- Parallel parses read off an assigned value alike. -/
theorem assigned_accord {r r' : Option (Value × Bool) × List Call × State}
    (h : AccordWithCalls operandOnLine r r') :
    AccordWithCalls (Option.map Value.onLine) (assigned r) (assigned r') := by
  obtain ⟨operand, calls, s⟩ := r
  obtain ⟨operand', calls', t⟩ := r'
  rcases operand_cases h.value with ⟨rfl, rfl⟩ | ⟨value, value', isCompound, rfl, rfl, hvalue⟩
  · exact ⟨rfl, h.calls, (h.state.record _).skipLine⟩
  · cases isCompound with
    | false => exact ⟨congrArg some hvalue, h.calls, h.state⟩
    | true =>
      -- of a compound value only a call is kept, and it is a call on both sides
      cases value <;> cases value' <;> simp only [Value.onLine, reduceCtorEq] at hvalue
      · exact ⟨rfl, h.calls, h.state⟩
      · exact ⟨rfl, h.calls, h.state⟩
      · exact ⟨rfl, congrArg₂ List.cons (Value.call.inj hvalue) h.calls, h.state⟩

/-- Parallel parses read what stands behind an assignment alike. -/
theorem assignedValue_accord (h : Parallel s t) :
    AccordWithCalls (Option.map Value.onLine) (assignedValue s) (assignedValue t) := by
  unfold assignedValue
  rw [h.front?]
  split
  · exact ⟨rfl, rfl, h⟩
  · exact ⟨rfl, rfl, h⟩
  · exact ⟨rfl, rfl, h.record _⟩
  · exact ⟨rfl, rfl, h.record _⟩
  · exact ⟨rfl, rfl, h.record _⟩
  · exact ⟨rfl, rfl, h.record _⟩
  · exact ⟨rfl, rfl, h.record _⟩
  · exact assigned_accord (expression_accord .statement h)

/-- Parallel queues declare the same type, up to its place. -/
theorem declaredType?_parallel (h : Parallel s t) :
    (declaredType? t.queue).map (List.map Placed.outline) =
      (declaredType? s.queue).map (List.map Placed.outline) := by
  rw [← declaredType?_map Placed.outline_token, h.queue, declaredType?_map Placed.outline_token]

/-- Parallel parses read a declaration behind its optional keyword alike. -/
theorem declared_accord (isVar : Bool) {start start' : Span} (hstart : start'.onLine = start.onLine)
    (h : Parallel s t) :
    AccordWithCalls (List.map Node.onLine) (declared isVar start s) (declared isVar start' t) := by
  have htype := declaredType?_parallel h
  unfold declared
  rcases hs : declaredType? s.queue with _ | type
  · rw [hs, Option.map_none, Option.map_eq_none_iff] at htype
    rw [htype]
    exact ⟨rfl, rfl, (h.record _).skipLine⟩
  rw [hs, Option.map_some] at htype
  obtain ⟨type', ht, hmap⟩ := Option.map_eq_some_iff.mp htype
  -- the two types are spelled alike and take as many tokens
  have htext : textOf type' = textOf type := by
    rw [← textOf_map Placed.outline_token, hmap, textOf_map Placed.outline_token]
  have hlength : type'.length = type.length := by
    have hlength := congrArg List.length hmap
    rwa [List.length_map, List.length_map] at hlength
  have hempty : (type' = []) = (type = []) := by
    rw [← List.length_eq_zero_iff, hlength, List.length_eq_zero_iff]
  rw [ht]
  simp only [hempty, htext, hlength]
  have hpop := h.pop type.length
  generalize s.pop type.length = s at hpop ⊢
  generalize t.pop type.length = t at hpop ⊢
  have hskip : AccordWithCalls (List.map Node.onLine) (([] : List Node), ([] : List Call), s.pop 1)
      ([], [], t.pop 1) := ⟨rfl, rfl, hpop.pop 1⟩
  rcases hqueue : s.queue with _ | ⟨⟨token, span⟩, _ | ⟨op, rest⟩⟩
  · rw [hpop.queue_nil hqueue]
    exact hskip
  · obtain ⟨⟨token', span'⟩, hqueue'⟩ := hpop.queue_singleton hqueue
    rw [hqueue']
    cases token <;> cases token' <;> exact hskip
  · obtain ⟨⟨token', span'⟩, op', rest', hqueue', htoken, hline, hop⟩ := hpop.queue_pair hqueue
    rw [hqueue']
    obtain rfl : token' = token := htoken
    cases token'
    -- a name and an operator: a declaration on both sides
    case identifier name =>
      have hvalue := assignedValue_accord (hpop.pop 2)
      have hothers := restOfLine_accord hvalue.state
      have hspan : Span.onLine span' = Span.onLine span := hline
      refine ⟨?_, map_append_congr hvalue.calls hothers.value, hothers.state⟩
      simp only [List.map_cons, List.map_nil, Node.onLine, Declaration.onLine, Identifier.onLine,
        State.onLine_spanFrom, hstart, hvalue.value, hspan, hop]
    all_goals exact hskip

/-- Parallel parses read a declaration alike. -/
theorem declaration_accord (h : Parallel s t) :
    AccordWithCalls (List.map Node.onLine) (declaration s) (declaration t) := by
  have hvar : t.startsVar = s.startsVar := by
    rw [State.startsVar, State.startsVar, h.front?]
  rw [declaration_eq_declared, declaration_eq_declared, hvar]
  exact declared_accord s.startsVar h.here ((h.pop 1).ite h)

/-- Parallel parses read a statement alike. -/
theorem statement_accord (h : Parallel s t) :
    Accord (List.map Node.onLine) (statement s) (statement t) := by
  -- calls that stand alone become nodes
  have hcalls {calls calls' : List Call} (hcalls : calls'.map Call.onLine = calls.map Call.onLine) :
      (calls'.map Node.call).map Node.onLine = (calls.map Node.call).map Node.onLine := by
    have hnode (calls : List Call) : (calls.map Node.call).map Node.onLine =
        (calls.map Call.onLine).map Node.call := by
      rw [List.map_map, List.map_map]
      rfl
    rw [hnode, hcalls, hnode]
  have htype : (declaredType? t.queue).isSome = (declaredType? s.queue).isSome := by
    have htype := congrArg Option.isSome (declaredType?_parallel h)
    rwa [Option.isSome_map, Option.isSome_map] at htype
  have hdeclaration : Accord (List.map Node.onLine)
      ((declaration s).1 ++ (declaration s).2.1.map Node.call, (declaration s).2.2)
      ((declaration t).1 ++ (declaration t).2.1.map Node.call, (declaration t).2.2) := by
    have hboth := declaration_accord h
    exact ⟨map_append_congr hboth.value (hcalls hboth.calls), hboth.state⟩
  have hline : Accord (List.map Node.onLine)
      ([] ++ s.scanLine.1.map Node.call, s.scanLine.2)
      ([] ++ t.scanLine.1.map Node.call, t.scanLine.2) := by
    have hboth := restOfLine_accord h
    exact ⟨hcalls hboth.value, hboth.state⟩
  unfold statement
  simp only [h.front?, h.isDefinitionAhead, htype]
  split
  · exact ⟨rfl, h⟩
  split
  case h_1 | h_2 => exact ⟨rfl, h.skipDefinition⟩
  case h_3 => exact ⟨rfl, h.skipLine⟩
  case h_4 | h_5 => exact ⟨rfl, h.pop 1⟩
  case h_6 | h_7 => exact hdeclaration
  case h_8 =>
    split
    · exact ⟨rfl, h.skipHead⟩
    split
    · exact hdeclaration
    · exact hline
  case h_9 => exact hline

/-- Parallel parses read the statements of a script alike. -/
theorem statements_accord (fuel : Nat) (h : Parallel s t) :
    Accord (List.map Node.onLine) (statements fuel s) (statements fuel t) := by
  induction fuel generalizing s t with
  | zero => exact ⟨rfl, h⟩
  | succ fuel ih =>
    unfold statements
    rw [h.isHalted, h.front?]
    split
    · exact ⟨rfl, h⟩
    split
    case h_1 | h_2 => exact ⟨rfl, h⟩
    case h_3 | h_4 | h_5 => exact ih (h.pop 1)
    case h_6 =>
      have hnodes := statement_accord h
      have hothers := ih hnodes.state
      exact ⟨map_append_congr hnodes.value hothers.value, hothers.state⟩

end Statements

end PineCheck.Parser

namespace PineCheck

open PineCheck.Parser

-- ---------------------------------------------------------------------------
-- Scripts
-- ---------------------------------------------------------------------------

/-- Only a comment has a reading that is made plain. -/
theorem plainReading_of_ne {reading : Reading} (h : ∀ text, reading ≠ .ok (.comment text)) :
    plainReading reading = reading := by
  unfold plainReading
  split
  · exact absurd rfl (h _)
  · rfl

/-- Readings that are the same but for the texts of comments are both comments, or the
same. -/
theorem plainReading_cases {reading reading' : Reading}
    (h : plainReading reading' = plainReading reading) :
    (∃ text text', reading = .ok (.comment text) ∧ reading' = .ok (.comment text')) ∨
      (reading' = reading ∧ ∀ text, reading ≠ .ok (.comment text)) := by
  by_cases hcomment : ∃ text, reading = .ok (.comment text)
  · obtain ⟨text, rfl⟩ := hcomment
    refine Or.inl ⟨text, ?_⟩
    by_contra hnone
    rw [plainReading_of_ne fun text' heq => hnone ⟨text', rfl, heq⟩] at h
    exact hnone ⟨"", rfl, h⟩
  · have hne : ∀ text, reading ≠ .ok (.comment text) := fun text heq => hcomment ⟨text, heq⟩
    rw [plainReading_of_ne hne] at h
    by_cases hcomment' : ∃ text, reading' = .ok (.comment text)
    · obtain ⟨text, rfl⟩ := hcomment'
      exact absurd h.symm (hne "")
    · rw [plainReading_of_ne fun text heq => hcomment' ⟨text, heq⟩] at h
      exact Or.inr ⟨h, hne⟩

/-- What is kept of two lists is alike when it is alike of any two members in step. -/
theorem map_filterMap_congr {α β γ : Type} {r : α → α → Prop} {f : α → Option β} {g : β → γ}
    (hf : ∀ a b, r a b → (f b).map g = (f a).map g) {as bs : List α} (h : List.Forall₂ r as bs) :
    (bs.filterMap f).map g = (as.filterMap f).map g := by
  rw [List.map_filterMap, List.map_filterMap]
  induction h with
  | nil => rfl
  | cons hab _ ih => rw [List.filterMap_cons, List.filterMap_cons, hf _ _ hab, ih]

/-- Tokens that say the same in the same places have the same outline. -/
theorem outline_eq_of_alike {lexed lexed' : Lexed} (h : lexed.Alike lexed') {token : Token}
    (htoken : lexed.reading = .ok token) :
    Placed.outline ⟨token, lexed'.span⟩ = Placed.outline ⟨token, lexed.span⟩ := by
  unfold Placed.outline
  dsimp only
  rw [h.line]
  by_cases hlayout : isLayout token = true
  · rw [hlayout]
    rfl
  · have hcolumn : lexed'.span.column = lexed.span.column := by
      refine h.column ?_
      rw [htoken]
      rintro ⟨⟩
      exact hlayout rfl
    rw [hcolumn]

/-- Tokens that say the same in the same places start parallel parses. -/
theorem start_parallel {tokens tokens' : List Lexed} (h : List.Forall₂ Lexed.Alike tokens tokens')
    (allowed : Nat) : Parallel (State.start tokens allowed) (State.start tokens' allowed) := by
  -- the queues, the last positions and the lexical errors
  refine ⟨?_, ?_, ?_, rfl, rfl, rfl, rfl, rfl⟩
  · refine map_filterMap_congr (fun lexed lexed' halike => ?_) h
    rcases plainReading_cases halike.reading with ⟨text, text', hr, hr'⟩ | ⟨hr, hne⟩
    · rw [hr, hr']
    · rw [hr]
      cases hreading : lexed.reading with
      | error fault => rfl
      | ok token =>
        have houtline := outline_eq_of_alike halike hreading
        cases token with
        | comment text => exact absurd hreading (hne text)
        | _ => exact congrArg some houtline
  · cases h with
    | nil => rfl
    | cons hfirst => exact congrArg (Span.mk 0 0 · 0) hfirst.line
  · refine map_filterMap_congr (fun lexed lexed' halike => ?_) h
    rcases plainReading_cases halike.reading with ⟨text, text', hr, hr'⟩ | ⟨hr, hne⟩
    · rw [hr, hr']
    · rw [hr]
      cases hreading : lexed.reading with
      | error fault =>
        exact congrArg (fun line => some (ParseError.mk (.lexical fault) ⟨0, 0, line, 0⟩))
          halike.line
      | ok token => rfl

/-- Tokens that say the same in the same places are parsed to the same, up to columns and
offsets. -/
theorem parseTokens_onLine {tokens tokens' : List Lexed}
    (h : List.Forall₂ Lexed.Alike tokens tokens') (allowed : Nat) :
    (parseTokens tokens' allowed).onLine = (parseTokens tokens allowed).onLine := by
  have hstart := start_parallel h allowed
  have hend := statements_accord ((State.start tokens allowed).queue.length + 1) hstart
  have hspan : (tokens'.head?.map fun first => first.span.onLine) =
      tokens.head?.map fun first => first.span.onLine := by
    cases h with
    | nil => rfl
    | cons hfirst => exact congrArg (fun line => some (Span.mk 0 0 line 0)) hfirst.line
  unfold parseTokens Parsed.onLine
  dsimp only
  rw [hstart.length_eq, hend.value, hend.state.errors, hend.state.warnings, hend.state.attempts,
    h.length_eq, Option.map_map, Option.map_map]
  simp only [Function.comp_def, Span.onLine_through, hspan]

/-- **Line endings do not matter.** A script with a carriage return before every line break
has the same tokens and faults as the script without them, on the same lines and in the same
columns, but for the texts of comments and the columns of line breaks. It is parsed to the
same tree, errors, warnings and counts, up to columns and offsets, whatever number of errors
the parse may go on behind. -/
theorem parse_withReturns (source : String) :
    List.Forall₂ Lexed.Alike (lex source) (lex (String.ofList (withReturns source.toList))) ∧
      ∀ allowed, (parse (String.ofList (withReturns source.toList)) allowed).onLine =
        (parse source allowed).onLine :=
  ⟨lex_withReturns source, fun allowed => parseTokens_onLine (lex_withReturns source) allowed⟩

end PineCheck
