import Mathlib.Logic.Relation
import PineCheck.Parser.Statement

/-!
# PineCheck — the moves of a parse

However it goes on, a parse does only four things to its state: it takes tokens,
records a problem, enters a parenthesis and leaves one. `Move` is one of these and
`Reaches` is any number of them, so what every move keeps is kept by every
function of the parser.

What a function hands out is told beside that. `Yields s spans s'` says that a
parse goes from `s` to `s'` and that the spans on the way are made from spans of
the state by stretching one to the end of another. Two stretches of a parse are
put together by `Yields.append`.

Main results:

* `Reaches.within` — a property of spans that stretching keeps holds of the state
  at the end of a parse if it holds of the state at the start.
* `returnsAll` — the five functions that parse expressions yield the spans of what
  they return.
* `statements_yields` — so do the statements of a script.
-/

namespace PineCheck

-- ---------------------------------------------------------------------------
-- The spans of a tree
-- ---------------------------------------------------------------------------

mutual

/-- The spans in a value. -/
def Value.spans : Value → List Span
  | .literal literal => [literal.span]
  | .identifier identifier => [identifier.span]
  | .call call => call.spans

/-- The span of a call and the spans in its arguments. -/
def Call.spans : Call → List Span
  | ⟨_, arguments, span⟩ => span :: Argument.spansAll arguments

/-- The spans in arguments. -/
def Argument.spansAll : List Argument → List Span
  | [] => []
  | argument :: arguments => argument.spans ++ Argument.spansAll arguments

/-- The spans of an argument, of its name and in its value. -/
def Argument.spans : Argument → List Span
  | ⟨name, value, _, _, span⟩ => span :: ((name.map Identifier.span).toList ++ value.spans)

end

/-- The spans in calls. -/
def Call.spansAll (calls : List Call) : List Span :=
  calls.flatMap Call.spans

/-- The spans of a declaration, of its name and in its value. -/
def Declaration.spans (declaration : Declaration) : List Span :=
  declaration.span :: declaration.name.span :: declaration.value.toList.flatMap Value.spans

/-- The spans in a statement. -/
def Node.spans : Node → List Span
  | call c => c.spans
  | declaration d => d.spans

/-- The spans in statements. -/
def Node.spansAll (nodes : List Node) : List Span :=
  nodes.flatMap Node.spans

/-- The span of a script and the spans in its statements. -/
def Program.spans (program : Program) : List Span :=
  program.span.toList ++ Node.spansAll program.nodes

@[simp] theorem Call.spansAll_nil : Call.spansAll [] = [] := rfl

@[simp] theorem Call.spansAll_cons (call : Call) (calls : List Call) :
    Call.spansAll (call :: calls) = call.spans ++ Call.spansAll calls := rfl

@[simp] theorem Call.spansAll_append (calls others : List Call) :
    Call.spansAll (calls ++ others) = Call.spansAll calls ++ Call.spansAll others :=
  List.flatMap_append

@[simp] theorem Argument.spansAll_append (arguments others : List Argument) :
    Argument.spansAll (arguments ++ others) =
      Argument.spansAll arguments ++ Argument.spansAll others := by
  induction arguments with
  | nil => rfl
  | cons argument arguments ih =>
    rw [List.cons_append, Argument.spansAll, Argument.spansAll, ih, List.append_assoc]

@[simp] theorem Node.spansAll_append (nodes others : List Node) :
    Node.spansAll (nodes ++ others) = Node.spansAll nodes ++ Node.spansAll others :=
  List.flatMap_append

/-- Calls that stand as statements have the spans of the calls. -/
@[simp] theorem Node.spansAll_map_call (calls : List Call) :
    Node.spansAll (calls.map .call) = Call.spansAll calls :=
  List.flatMap_map ..

namespace Parser

/-- Whether a token is kept does not depend on the tokens around it. -/
theorem State.kept_append (tokens others : List Lexed) :
    State.kept (tokens ++ others) = State.kept tokens ++ State.kept others :=
  List.filterMap_append

/-- A parenthesis that is entered is one of those that may be. -/
theorem State.enter_eq_true {s inside : State} (h : s.enter = (true, inside)) :
    s.depth < State.maxDepth ∧ inside = { s with depth := s.depth + 1 } := by
  rw [State.enter] at h
  split at h
  · cases h
  · next hdepth =>
    cases h
    exact ⟨Nat.lt_of_not_le hdepth, rfl⟩

/-- A parenthesis that is not entered is nested too deeply, and this is recorded. -/
theorem State.enter_eq_false {s outside : State} (h : s.enter = (false, outside)) :
    State.maxDepth ≤ s.depth ∧ outside = s.record .nestedTooDeeply := by
  rw [State.enter] at h
  split at h
  · next hdepth =>
    cases h
    exact ⟨hdepth, rfl⟩
  · cases h

-- ---------------------------------------------------------------------------
-- Moves
-- ---------------------------------------------------------------------------

/-- What a parse can do to its state. The problems that it records itself are
neither faults of the lexer nor the one that it halts with. -/
inductive Move : State → State → Prop
  | pop (s : State) (n : Nat) : Move s (s.pop n)
  | record (s : State) {problem : ParseProblem}
      (h : problem.code ≠ .lexicalError ∧ problem.code ≠ .parseTimeout) :
      Move s (s.record problem)
  | deepen (s : State) (h : s.depth < State.maxDepth) : Move s { s with depth := s.depth + 1 }
  | leave (s : State) : Move s s.leave

/-- A state that a parse can come to. -/
def Reaches (s s' : State) : Prop :=
  Relation.ReflTransGen Move s s'

namespace Reaches

theorem refl (s : State) : Reaches s s :=
  Relation.ReflTransGen.refl

theorem trans {s s' s'' : State} (h : Reaches s s') (h' : Reaches s' s'') : Reaches s s'' :=
  Relation.ReflTransGen.trans h h'

theorem move {s s' : State} (h : Move s s') : Reaches s s' :=
  Relation.ReflTransGen.single h

theorem pop (s : State) (n : Nat) : Reaches s (s.pop n) :=
  move (.pop s n)

theorem record (s : State) {problem : ParseProblem}
    (h : problem.code ≠ .lexicalError ∧ problem.code ≠ .parseTimeout) :
    Reaches s (s.record problem) :=
  move (.record s h)

theorem leave (s : State) : Reaches s s.leave :=
  move (.leave s)

/-- Entering a parenthesis goes one deeper or records that this is too deep. -/
theorem of_enter {s s' : State} {entered : Bool} (h : s.enter = (entered, s')) :
    Reaches s s' := by
  cases entered with
  | true =>
    obtain ⟨hdepth, rfl⟩ := State.enter_eq_true h
    exact move (.deepen s hdepth)
  | false =>
    obtain ⟨-, rfl⟩ := State.enter_eq_false h
    exact record s (by decide)

/-- A problem may be recorded or not. -/
theorem recordIf (s : State) (b : Bool) {problem : ParseProblem}
    (h : problem.code ≠ .lexicalError ∧ problem.code ≠ .parseTimeout) :
    Reaches s (if b then s.record problem else s) := by
  split
  · exact record s h
  · exact refl s

/-- A parenthesis is left whether the closing one is there or not. -/
theorem close (s : State) : Reaches s
    (if s.front? = some (.punctuation .parenRight) then s.pop 1
      else s.record .expectedParenthesis).leave := by
  refine trans ?_ (leave _)
  split
  · exact pop s 1
  · exact record s (by decide)

theorem skipBrackets (s : State) : Reaches s s.skipBrackets :=
  pop s _

/-- An index behind an operand is gone over, if there is one. -/
theorem skipIndex (s : State) : Reaches s s.skipIndex := by
  rw [State.skipIndex]
  split
  · exact skipBrackets s
  · exact refl s

theorem skipToClosing (s : State) : Reaches s s.skipToClosing :=
  pop s _

theorem skipLayout (s : State) : Reaches s s.skipLayout :=
  pop s _

theorem skipLine (s : State) : Reaches s s.skipLine :=
  pop s _

/-- A definition is gone over, with the block below its line. -/
theorem skipDefinition (s : State) : Reaches s s.skipDefinition := by
  rw [State.skipDefinition]
  split
  · exact ((skipLine s).trans (pop _ _)).trans (pop _ _)
  · exact skipLine s

/-- The head of a definition is gone over, and its body is left. -/
theorem skipHead (s : State) : Reaches s s.skipHead :=
  pop s _

end Reaches

-- ---------------------------------------------------------------------------
-- Properties of the spans of a state
-- ---------------------------------------------------------------------------

/-- A property of spans is closed when stretching a span to the end of another
one keeps it. -/
def IsClosed (P : Span → Prop) : Prop :=
  ∀ s t : Span, P s → P t → P (s.through t)

/-- All spans that a state holds have a property. -/
structure State.Within (P : Span → Prop) (s : State) : Prop where
  queue : ∀ placed ∈ s.queue, P placed.span
  last : P s.last
  errors : ∀ error ∈ s.errors, P error.span
  warnings : ∀ warning ∈ s.warnings, P warning.span

namespace State.Within

variable {P : Span → Prop} {s : State}

/-- The place of the next token has the property: if there is no token, it is the
place of the last one. -/
theorem here (h : s.Within P) : P s.here := by
  rw [State.here]
  cases hq : s.queue with
  | nil => exact h.last
  | cons placed rest => exact h.queue placed (by rw [hq]; exact List.mem_cons_self)

/-- With fewer tokens, a state has no more spans than before. -/
theorem pop (h : s.Within P) (n : Nat) : (s.pop n).Within P := by
  refine ⟨fun placed hp => h.queue placed (List.mem_of_mem_drop hp), ?_, h.errors, h.warnings⟩
  show P (((s.queue.take n).getLast?.map Placed.span).getD s.last)
  cases hl : (s.queue.take n).getLast? with
  | none => exact h.last
  | some placed =>
    exact h.queue placed (List.mem_of_mem_take (List.mem_of_getLast? hl))

/-- A problem is recorded where the next token stands, or behind the last one. -/
theorem record (h : s.Within P) (problem : ParseProblem) : (s.record problem).Within P := by
  have hhere := h.here
  -- the error that is kept behind the others
  have herrors : ∀ error ∈ s.errors ++ [⟨problem, s.here⟩], P error.span := by
    intro error he
    rcases List.mem_append.mp he with he | he
    · exact h.errors error he
    · rw [List.mem_singleton.mp he]
      exact hhere
  fun_cases State.record s problem with
  | case1 => exact h
  | case2 =>
    refine ⟨h.queue, h.last, h.errors, fun warning hw => ?_⟩
    rcases List.mem_append.mp hw with hw | hw
    · exact h.warnings warning hw
    · rw [List.mem_singleton.mp hw]
      exact hhere
  -- the parse halts: one more error says so, at the same place
  | case3 =>
    refine ⟨h.queue, h.last, fun error he => ?_, h.warnings⟩
    rcases List.mem_append.mp he with he | he
    · exact herrors error he
    · rw [List.mem_singleton.mp he]
      exact hhere
  | case4 => exact ⟨h.queue, h.last, herrors, h.warnings⟩

/-- Every move keeps what holds of the spans of a state. -/
theorem move {s' : State} (h : s.Within P) (hm : Move s s') : s'.Within P := by
  cases hm with
  | pop n => exact h.pop n
  | record => exact h.record _
  | deepen => exact ⟨h.queue, h.last, h.errors, h.warnings⟩
  | leave => exact ⟨h.queue, h.last, h.errors, h.warnings⟩

end State.Within

/-- What holds of the spans of a state holds wherever the parse goes. -/
theorem Reaches.within {P : Span → Prop} {s s' : State} (h : Reaches s s') (hs : s.Within P) :
    s'.Within P := by
  induction h with
  | refl => exact hs
  | tail _ hm ih => exact ih.move hm

-- ---------------------------------------------------------------------------
-- What a parse yields
-- ---------------------------------------------------------------------------

/-- A parse goes from `s` to `s'` and yields spans that are made from those of
`s`: they have every closed property that all spans of `s` have. -/
structure Yields (s : State) (spans : List Span) (s' : State) : Prop where
  reaches : Reaches s s'
  made : ∀ P, IsClosed P → s.Within P → ∀ span ∈ spans, P span

namespace Yields

variable {s s' s'' : State} {spans others : List Span}

/-- A stretch of a parse that yields nothing only has to reach its end. -/
theorem of_reaches (h : Reaches s s') : Yields s [] s' :=
  ⟨h, fun _ _ _ _ hm => absurd hm (List.not_mem_nil)⟩

theorem refl (s : State) : Yields s [] s :=
  of_reaches (.refl s)

/-- One stretch of a parse behind another. -/
theorem append (h : Yields s spans s') (h' : Yields s' others s'') :
    Yields s (spans ++ others) s'' := by
  refine ⟨h.reaches.trans h'.reaches, fun P hP hs span hm => ?_⟩
  rcases List.mem_append.mp hm with hm | hm
  · exact h.made P hP hs span hm
  · exact h'.made P hP (h.reaches.within hs) span hm

/-- Moves before a stretch of a parse yield nothing. -/
theorem after (h : Reaches s s') (h' : Yields s' spans s'') : Yields s spans s'' :=
  (of_reaches h).append h'

/-- Moves behind a stretch of a parse yield nothing. -/
theorem before (h : Yields s spans s') (h' : Reaches s' s'') : Yields s spans s'' := by
  simpa using h.append (of_reaches h')

/-- The order of spans does not matter, and spans can be left out. -/
theorem mono (h : Yields s spans s') (hsub : others ⊆ spans) : Yields s others s' :=
  ⟨h.reaches, fun P hP hs span hm => h.made P hP hs span (hsub hm)⟩

/-- The place of the next token is yielded. -/
theorem here (s : State) : Yields s [s.here] s := by
  refine ⟨.refl s, fun P _ hs span hm => ?_⟩
  rw [List.mem_singleton.mp hm]
  exact hs.here

/-- The place of the token at the front is yielded. -/
theorem front {placed : Placed} {rest : Queue} (h : s.queue = placed :: rest) :
    Yields s [placed.span] s := by
  have := here s
  rwa [State.here, h] at this

/-- A place of the state at the start can be stretched to the last token. -/
theorem spanFrom {start : Span} (hstart : Yields s [start] s) (h : Yields s spans s') :
    Yields s (s'.spanFrom start :: spans) s' := by
  refine ⟨h.reaches, fun P hP hs span hspan => ?_⟩
  rcases List.mem_cons.mp hspan with rfl | hspan
  · exact hP _ _ (hstart.made P hP hs start List.mem_cons_self) (h.reaches.within hs).last
  · exact h.made P hP hs span hspan

end Yields

-- ---------------------------------------------------------------------------
-- Expressions and calls
-- ---------------------------------------------------------------------------

/-- The spans of an operand. -/
def operandSpans (operand : Option (Value × Bool)) : List Span :=
  (operand.map Prod.fst).toList.flatMap Value.spans

@[simp] theorem operandSpans_none : operandSpans none = [] := rfl

@[simp] theorem operandSpans_some (value : Value) (isCompound : Bool) :
    operandSpans (some (value, isCompound)) = value.spans := by
  simp [operandSpans]

/-- The spans of what a function of the parser returns, and of the calls it has
met beside that, are yielded. -/
def Returns {α : Type} (spansOf : α → List Span) (s : State) (read : α × List Call × State) :
    Prop :=
  Yields s (spansOf read.1 ++ Call.spansAll read.2.1) read.2.2

/-- All five functions yield what they return, with this number of steps. -/
structure ReturnsAll (fuel : Nat) : Prop where
  primary : ∀ s, Returns operandSpans s (primary fuel s)
  expression : ∀ setting s, Returns operandSpans s (expression fuel setting s)
  tail : ∀ setting depth consumed s, Returns (fun _ => []) s (tail fuel setting depth consumed s)
  call : ∀ s, Returns Call.spans s (call fuel s)
  arguments : ∀ hasNamed afterComma position s,
    Returns Argument.spansAll s (arguments fuel hasNamed afterComma position s)

/-- An operand returns what it has read, if the readers with less fuel do. The cases are its first
tokens. -/
theorem primary_returns (fuel : Nat) (s : State) :
    (∀ n < fuel, ReturnsAll n) → Returns operandSpans s (primary fuel s) := by
  fun_cases primary fuel s with
  | case1 s => exact fun _ => .refl s
  | case2 fuel s => exact fun _ => .refl s
  -- a literal
  | case3 fuel s front rest hq kind raw =>
    intro _
    exact (Yields.front hq).before ((Reaches.pop s 1).trans (.skipIndex _))
  -- a call, or a name
  | case4 fuel s front rest hq hlit word hword hahead found calls s' hcall =>
    intro ih
    have h := (ih fuel fuel.lt_succ_self).call s
    rw [hcall] at h
    simpa [Returns, Value.spans] using h.before (Reaches.skipIndex s')
  | case5 fuel s front rest hq hlit word hword hahead words s' span text value =>
    intro _
    have hspan : value.spans = [span] := by
      simp only [value]
      split <;> rw [Value.spans]
    have h := (Yields.front hq).spanFrom (.of_reaches (.pop s words.length))
    simpa [Returns, hspan] using h.before (Reaches.skipIndex s')
  -- a parenthesis: nested too deeply, around an operand, or around nothing
  | case6 fuel s front rest hq hlit hparen s' henter =>
    intro _
    exact .of_reaches (.of_enter henter)
  | case7 fuel s front rest hq hlit hparen s₁ henter calls s₂ s₃ s₄ value hinner =>
    intro ih
    have h := (ih fuel fuel.lt_succ_self).expression .arguments (s₁.pop 1)
    rw [hinner] at h
    have h' := (h.after (.pop s₁ 1)).after (.of_enter henter)
    exact h'.before ((Reaches.close s₂).trans (.skipIndex s₄))
  | case8 fuel s front rest hq hlit hparen s₁ henter calls s₂ s₃ s₄ hinner =>
    intro ih
    have h := (ih fuel fuel.lt_succ_self).expression .arguments (s₁.pop 1)
    rw [hinner] at h
    have h' := (h.after (.pop s₁ 1)).after (.of_enter henter)
    exact h'.before (Reaches.close s₂)
  -- brackets, of which nothing is kept but where they stand
  | case9 fuel s front rest hq hlit hbracket s' =>
    intro _
    have h := (Yields.front hq).spanFrom (.of_reaches (.skipBrackets s))
    simpa [Returns, Value.spans] using h.before (Reaches.skipIndex s')
  -- an operator before its only operand
  | case10 fuel s front rest hq hlit value _ calls s' hinner =>
    intro ih
    have h := (ih fuel fuel.lt_succ_self).primary (s.pop 1)
    rw [hinner] at h
    simpa [Returns] using (h.after (.pop s 1)).before (Reaches.skipIndex s')
  | case11 fuel s front rest hq hlit calls s' hinner =>
    intro ih
    have h := (ih fuel fuel.lt_succ_self).primary (s.pop 1)
    rw [hinner] at h
    exact h.after (.pop s 1)
  | case12 fuel s => exact fun _ => .refl s

/-- An expression is an operand and what stands behind it. -/
theorem expression_returns (fuel : Nat) (setting : Setting) (s : State) :
    (∀ n < fuel, ReturnsAll n) → Returns operandSpans s (expression fuel setting s) := by
  fun_cases expression fuel setting s with
  | case1 setting s => exact fun _ => .refl s
  | case2 fuel setting s calls s' hprimary =>
    intro ih
    have h := (ih fuel fuel.lt_succ_self).primary s
    rwa [hprimary] at h
  | case3 fuel setting s value isCompound calls s₁ hprimary hasTail tailCalls s₂ htail =>
    intro ih
    have h₁ := (ih fuel fuel.lt_succ_self).primary s
    have h₂ := (ih fuel fuel.lt_succ_self).tail setting 0 false s₁
    rw [hprimary] at h₁
    rw [htail] at h₂
    simpa [Returns] using h₁.append h₂

/-- What stands behind an operand is not kept, but for its calls. -/
theorem tail_returns (fuel : Nat) (setting : Setting) (depth : Nat) (consumed : Bool) (s : State) :
    (∀ n < fuel, ReturnsAll n) →
      Returns (fun _ => []) s (tail fuel setting depth consumed s) := by
  fun_cases tail fuel setting depth consumed s with
  -- only a call yields something: what it is made of
  | case23 fuel setting depth consumed s _ word hahead found calls s₁ hcall _ later s₂ htail =>
    intro ih
    have h₁ := (ih fuel fuel.lt_succ_self).call s
    have h₂ := (ih fuel fuel.lt_succ_self).tail setting depth true s₁
    rw [hcall] at h₁
    rw [htail] at h₂
    simpa [Returns] using h₁.append h₂
  | _ =>
    -- every other branch stops here or takes one token and goes on
    intro ih
    first
    | exact .refl _
    | exact ((ih _ (Nat.lt_succ_self _)).tail ..).after (.pop _ 1)

/-- A call is placed from its name to its closing parenthesis. -/
theorem call_returns (fuel : Nat) (s : State) :
    (∀ n < fuel, ReturnsAll n) → Returns Call.spans s (call fuel s) := by
  fun_cases call fuel s with
  | case1 s =>
    intro _
    exact Yields.here s
  | case2 fuel s start words s₁ s₂ s₃ s₄ henter arguments calls s₅ harguments s₆ =>
    intro ih
    have h := (ih fuel fuel.lt_succ_self).arguments false false 0 s₄
    rw [harguments] at h
    -- the name, its type arguments and the parenthesis have been taken
    have hopen : Reaches s s₄ :=
      (((Reaches.pop s _).trans (.pop s₁ _)).trans (.pop s₂ 1)).trans (.of_enter henter)
    exact (Yields.here s).spanFrom ((h.after hopen).before (.leave s₅))
  -- nested too deeply, so that the arguments are skipped
  | case3 fuel s start words s₁ s₂ s₃ s₄ henter s₅ =>
    intro _
    have hopen : Reaches s s₄ :=
      (((Reaches.pop s _).trans (.pop s₁ _)).trans (.pop s₂ 1)).trans (.of_enter henter)
    exact (Yields.here s).spanFrom (.of_reaches (hopen.trans (.skipToClosing s₄)))

/-- The name of an argument is placed where it stands. -/
theorem argumentName_yields (s : State) :
    Yields s (s.argumentName.1.map Identifier.span).toList s.argumentName.2 := by
  fun_cases State.argumentName s with
  | case1 word op rest hq => exact (Yields.front hq).before (.pop s 2)
  | _ => exact .refl _

/-- The argument with this operand, if there is one, and the state to go on from:
what cannot start an operand is left out. -/
def given (name : Option Identifier) (position : Nat) (start : Span)
    (operand : Option (Value × Bool)) (s : State) : List Argument × State :=
  match operand with
  | some (value, isExpression) => ([⟨name, value, position, isExpression, s.spanFrom start⟩], s)
  | none =>
    let s := s.record .expectedArgumentValue
    ([], if s.front?.any (!endsArgument ·) then s.pop 1 else s)

/-- One argument, from its name to the end of its operand. -/
theorem given_yields {fuel : Nat} (ih : ReturnsAll fuel) {hasNamed : Bool} {position : Nat}
    {s s₁ s₂ s₃ : State} {name : Option Identifier} {operand : Option (Value × Bool)}
    {calls : List Call} {arguments : List Argument}
    (hname : s.argumentName = (name, s₁))
    (hoperand : expression fuel .arguments
      (if name.isNone && hasNamed then s₁.record .positionalAfterNamed else s₁) =
        (operand, calls, s₂))
    (hgiven : given name position s.here operand s₂ = (arguments, s₃)) :
    Yields s (Argument.spansAll arguments ++ Call.spansAll calls) s₃ := by
  have h₁ := argumentName_yields s
  rw [hname] at h₁
  have h₂ := ih.expression .arguments
    (if name.isNone && hasNamed then s₁.record .positionalAfterNamed else s₁)
  rw [hoperand] at h₂
  have h := (h₁.before (.recordIf s₁ (name.isNone && hasNamed) (by decide))).append h₂
  cases operand with
  | some read =>
    obtain ⟨value, isExpression⟩ := read
    cases hgiven
    simpa [Argument.spansAll, Argument.spans] using (Yields.here s).spanFrom h
  -- without an operand, the token that stands in its place is skipped unless it ends the argument
  | none =>
    cases hgiven
    have hend : Reaches s₂ (if ((s₂.record .expectedArgumentValue).front?.any
        fun token => !endsArgument token) then (s₂.record .expectedArgumentValue).pop 1
        else s₂.record .expectedArgumentValue) := by
      split
      · exact (Reaches.record s₂ (by decide)).trans (.pop _ 1)
      · exact .record s₂ (by decide)
    refine (h.before hend).mono ?_
    simp [Argument.spansAll]

/-- The arguments behind one argument are put behind it. -/
theorem Returns.arguments {s s₁ s₂ s₃ : State} {given others : List Argument}
    {calls later : List Call} (h : Yields s (Argument.spansAll given ++ Call.spansAll calls) s₁)
    (hto : Reaches s₁ s₂) (h' : Returns Argument.spansAll s₂ (others, later, s₃)) :
    Returns Argument.spansAll s (given ++ others, calls ++ later, s₃) := by
  refine (h.append (h'.after hto)).mono ?_
  intro span hspan
  simp only [Argument.spansAll_append, Call.spansAll_append, List.mem_append] at hspan ⊢
  grind

/-- A list of arguments returns what its arguments do, by what may stand in front of it and behind
its first argument. -/
theorem arguments_returns (fuel : Nat) (hasNamed afterComma : Bool) (position : Nat) (s : State) :
    (∀ n < fuel, ReturnsAll n) →
      Returns Argument.spansAll s (arguments fuel hasNamed afterComma position s) := by
  fun_cases arguments fuel hasNamed afterComma position s with
  | case1 hasNamed afterComma position s => exact fun _ => .refl s
  | case2 fuel hasNamed afterComma position s => exact fun _ => .refl s
  -- an argument list that the end of the file or the next statement cuts off
  | case3 fuel hasNamed afterComma position s =>
    intro _
    exact .of_reaches (.record s (by decide))
  | case4 fuel hasNamed afterComma position s _ _ s'
  | case5 fuel hasNamed afterComma position s _ _ s' =>
    intro _
    exact .of_reaches ((Reaches.skipLayout s).trans (.record s' (by decide)))
  -- the closing parenthesis, perhaps behind a comma
  | case6 fuel hasNamed afterComma position s _ _ s₁ _ s₂ =>
    intro _
    exact .of_reaches (((Reaches.skipLayout s).trans (.recordIf s₁ afterComma (by decide))).trans
      (.pop s₂ 1))
  | case7 fuel hasNamed afterComma position s _ _ s' =>
    intro ih
    have h := (ih fuel fuel.lt_succ_self).arguments hasNamed true position
      ((s'.record .expectedArgumentBeforeComma).pop 1)
    exact h.after (((Reaches.skipLayout s).trans (.record s' (by decide))).trans (.pop _ 1))
  -- the next statement interrupts the argument list behind an argument
  | case8 fuel hasNamed afterComma position s _ _ s₁ token _ _ _ _ start name s₂ hname
      s₃ hasNamed' operand calls s₄ hoperand given s₅ hgiven position' _ others later s₆ hothers =>
    intro ih
    have h := given_yields (ih fuel fuel.lt_succ_self) hname hoperand hgiven
    have h' := (ih fuel fuel.lt_succ_self).arguments hasNamed' false position' s₅
    rw [hothers] at h'
    exact .arguments (h.after (.skipLayout s)) (.refl s₅) h'
  | case9 fuel hasNamed afterComma position s _ _ s₁ token _ _ _ _ start name s₂ hname
      s₃ hasNamed' operand calls s₄ hoperand given s₅ hgiven position' _ s₆ _ others later s₇
      hothers =>
    intro ih
    have h := given_yields (ih fuel fuel.lt_succ_self) hname hoperand hgiven
    have h' := (ih fuel fuel.lt_succ_self).arguments hasNamed' true position' (s₆.pop 1)
    rw [hothers] at h'
    exact .arguments (h.after (.skipLayout s)) ((Reaches.skipLayout s₅).trans (.pop s₆ 1)) h'
  -- without a comma, the next round closes the argument list
  | case10 fuel hasNamed afterComma position s _ _ s₁ token _ _ _ _ start name s₂ hname
      s₃ hasNamed' operand calls s₄ hoperand given s₅ hgiven position' _ s₆ _ others later s₇
      hothers
  | case11 fuel hasNamed afterComma position s _ _ s₁ token _ _ _ _ start name s₂ hname
      s₃ hasNamed' operand calls s₄ hoperand given s₅ hgiven position' _ s₆ _ others later s₇
      hothers
  | case12 fuel hasNamed afterComma position s _ _ s₁ token _ _ _ _ start name s₂ hname
      s₃ hasNamed' operand calls s₄ hoperand given s₅ hgiven position' _ s₆ _ others later s₇
      hothers =>
    intro ih
    have h := given_yields (ih fuel fuel.lt_succ_self) hname hoperand hgiven
    have h' := (ih fuel fuel.lt_succ_self).arguments hasNamed' false position' s₆
    rw [hothers] at h'
    exact .arguments (h.after (.skipLayout s)) (.skipLayout s₅) h'
  -- something else follows the argument, and the rest of the list is skipped
  | case13 fuel hasNamed afterComma position s _ _ s₁ token _ _ _ _ start name s₂ hname
      s₃ operand calls s₄ hoperand given s₅ hgiven _ s₆ =>
    intro ih
    have h := given_yields (ih fuel fuel.lt_succ_self) hname hoperand hgiven
    have hskip := ((Reaches.skipLayout s₅).trans (.record s₆ (by decide))).trans
      (.skipToClosing (s₆.record .expectedCommaOrParenthesis))
    exact (h.after (.skipLayout s)).before hskip

/-- The five functions that parse expressions yield the spans of what they
return. -/
theorem returnsAll (fuel : Nat) : ReturnsAll fuel := by
  -- each function calls the others with one step less
  induction fuel using Nat.strongRecOn with
  | ind fuel ih =>
    exact
      { primary := fun s => primary_returns fuel s ih
        expression := fun setting s => expression_returns fuel setting s ih
        tail := fun setting depth consumed s => tail_returns fuel setting depth consumed s ih
        call := fun s => call_returns fuel s ih
        arguments := fun hasNamed afterComma position s =>
          arguments_returns fuel hasNamed afterComma position s ih }

-- ---------------------------------------------------------------------------
-- Statements
-- ---------------------------------------------------------------------------

/-- A call of a statement and the calls in its arguments are of the same stretch. -/
theorem callWithInner_yields (s : State) :
    Yields s (Call.spansAll s.callWithInner.1) s.callWithInner.2 :=
  (returnsAll (fuelFor s.queue)).call s

theorem scanLine_yields (fuel depth : Nat) (s : State) :
    Yields s (Call.spansAll (scanLine fuel depth s).1) (scanLine fuel depth s).2 := by
  fun_induction scanLine fuel depth s with
  | case17 fuel depth s _ word _ found s₁ hcall later s₂ hlater _ ih =>
    have h := callWithInner_yields s
    rw [hcall] at h
    rw [hlater] at ih
    simpa using h.append ih
  | case13 fuel s _ _ ih
  | case15 fuel s _ _ ih =>
    exact ih.after ((Reaches.record s (by decide)).trans (.pop _ 1))
  | _ =>
    -- every other branch stops here or takes one token and goes on
    first
    | exact .refl _
    | exact Yields.after (.pop _ 1) (by assumption)

/-- The value of a variable is an expression, or nothing is kept of it but its calls. -/
theorem assignedValue_returns (s : State) :
    Returns (fun value => value.toList.flatMap Value.spans) s (assignedValue s) := by
  have hread := (returnsAll (fuelFor s.queue)).expression .statement s
  fun_cases assignedValue s with
  | case1 | case2 => exact .refl s
  | case3 | case4 | case5 | case6 | case7 => exact .of_reaches (.record s (by decide))
  -- a value that is kept: an operand alone, or a call alone
  | case8 token _ _ _ _ _ _ _ value calls s' hvalue =>
    rw [← State.expression, hvalue] at hread
    simpa [Returns] using hread
  | case9 token _ _ _ _ _ _ _ found calls s' hvalue =>
    rw [← State.expression, hvalue] at hread
    simpa [Returns, Value.spans] using hread
  -- part of an expression, of which only the calls are kept
  | case10 token _ _ _ _ _ _ _ value calls s' _ hvalue =>
    rw [← State.expression, hvalue] at hread
    exact hread.mono (List.subset_append_right ..)
  | case11 token _ _ _ _ _ _ _ calls s' hvalue =>
    rw [← State.expression, hvalue] at hread
    exact hread.before ((Reaches.record s' (by decide)).trans (.skipLine _))

/-- The word `var` may be there or not. -/
theorem Reaches.popIf (s : State) (b : Bool) : Reaches s (if b then s.pop 1 else s) := by
  split
  · exact pop s 1
  · exact refl s

/-- A declaration is placed from its first token to the end of its line. -/
theorem declaration_returns (s : State) : Returns Node.spansAll s (declaration s) := by
  fun_cases declaration s with
  | case1 isVar s₁ =>
    exact .of_reaches (((Reaches.popIf s isVar).trans (.record s₁ (by decide))).trans (.skipLine _))
  | case2 start isVar s₁ type _ typeName s₂ name span op rest hq _ value calls s₃ hvalue later s₄
      hlater node =>
    -- in front of the name stand a word such as `var` and the type, if they do
    have htype : Reaches s s₂ := (Reaches.popIf s isVar).trans (.pop s₁ type.length)
    have hassigned := assignedValue_returns (s₂.pop 2)
    rw [hvalue] at hassigned
    have hline := scanLine_yields (s₃.queue.length + 1) 0 s₃
    rw [← State.scanLine, hlater] at hline
    have hname := (Yields.front hq).before (.pop s₂ 2)
    have h := ((hname.append hassigned).append hline).after htype
    simpa [Returns, Node.spansAll, Node.spans, Declaration.spans, node] using
      (Yields.here s).spanFrom h
  | case3 isVar s₁ type _ s₂ =>
    exact .of_reaches (((Reaches.popIf s isVar).trans (.pop s₁ _)).trans (.pop s₂ 1))

/-- All nodes of a statement are of the stretch that it takes. -/
theorem statement_yields (s : State) :
    Yields s (Node.spansAll (statement s).1) (statement s).2 := by
  have hdeclaration := declaration_returns s
  have hline := scanLine_yields (s.queue.length + 1) 0 s
  fun_cases statement s with
  | case1 => exact .refl s
  | case2 | case3 => exact .of_reaches (.skipDefinition s)
  | case4 => exact .of_reaches (.skipLine s)
  | case5 | case6 => exact .of_reaches (.pop s 1)
  -- declarations
  | case7 withCalls nodes calls s' h
  | case8 withCalls nodes calls s' h
  | case10 withCalls _ _ _ nodes calls s' h =>
    rw [h] at hdeclaration
    simpa [withCalls, Returns] using hdeclaration
  | case9 => exact .of_reaches (.skipHead s)
  -- lines of which only the calls are kept
  | case11 withCalls _ _ _ calls s' h
  | case12 withCalls _ _ calls s' h =>
    rw [← State.scanLine, h] at hline
    simpa [withCalls] using hline

/-- Every statement of a script yields the spans of its nodes. -/
theorem statements_yields (fuel : Nat) (s : State) :
    Yields s (Node.spansAll (statements fuel s).1) (statements fuel s).2 := by
  fun_induction statements fuel s with
  | case8 fuel s _ token _ _ _ _ _ nodes s₁ hnodes others s₂ hothers ih =>
    have h := statement_yields s
    rw [hnodes] at h
    rw [hothers] at ih
    simpa using h.append ih
  | case5 fuel s _ _ ih | case6 fuel s _ _ ih | case7 fuel s _ _ ih => exact ih.after (.pop s 1)
  | _ => exact .refl _

end Parser

end PineCheck
