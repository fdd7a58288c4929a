import Mathlib.Data.List.MinMax
import PineCheck.Proofs.Lookahead

/-!
# PineCheck — parsing the tokens of an expression

On the tokens of an expression the parser records nothing, so each of its
functions returns the state behind `State.pop` and nothing else. What is proved
about a function is therefore which value it returns and how many tokens it takes.

* `Parses` says what parsing an expression gives, whatever stands behind the token
  that ends it.
* `ArgumentEnds` says where an argument ends: before a comma or a parenthesis, or where
  the next statement interrupts.
* `arguments_list` goes through a list of arguments that parse, whatever ends it, and
  `call_parse` through a call with such arguments.
* `parses` is the induction on expressions.

Two steps of fuel for each token are enough everywhere: an argument costs one step
for itself and one for its expression, and its tokens come on top.
-/

namespace PineCheck.Parser

-- ---------------------------------------------------------------------------
-- Taking tokens
-- ---------------------------------------------------------------------------

namespace State

/-- The tokens that are still to be parsed. -/
def tokens (s : State) : List Token :=
  s.queue.map Placed.token

theorem length_tokens (s : State) : s.tokens.length = s.queue.length :=
  List.length_map _

@[simp] theorem tokens_pop (s : State) (n : Nat) : (s.pop n).tokens = s.tokens.drop n :=
  List.map_drop ..

@[simp] theorem isHalted_pop (s : State) (n : Nat) : (s.pop n).isHalted = s.isHalted := rfl

@[simp] theorem depth_pop (s : State) (n : Nat) : (s.pop n).depth = s.depth := rfl

theorem front?_eq (s : State) : s.front? = s.tokens.head? := by
  rw [front?, tokens, List.head?_map]

@[simp] theorem pop_zero (s : State) : s.pop 0 = s := rfl

/-- Tokens can be taken in two steps. -/
@[simp] theorem pop_pop (s : State) (m n : Nat) : (s.pop m).pop n = s.pop (m + n) := by
  -- the token taken last comes from the second step, unless that takes none
  have hlast : (s.queue.take (m + n)).getLast? =
      ((s.queue.drop m).take n).getLast?.or (s.queue.take m).getLast? := by
    rw [List.take_add, List.getLast?_append]
  simp only [pop, List.drop_drop, hlast]
  cases ((s.queue.drop m).take n).getLast? <;> rfl

/-- What stands behind known tokens. -/
theorem tokens_behind {s : State} {tokens rest : List Token} (h : s.tokens = tokens ++ rest) :
    (s.pop tokens.length).tokens = rest :=
  tokens_drop h

theorem length_take_queue {s : State} {tokens rest : List Token} (h : s.tokens = tokens ++ rest) :
    (s.queue.take tokens.length).length = tokens.length := by
  rw [← List.length_map, tokens_take h]

/-- A state one parenthesis further inside. -/
def deeper (s : State) : State :=
  { s with depth := s.depth + 1 }

@[simp] theorem tokens_deeper (s : State) : s.deeper.tokens = s.tokens := rfl

@[simp] theorem isHalted_deeper (s : State) : s.deeper.isHalted = s.isHalted := rfl

@[simp] theorem depth_deeper (s : State) : s.deeper.depth = s.depth + 1 := rfl

/-- Below the limit a level is entered. -/
theorem enter_eq {s : State} (h : s.depth < maxDepth) : s.enter = (true, s.deeper) := by
  rw [enter, if_neg (by omega)]
  rfl

/-- Inside a parenthesis tokens are taken as outside. -/
@[simp] theorem leave_pop_deeper (s : State) (n : Nat) : (s.deeper.pop n).leave = s.pop n := rfl

/-- Without marks of layout ahead nothing is skipped. -/
theorem skipLayout_eq {s : State} {t : Token} {rest : List Token} (h : s.tokens = t :: rest)
    (ht : isLayout t = false) : s.skipLayout = s := by
  obtain ⟨placed, queue, hq, rfl, _⟩ := List.map_eq_cons_iff.mp h
  have hlength : layoutLength s.queue = 0 := by
    rw [layoutLength, hq, List.takeWhile_cons_of_neg (by simp [ht]), List.length_nil]
  rw [skipLayout, hlength, pop_zero]

/-- In front of a token that is no layout nothing is interrupted. -/
theorem isInterrupted_eq {s : State} {t : Token} {rest : List Token} (h : s.tokens = t :: rest)
    (ht : isLayout t = false) : s.isInterrupted = false := by
  obtain ⟨placed, queue, hq, rfl, _⟩ := List.map_eq_cons_iff.mp h
  rw [isInterrupted, hq, interrupts]
  split <;> simp_all [isLayout]

/-- Only a bracket starts an index. -/
theorem skipIndex_eq {s : State} {t : Token} {rest : List Token} (h : s.tokens = t :: rest)
    (ht : t ≠ .punctuation .bracketLeft) : s.skipIndex = s := by
  rw [skipIndex, front?_eq, h, List.head?_cons, if_neg (by simpa using ht)]

end State

open Script

-- ---------------------------------------------------------------------------
-- Operands
-- ---------------------------------------------------------------------------

/-- A token ends an expression that stands in a statement of its own or in an
argument list. -/
inductive Closes : Setting → Token → Prop where
  | newline : Closes .statement .newline
  | comma : Closes .arguments (.punctuation .comma)
  | parenRight : Closes .arguments (.punctuation .parenRight)

/-- Parsing an expression gives its value and takes its tokens, whatever stands
behind the token that ends it. -/
def Parses (e : Expr) : Prop :=
  ∀ (fuel : Nat) (s : State) (setting : Setting) (t : Token) (rest : List Token),
    s.tokens = e.tokens ++ t :: rest → Closes setting t → s.isHalted = false →
    s.depth + e.height ≤ State.maxDepth → 2 * e.tokens.length ≤ fuel →
      ∃ v : Value, v.unplaced = e.value ∧
        primary fuel s = (some (v, false), [], s.pop e.tokens.length)

namespace Closes

variable {setting : Setting} {t : Token}

theorem ne_dot (h : Closes setting t) : t ≠ .punctuation .dot := by
  cases h <;> nofun

theorem ne_less (h : Closes setting t) : t ≠ .operator .less := by
  cases h <;> nofun

theorem ne_parenLeft (h : Closes setting t) : t ≠ .punctuation .parenLeft := by
  cases h <;> nofun

theorem ne_bracketLeft (h : Closes setting t) : t ≠ .punctuation .bracketLeft := by
  cases h <;> nofun

end Closes

/-- A token that is a literal is an operand of its own. -/
theorem primary_literal {fuel : Nat} {s : State} {literal t : Token} {rest : List Token}
    {kind : LiteralKind} {raw : String} (h : s.tokens = literal :: t :: rest)
    (hliteral : literalOf? literal = some (kind, raw)) (ht : t ≠ .punctuation .bracketLeft) :
    ∃ span, primary (fuel + 1) s = (some (.literal ⟨kind, raw, span⟩, false), [], s.pop 1) := by
  have hskip : (s.pop 1).skipIndex = s.pop 1 :=
    State.skipIndex_eq (by rw [State.tokens_pop, h, List.drop_one, List.tail_cons]) ht
  obtain ⟨front, queue, hqueue, rfl, _⟩ := List.map_eq_cons_iff.mp h
  refine ⟨front.span, ?_⟩
  rw [primary, hqueue]
  simp only [hliteral, hskip]

/-- A name before the end of an expression is an operand. -/
theorem primary_name {fuel : Nat} {s : State} {name : Name} {setting : Setting} {t : Token}
    {rest : List Token} (h : s.tokens = name.tokens ++ t :: rest) (ht : Closes setting t) :
    ∃ span, primary (fuel + 1) s =
      (some (.identifier ⟨name.text, span⟩, false), [], s.pop name.tokens.length) := by
  have hskip : (s.pop name.tokens.length).skipIndex = s.pop name.tokens.length :=
    State.skipIndex_eq (State.tokens_behind h) ht.ne_bracketLeft
  have hcall : isCallAhead s.queue = false := by
    rw [isCallAhead_chain h ⟨ht.ne_dot, ht.ne_less⟩]
    exact decide_eq_false ht.ne_parenLeft
  have hname := name_chain h ht.ne_dot
  have hlength := State.length_take_queue h
  obtain ⟨front, queue, hqueue, hfront, _⟩ := List.map_eq_cons_iff.mp h
  refine ⟨(s.pop name.tokens.length).spanFrom front.span, ?_⟩
  rw [primary, hqueue]
  simp only [hfront, literalOf?]
  rw [← hqueue, if_neg (ne_true_of_eq_false hcall), hname]
  simp only [hlength, textOf_chain h, isColorConstant_name, hskip]
  rfl

/-- A call before the end of an expression is an operand. -/
theorem primary_call {fuel : Nat} {s s' : State} {function : Chain} {rest : List Token}
    {found : Call} (h : s.tokens = function.tokens ++ .punctuation .parenLeft :: rest)
    (hcall : call fuel s = (found, [], s')) (hskip : s'.skipIndex = s') :
    primary (fuel + 1) s = (some (.call found, false), [], s') := by
  obtain ⟨front, queue, hqueue, hfront, _⟩ := List.map_eq_cons_iff.mp h
  rw [primary, hqueue]
  simp only [hfront, literalOf?]
  rw [← hqueue, if_pos (isCallAhead_call h)]
  simp only [hcall, hskip]

-- ---------------------------------------------------------------------------
-- Expressions
-- ---------------------------------------------------------------------------

/-- A token can start an expression. -/
inductive StartsOperand : Token → Prop where
  | number (text : String) : StartsOperand (.number text)
  | string (contents : String) : StartsOperand (.string contents)
  | boolean (value : Bool) : StartsOperand (.boolean value)
  | color (text : String) : StartsOperand (.color text)
  | identifier (text : String) : StartsOperand (.identifier text)

/-- An expression starts with an operand, and a name at its start is not given
anything. -/
theorem tokens_eq_cons (e : Expr) : ∃ t ts, e.tokens = t :: ts ∧ StartsOperand t ∧
    ts.head? ≠ some (.operator .assignment) := by
  cases e with
  | atom a =>
    cases a with
    | number | string | boolean | color => exact ⟨_, _, rfl, by constructor, nofun⟩
    | name name =>
      refine ⟨_, _, rfl, .identifier _, ?_⟩
      cases name.others <;> exact nofun
  | call function positional named =>
    refine ⟨_, _, Expr.tokens_call .., .identifier _, ?_⟩
    cases function.others <;> exact nofun

/-- An expression has a token at least. -/
theorem length_tokens_pos (e : Expr) : 0 < e.tokens.length := by
  obtain ⟨t, ts, h, _⟩ := tokens_eq_cons e
  rw [h]
  exact Nat.succ_pos _

/-- Nothing follows an expression before the token that ends it. -/
theorem tail_closes {fuel : Nat} {s : State} {setting : Setting} {t : Token} {rest : List Token}
    (h : s.tokens = t :: rest) (ht : Closes setting t) (hhalted : s.isHalted = false) :
    tail (fuel + 1) setting 0 false s = (false, [], s) := by
  rw [tail, if_neg (ne_true_of_eq_false hhalted), State.front?_eq, h]
  cases ht with
  | newline => rfl
  | comma => rfl
  | parenRight => rfl

/-- Nothing follows an expression at the end of a line, if the next statement starts behind
it. -/
theorem tail_interrupted {fuel : Nat} {s : State} (setting : Setting) {rest : List Token}
    (h : s.tokens = .newline :: rest) (hbreak : s.isInterrupted = true)
    (hhalted : s.isHalted = false) : tail (fuel + 1) setting 0 false s = (false, [], s) := by
  rw [tail, if_neg (ne_true_of_eq_false hhalted), State.front?_eq, h]
  exact if_pos (by rw [hbreak, Bool.or_true])

/-- An expression that parses and that nothing follows is found as a whole. -/
theorem expression_of_tail {e : Expr} (he : Parses e) {fuel : Nat} {s : State}
    {setting inside : Setting} {t : Token} {rest : List Token}
    (h : s.tokens = e.tokens ++ t :: rest) (ht : Closes inside t) (hhalted : s.isHalted = false)
    (hdepth : s.depth + e.height ≤ State.maxDepth) (hfuel : 2 * e.tokens.length < fuel)
    (htail : ∀ n, tail (n + 1) setting 0 false (s.pop e.tokens.length) =
      (false, [], s.pop e.tokens.length)) :
    ∃ v : Value, v.unplaced = e.value ∧
      expression fuel setting s = (some (v, false), [], s.pop e.tokens.length) := by
  have hpos := length_tokens_pos e
  obtain ⟨fuel, rfl⟩ : ∃ n, fuel = n + 2 := ⟨fuel - 2, by omega⟩
  obtain ⟨v, hv, hprimary⟩ := he (fuel + 1) s inside t rest h ht hhalted hdepth (by omega)
  refine ⟨v, hv, ?_⟩
  rw [expression, hprimary]
  simp only [htail]
  rfl

/-- An expression that parses is found as a whole. -/
theorem expression_parse {e : Expr} (he : Parses e) {fuel : Nat} {s : State} {setting : Setting}
    {t : Token} {rest : List Token} (h : s.tokens = e.tokens ++ t :: rest)
    (ht : Closes setting t) (hhalted : s.isHalted = false)
    (hdepth : s.depth + e.height ≤ State.maxDepth) (hfuel : 2 * e.tokens.length < fuel) :
    ∃ v : Value, v.unplaced = e.value ∧
      expression fuel setting s = (some (v, false), [], s.pop e.tokens.length) :=
  expression_of_tail he h ht hhalted hdepth hfuel fun _ =>
    tail_closes (State.tokens_behind h) ht hhalted

-- ---------------------------------------------------------------------------
-- Arguments
-- ---------------------------------------------------------------------------

/-- The tokens before the value of an argument. -/
def labelLength : Option Word → Nat
  | none => 0
  | some _ => 2

/-- The tokens of an argument are those of its name and of its value. -/
theorem length_argumentTokens (word : Option Word) (tokens : List Token) :
    (Expr.argumentTokens (word, tokens)).length = labelLength word + tokens.length := by
  cases word with
  | none => exact (Nat.zero_add _).symm
  | some word =>
    simp only [Expr.argumentTokens, List.length_cons, labelLength]
    omega

/-- An argument starts with an operand, be it its name. -/
theorem argumentTokens_eq_cons (word : Option Word) (e : Expr) :
    ∃ t ts, Expr.argumentTokens (word, e.tokens) = t :: ts ∧ StartsOperand t := by
  cases word with
  | none =>
    obtain ⟨t, ts, htokens, ht, _⟩ := tokens_eq_cons e
    exact ⟨t, ts, htokens, ht⟩
  | some word => exact ⟨_, _, rfl, .identifier _⟩

/-- The name of an argument is found if there is one. -/
theorem argumentName_eq {s : State} {word : Option Word} {e : Expr} {t : Token}
    {rest : List Token} (h : s.tokens = Expr.argumentTokens (word, e.tokens) ++ t :: rest)
    (ht : t ≠ .operator .assignment) :
    ∃ name : Option Identifier,
      name.map (fun name => { name with span := default }) =
        word.map (fun word => ⟨word.text, default⟩) ∧
      s.argumentName = (name, s.pop (labelLength word)) := by
  cases word with
  | none =>
    refine ⟨none, rfl, ?_⟩
    obtain ⟨u, us, htokens, -, hus⟩ := tokens_eq_cons e
    rw [Expr.argumentTokens, htokens] at h
    obtain ⟨front, queue, hqueue, -, hrest⟩ := List.map_eq_cons_iff.mp h
    rw [State.argumentName, hqueue]
    cases queue with
    | nil => rfl
    | cons next queue =>
      -- behind a name at the start of an expression stands `.`, `(` or the end of it
      have hnext : next.token ≠ .operator .assignment := by
        cases us with
        | nil => exact (List.cons.inj hrest).1 ▸ ht
        | cons v us => exact (List.cons.inj hrest).1 ▸ fun hv => hus (congrArg some hv)
      simp only [if_neg hnext]
      split <;> rfl
  -- the name and the `=` behind it
  | some word =>
    obtain ⟨label, queue, hqueue, hlabel, hrest⟩ := List.map_eq_cons_iff.mp h
    obtain ⟨op, queue, rfl, hop, _⟩ := List.map_eq_cons_iff.mp hrest
    refine ⟨some ⟨word.text, label.span⟩, rfl, ?_⟩
    rw [State.argumentName, hqueue]
    simp only [hlabel, hop, if_true, labelLength]

/-- An argument ends before a comma or the closing parenthesis, or at the end of a line if
the next statement starts behind it. -/
def ArgumentEnds (s : State) (t : Token) : Prop :=
  Closes .arguments t ∨ (t = .newline ∧ s.isInterrupted = true)

/-- An argument does not end at an assignment. -/
theorem ArgumentEnds.ne_assignment {s : State} {t : Token} (h : ArgumentEnds s t) :
    t ≠ .operator .assignment := by
  rcases h with h | ⟨rfl, -⟩
  · cases h <;> nofun
  · nofun

/-- The value of an argument is found as a whole. -/
theorem expression_argument {e : Expr} (he : Parses e) {fuel : Nat} {s : State} {t : Token}
    {rest : List Token} (h : s.tokens = e.tokens ++ t :: rest)
    (ht : ArgumentEnds (s.pop e.tokens.length) t) (hhalted : s.isHalted = false)
    (hdepth : s.depth + e.height ≤ State.maxDepth) (hfuel : 2 * e.tokens.length < fuel) :
    ∃ v : Value, v.unplaced = e.value ∧
      expression fuel .arguments s = (some (v, false), [], s.pop e.tokens.length) := by
  rcases ht with ht | ⟨rfl, hbreak⟩
  · exact expression_parse he h ht hhalted hdepth hfuel
  · exact expression_of_tail he h .newline hhalted hdepth hfuel fun _ =>
      tail_interrupted .arguments (State.tokens_behind h) hbreak hhalted

/-- An argument is followed by the other arguments, behind the comma if there is one. -/
theorem arguments_operand {fuel position : Nat} {hasNamed afterComma isExpression : Bool}
    {s s₁ s₂ : State} {u t : Token} {us rest : List Token} {name : Option Identifier} {v : Value}
    {calls : List Call} (hfront : s.tokens = u :: us) (hu : StartsOperand u)
    (hhalted : s.isHalted = false) (hname : s.argumentName = (name, s₁))
    (hpositional : (name.isNone && hasNamed) = false)
    (hexpression : expression fuel .arguments s₁ = (some (v, isExpression), calls, s₂))
    (hbehind : s₂.tokens = t :: rest) (ht : ArgumentEnds s₂ t) :
    arguments (fuel + 1) hasNamed afterComma position s =
      let (others, later, s₃) := arguments fuel (hasNamed || name.isSome)
        (t = .punctuation .comma) (position + 1)
        (if t = .punctuation .comma then s₂.pop 1 else s₂)
      (⟨name, v, position, isExpression, s₂.spanFrom s.here⟩ :: others, calls ++ later, s₃) := by
  have hlayout : isLayout u = false := by
    cases hu <;> rfl
  rw [arguments, if_neg (ne_true_of_eq_false hhalted),
    if_neg (ne_true_of_eq_false (State.isInterrupted_eq hfront hlayout))]
  simp only [State.skipLayout_eq hfront hlayout]
  rw [State.front?_eq, hfront, List.head?_cons]
  -- the cases in which no argument starts come first
  split
  · contradiction
  · next heq => cases heq; exact nomatch hu
  · next heq => cases heq; exact nomatch hu
  · next heq => cases heq; exact nomatch hu
  · simp only [hname, hpositional, Bool.false_eq_true, if_false, hexpression]
    -- behind the value stands a comma or a parenthesis, or the line ends
    rcases ht with ht | ⟨rfl, hbreak⟩
    · have hlayout : isLayout t = false := by
        cases ht <;> rfl
      simp only [State.isInterrupted_eq hbehind hlayout, State.skipLayout_eq hbehind hlayout]
      rw [State.front?_eq, hbehind, List.head?_cons]
      cases ht with
      | comma => rfl
      | parenRight => rfl
    · simp only [hbreak, if_true]
      rfl

/-- The first argument has the name and the value that stand there, and is followed by
the other arguments. -/
theorem arguments_first {word : Option Word} {e : Expr} (he : Parses e) {fuel : Nat}
    (position : Nat) {hasNamed : Bool} (afterComma : Bool) {s : State} {t : Token}
    {rest : List Token} (h : s.tokens = Expr.argumentTokens (word, e.tokens) ++ t :: rest)
    (ht : ArgumentEnds (s.pop (Expr.argumentTokens (word, e.tokens)).length) t)
    (hnamed : hasNamed = true → word.isSome = true)
    (hhalted : s.isHalted = false) (hdepth : s.depth + e.height ≤ State.maxDepth)
    (hfuel : 2 * e.tokens.length < fuel) :
    ∃ (name : Option Identifier) (v : Value),
      name.map (fun name => { name with span := default }) =
        word.map (fun word => ⟨word.text, default⟩) ∧
      s.argumentName.1 = name ∧ v.unplaced = e.value ∧
      (expression fuel .arguments (s.pop (labelLength word))).1 = some (v, false) ∧
      arguments (fuel + 1) hasNamed afterComma position s =
        let (others, later, s₃) := arguments fuel word.isSome (t = .punctuation .comma)
          (position + 1) (if t = .punctuation .comma then
            (s.pop (Expr.argumentTokens (word, e.tokens)).length).pop 1
            else s.pop (Expr.argumentTokens (word, e.tokens)).length)
        (⟨name, v, position, false,
          (s.pop (Expr.argumentTokens (word, e.tokens)).length).spanFrom s.here⟩ :: others,
          later, s₃) := by
  obtain ⟨u, us, hfirst, hu⟩ := argumentTokens_eq_cons word e
  have hfront : s.tokens = u :: (us ++ t :: rest) := by
    rw [h, hfirst, List.cons_append]
  obtain ⟨name, hname, hlabel⟩ := argumentName_eq h ht.ne_assignment
  have hsome : name.isSome = word.isSome := by
    simpa using congrArg Option.isSome hname
  -- as names come last, no problem is recorded, and one name tells of all that follow
  have hpositional : (name.isNone && hasNamed) = false := by
    cases hasNamed with
    | false => exact Bool.and_false _
    | true => rw [Bool.and_true, Option.isNone_eq_false_iff, hsome, hnamed rfl]
  have hhasNamed : (hasNamed || name.isSome) = word.isSome := by
    rw [hsome]
    cases hasNamed with
    | false => rfl
    | true => exact (hnamed rfl).symm
  -- behind the name, the value stands in front
  have hvalue : (s.pop (labelLength word)).tokens = e.tokens ++ t :: rest := by
    rw [State.tokens_pop, h]
    cases word <;> rfl
  have hends : ArgumentEnds ((s.pop (labelLength word)).pop e.tokens.length) t := by
    rwa [State.pop_pop, ← length_argumentTokens]
  obtain ⟨v, hv, hexpression⟩ := expression_argument he hvalue hends hhalted hdepth hfuel
  refine ⟨name, v, hname, congrArg Prod.fst hlabel, hv, congrArg Prod.fst hexpression, ?_⟩
  rw [State.pop_pop, ← length_argumentTokens] at hexpression
  rw [arguments_operand hfront hu hhalted hlabel hpositional hexpression (State.tokens_behind h)
    ht, hhasNamed]
  rfl

/-- One argument is taken as a whole, with the comma behind it if there is one. -/
theorem arguments_step {word : Option Word} {e : Expr} (he : Parses e) {fuel position : Nat}
    {hasNamed : Bool} (afterComma : Bool) {s s' : State} {t : Token} {rest : List Token}
    {others : List Argument}
    (h : s.tokens = Expr.argumentTokens (word, e.tokens) ++ t :: rest)
    (ht : ArgumentEnds (s.pop (Expr.argumentTokens (word, e.tokens)).length) t)
    (hnamed : hasNamed = true → word.isSome = true)
    (hhalted : s.isHalted = false) (hdepth : s.depth + e.height ≤ State.maxDepth)
    (hfuel : 2 * e.tokens.length < fuel)
    (hothers : arguments fuel word.isSome (t = .punctuation .comma) (position + 1)
      (if t = .punctuation .comma then (s.pop (Expr.argumentTokens (word, e.tokens)).length).pop 1
        else s.pop (Expr.argumentTokens (word, e.tokens)).length) = (others, [], s')) :
    ∃ argument : Argument,
      argument.unplaced = ⟨word.map fun word => ⟨word.text, default⟩, e.value, position, false,
        default⟩ ∧
      arguments (fuel + 1) hasNamed afterComma position s = (argument :: others, [], s') := by
  obtain ⟨name, v, hname, -, hv, -, heq⟩ :=
    arguments_first he position afterComma h ht hnamed hhalted hdepth hfuel
  refine ⟨⟨name, v, position, false,
    (s.pop (Expr.argumentTokens (word, e.tokens)).length).spanFrom s.here⟩, ?_, ?_⟩
  · rw [Argument.unplaced, hname, hv]
  · rw [heq, hothers]

/-- The last argument ends where the list of them does, unless a comma stands there. -/
theorem arguments_last {word : Option Word} {e : Expr} (he : Parses e) {fuel position : Nat}
    {hasNamed hasComma : Bool} (afterComma : Bool) {s s' behind : State} {t : Token}
    {rest : List Token} (ht : t ≠ .punctuation .comma)
    (hends : hasComma = false → ArgumentEnds behind t)
    (h : s.tokens = Expr.argumentTokens (word, e.tokens) ++
      ((if hasComma then [.punctuation .comma] else []) ++ t :: rest))
    (hbehind : s.pop ((Expr.argumentTokens (word, e.tokens)).length + hasComma.toNat) = behind)
    (hnamed : hasNamed = true → word.isSome = true)
    (hhalted : s.isHalted = false) (hdepth : s.depth + e.height ≤ State.maxDepth)
    (hfuel : 2 * e.tokens.length < fuel)
    (hend : arguments fuel word.isSome hasComma (position + 1) behind = ([], [], s')) :
    ∃ argument : Argument,
      argument.unplaced = ⟨word.map fun word => ⟨word.text, default⟩, e.value, position, false,
        default⟩ ∧
      arguments (fuel + 1) hasNamed afterComma position s = ([argument], [], s') := by
  cases hasComma with
  -- without a comma the argument ends where the list does
  | false =>
    obtain rfl : s.pop (Expr.argumentTokens (word, e.tokens)).length = behind := hbehind
    refine arguments_step he afterComma h (hends rfl) hnamed hhalted hdepth hfuel ?_
    rwa [decide_eq_false ht, if_neg ht]
  | true =>
    obtain rfl : (s.pop (Expr.argumentTokens (word, e.tokens)).length).pop 1 = behind := by
      rw [State.pop_pop]
      exact hbehind
    exact arguments_step he afterComma h (.inl .comma) hnamed hhalted hdepth hfuel hend

/-- A closing parenthesis ends the arguments, unless a comma stands before it. -/
theorem arguments_close {fuel position : Nat} {hasNamed : Bool} {s : State} {rest : List Token}
    (h : s.tokens = .punctuation .parenRight :: rest) (hhalted : s.isHalted = false) :
    arguments (fuel + 1) hasNamed false position s = ([], [], s.pop 1) := by
  rw [arguments, if_neg (ne_true_of_eq_false hhalted),
    if_neg (ne_true_of_eq_false (State.isInterrupted_eq h rfl))]
  simp only [State.skipLayout_eq h rfl]
  rw [State.front?_eq, h]
  rfl

/-- Arguments without names do not follow arguments with names. -/
abbrev Ordered (hasNamed : Bool) (given : List (Option Word × Expr)) : Prop :=
  (hasNamed :: given.map fun argument => argument.1.isSome).Pairwise fun a b =>
    a = true → b = true

/-- The tokens between the parentheses of a call. -/
abbrev insideTokens (given : List (Option Word × Expr)) : List Token :=
  Expr.joinedTokens (Expr.mapArguments Expr.tokens given)

section Next

variable (word : Option Word) (e : Expr) (next : Option Word × Expr)
  (given : List (Option Word × Expr))

/-- The tokens of an argument list: the first argument, a comma and the others. -/
theorem length_insideTokens_cons :
    (insideTokens ((word, e) :: next :: given)).length =
      (Expr.argumentTokens (word, e.tokens)).length + 1 +
        (insideTokens (next :: given)).length := by
  show (Expr.argumentTokens (word, e.tokens) ++ Token.punctuation .comma ::
    insideTokens (next :: given)).length = _
  rw [List.length_append, List.length_cons]
  omega

/-- The arguments behind the first one and the comma behind it. -/
theorem tokens_behind_argument {s : State} {rest : List Token}
    (h : s.tokens = Expr.argumentTokens (word, e.tokens) ++ .punctuation .comma ::
      (insideTokens (next :: given) ++ rest)) :
    ((s.pop (Expr.argumentTokens (word, e.tokens)).length).pop 1).tokens =
      insideTokens (next :: given) ++ rest := by
  rw [State.tokens_pop, State.tokens_behind h]
  rfl

end Next

/-- The arguments of a call are found one after the other, with the comma that may stand
behind the last one, whatever ends the list there. -/
theorem arguments_list {given : List (Option Word × Expr)}
    (hgiven : ∀ argument ∈ given, Parses argument.2) (hasComma : Bool)
    (hcomma : hasComma = true → given ≠ []) {behind s' : State} {t : Token} {rest : List Token}
    (ht : t ≠ .punctuation .comma) (hends : hasComma = false → ArgumentEnds behind t)
    (hend : ∀ fuel hasNamed position,
      arguments (fuel + 1) hasNamed hasComma position behind = ([], [], s'))
    {fuel position : Nat} {hasNamed afterComma : Bool} {s : State}
    (h : s.tokens = insideTokens given ++
      ((if hasComma then [.punctuation .comma] else []) ++ t :: rest))
    (hbehind : s.pop ((insideTokens given).length + hasComma.toNat) = behind)
    (hordered : Ordered hasNamed given) (hafter : afterComma = true → given ≠ [])
    (hhalted : s.isHalted = false)
    (hdepth : ∀ argument ∈ given, s.depth + argument.2.height ≤ State.maxDepth)
    (hfuel : 2 * (insideTokens given).length + 2 ≤ fuel) :
    ∃ found : List Argument,
      Argument.unplacedAll found =
        Expr.placeArguments position (Expr.mapArguments Expr.value given) ∧
      arguments fuel hasNamed afterComma position s = (found, [], s') := by
  -- a comma promises an argument and a name promises names: `hafter` and `hordered`
  -- carry this from one argument to the next, each of which leads closer to `behind`
  induction given generalizing fuel position hasNamed afterComma s with
  | nil =>
    obtain ⟨fuel, rfl⟩ : ∃ n, fuel = n + 1 := ⟨fuel - 1, by omega⟩
    obtain rfl : hasComma = false := Bool.eq_false_iff.mpr fun htrue => hcomma htrue rfl
    obtain rfl : afterComma = false := Bool.eq_false_iff.mpr fun htrue => hafter htrue rfl
    obtain rfl : s = behind := hbehind
    exact ⟨[], rfl, hend fuel hasNamed position⟩
  | cons argument given ih =>
    obtain ⟨word, e⟩ := argument
    obtain ⟨fuel, rfl⟩ : ∃ n, fuel = n + 2 := ⟨fuel - 2, by omega⟩
    obtain ⟨(he : Parses e), hgiven⟩ := List.forall_mem_cons.mp hgiven
    obtain ⟨(hheight : s.depth + e.height ≤ State.maxDepth), hdepth⟩ :=
      List.forall_mem_cons.mp hdepth
    obtain ⟨hnamed, hordered⟩ := List.pairwise_cons.mp hordered
    replace hnamed := hnamed _ List.mem_cons_self
    have hlength := length_argumentTokens word e.tokens
    cases given with
    -- the last argument
    | nil =>
      replace hfuel : 2 * (Expr.argumentTokens (word, e.tokens)).length + 2 ≤ fuel + 2 := hfuel
      obtain ⟨argument, hargument, hlast⟩ := arguments_last he afterComma ht hends h hbehind
        hnamed hhalted hheight (by omega) (hend fuel word.isSome (position + 1))
      exact ⟨[argument], congrArg (· :: []) hargument, hlast⟩
    | cons next given =>
      replace h : s.tokens = Expr.argumentTokens (word, e.tokens) ++ .punctuation .comma ::
        (insideTokens (next :: given) ++
          ((if hasComma then [.punctuation .comma] else []) ++ t :: rest)) :=
          h.trans (List.append_assoc ..)
      have hinside := length_insideTokens_cons word e next given
      -- behind the comma, the others stand in front
      have hnext := tokens_behind_argument word e next given h
      have hlast : ((s.pop (Expr.argumentTokens (word, e.tokens)).length).pop 1).pop
          ((insideTokens (next :: given)).length + hasComma.toNat) = behind := by
        simp only [State.pop_pop, ← hbehind, hinside, Nat.add_assoc]
      have hothers : ∃ found : List Argument,
          Argument.unplacedAll found =
            Expr.placeArguments (position + 1) (Expr.mapArguments Expr.value (next :: given)) ∧
          arguments (fuel + 1) word.isSome true (position + 1)
            ((s.pop (Expr.argumentTokens (word, e.tokens)).length).pop 1) = (found, [], s') :=
        ih hgiven (fun _ => List.cons_ne_nil _ _) hnext hlast hordered
          (fun _ => List.cons_ne_nil _ _) hhalted hdepth (by omega)
      obtain ⟨found, hfound, hothers⟩ := hothers
      obtain ⟨argument, hargument, hstep⟩ := arguments_step he afterComma h (.inl .comma) hnamed
        hhalted hheight (by omega) hothers
      refine ⟨argument :: found, ?_, hstep⟩
      rw [Argument.unplacedAll, hargument, hfound]
      rfl

/-- The arguments of a call are found one after the other, up to and with the parenthesis. -/
theorem arguments_parse {given : List (Option Word × Expr)}
    (hgiven : ∀ argument ∈ given, Parses argument.2) {fuel position : Nat}
    {hasNamed afterComma : Bool} {s : State} {rest : List Token}
    (h : s.tokens = insideTokens given ++ .punctuation .parenRight :: rest)
    (hordered : Ordered hasNamed given) (hcomma : afterComma = true → given ≠ [])
    (hhalted : s.isHalted = false)
    (hdepth : ∀ argument ∈ given, s.depth + argument.2.height ≤ State.maxDepth)
    (hfuel : 2 * (insideTokens given).length + 2 ≤ fuel) :
    ∃ found : List Argument,
      Argument.unplacedAll found =
        Expr.placeArguments position (Expr.mapArguments Expr.value given) ∧
      arguments fuel hasNamed afterComma position s =
        (found, [], s.pop ((insideTokens given).length + 1)) := by
  -- the parenthesis ends the list
  have hclose (fuel : Nat) (hasNamed : Bool) (position : Nat) :
      arguments (fuel + 1) hasNamed false position (s.pop (insideTokens given).length) =
        ([], [], s.pop ((insideTokens given).length + 1)) := by
    rw [arguments_close (State.tokens_behind h) hhalted, State.pop_pop]
  have hne : Token.punctuation .parenRight ≠ .punctuation .comma := nofun
  exact arguments_list hgiven false nofun hne (fun _ => .inl .parenRight) hclose h rfl hordered
    hcomma hhalted hdepth hfuel

-- ---------------------------------------------------------------------------
-- Calls
-- ---------------------------------------------------------------------------

/-- The arguments of a call come in the order that the parser asks for. -/
theorem ordered_arguments (positional : List Expr) (named : List (Word × Expr)) :
    Ordered false (Script.arguments positional named) := by
  rw [Ordered, Script.arguments, List.map_append, List.map_map, List.map_map]
  refine List.pairwise_cons.mpr ⟨?_, List.pairwise_append.mpr ⟨?_, ?_, ?_⟩⟩
  · rintro _ _ ⟨⟩
  · refine List.pairwise_map.mpr (List.pairwise_of_forall fun _ _ => ?_)
    rintro ⟨⟩
  · exact List.pairwise_map.mpr (List.pairwise_of_forall fun _ _ _ => rfl)
  · intro isNamed hmem _ _
    obtain ⟨e, _, rfl⟩ := List.mem_map.mp hmem
    rintro ⟨⟩

/-- An argument of a call is not as high as the call. -/
theorem height_lt_call {function : Chain} {positional : List Expr} {named : List (Word × Expr)}
    {argument : Option Word × Expr} (h : argument ∈ Script.arguments positional named) :
    argument.2.height < (Expr.call function positional named).height := by
  rw [Expr.height_call]
  have hmem : argument.2.height ∈ (Expr.mapArguments Expr.height
      (Script.arguments positional named)).map Prod.snd := by
    rw [List.map_map]
    exact List.mem_map_of_mem h
  exact Nat.lt_succ_of_le (List.le_max_of_le' 0 hmem le_rfl)

/-- A call starts with the name of its function and a parenthesis. -/
theorem tokens_call_append {function : Chain} {positional : List Expr} {named : List (Word × Expr)}
    {tokens rest : List Token}
    (h : tokens = (Expr.call function positional named).tokens ++ rest) :
    tokens = function.tokens ++ .punctuation .parenLeft ::
      (insideTokens (Script.arguments positional named) ++
        .punctuation .parenRight :: rest) := by
  rw [h, Expr.tokens_call]
  simp only [List.append_assoc, List.cons_append, List.nil_append]

/-- The tokens of a call: its name, two parentheses and what is between them. -/
theorem length_call (function : Chain) (positional : List Expr) (named : List (Word × Expr)) :
    (Expr.call function positional named).tokens.length = function.tokens.length + 1 +
      ((insideTokens (Script.arguments positional named)).length + 1) := by
  rw [Expr.tokens_call, List.length_append, List.length_cons, List.length_append,
    List.length_singleton, insideTokens]
  omega

/-- What stands behind the parenthesis of a call. -/
theorem tokens_inside {s : State} {function : Chain} {rest : List Token}
    (h : s.tokens = function.tokens ++ .punctuation .parenLeft :: rest) :
    (s.pop (function.tokens.length + 1)).deeper.tokens = rest := by
  rw [State.tokens_deeper, ← State.pop_pop, State.tokens_pop, State.tokens_behind h]
  rfl

/-- Where a call fits, there is room for one more parenthesis, and inside of it for every
argument. -/
theorem room_inside {s : State} {function : Chain} {positional : List Expr}
    {named : List (Word × Expr)}
    (hdepth : s.depth + (Expr.call function positional named).height ≤ State.maxDepth) (n : Nat) :
    s.depth < State.maxDepth ∧
      ∀ argument ∈ Script.arguments positional named,
        (s.pop n).deeper.depth + argument.2.height ≤ State.maxDepth := by
  refine ⟨?_, fun argument hmem => ?_⟩
  · rw [Expr.height_call] at hdepth
    omega
  · have hlt : argument.2.height < (Expr.call function positional named).height :=
      height_lt_call hmem
    rw [State.depth_deeper, State.depth_pop]
    omega

/-- A call is found from where it starts on, with the arguments that stand behind its
parenthesis. -/
theorem call_eq {function : Chain} {fuel : Nat} {s : State} {rest : List Token}
    (h : s.tokens = function.tokens ++ .punctuation .parenLeft :: rest)
    (hdepth : s.depth < State.maxDepth) :
    call (fuel + 1) s =
      let (found, calls, s') := arguments fuel false false 0
        (s.pop (function.tokens.length + 1)).deeper
      (⟨function.text, found, s'.leave.spanFrom s.here⟩, calls, s'.leave) := by
  have hopen : (s.pop function.tokens.length).tokens = .punctuation .parenLeft :: rest :=
    State.tokens_behind h
  have henter : (s.pop (function.tokens.length + 1)).enter =
      (true, (s.pop (function.tokens.length + 1)).deeper) :=
    State.enter_eq hdepth
  rw [call, name_chain h nofun]
  simp only [State.length_take_queue h, textOf_chain h]
  rw [generics_eq_nil hopen nofun]
  simp only [List.length_nil, State.pop_zero, State.pop_pop, henter]

/-- A call whose arguments parse is found as a whole. -/
theorem call_parse {function : Chain} {positional : List Expr} {named : List (Word × Expr)}
    (hgiven : ∀ argument ∈ Script.arguments positional named, Parses argument.2) {fuel : Nat}
    {s : State} {rest : List Token}
    (h : s.tokens = (Expr.call function positional named).tokens ++ rest)
    (hhalted : s.isHalted = false)
    (hdepth : s.depth + (Expr.call function positional named).height ≤ State.maxDepth)
    (hfuel : 2 * (Expr.call function positional named).tokens.length ≤ fuel + 1) :
    ∃ found : Call,
      found.unplaced = Expr.callOf function
        (Expr.mapArguments Expr.value (Script.arguments positional named)) ∧
      call fuel s = (found, [], s.pop (Expr.call function positional named).tokens.length) := by
  replace h := tokens_call_append h
  rw [length_call] at hfuel
  have hinside := tokens_inside h
  -- there is room for the call, and one level less for its arguments
  obtain ⟨hlower, hroom⟩ := room_inside hdepth (function.tokens.length + 1)
  obtain ⟨fuel, rfl⟩ : ∃ n, fuel = n + 1 := ⟨fuel - 1, by omega⟩
  obtain ⟨found, hfound, harguments⟩ : ∃ found : List Argument,
      Argument.unplacedAll found = Expr.placeArguments 0
        (Expr.mapArguments Expr.value (Script.arguments positional named)) ∧
      arguments fuel false false 0 (s.pop (function.tokens.length + 1)).deeper = (found, [], _) :=
    arguments_parse hgiven hinside (ordered_arguments positional named) nofun hhalted hroom
      (by omega)
  refine ⟨⟨function.text, found,
    (s.pop (Expr.call function positional named).tokens.length).spanFrom s.here⟩, ?_, ?_⟩
  · rw [Call.unplaced, hfound]
    rfl
  · rw [length_call, call_eq h hlower, harguments]
    simp only [State.leave_pop_deeper, State.pop_pop]

/-- Every expression parses. -/
theorem parses (e : Expr) : Parses e := by
  induction e using Expr.induction with
  | atom a =>
    intro fuel s setting t rest h ht hhalted hdepth hfuel
    obtain ⟨fuel, rfl⟩ : ∃ n, fuel = n + 1 := by
      have := length_tokens_pos (.atom a)
      exact ⟨fuel - 1, by omega⟩
    cases a with
    | number | string | boolean | color =>
      obtain ⟨span, hprimary⟩ := primary_literal h rfl ht.ne_bracketLeft
      exact ⟨_, rfl, hprimary⟩
    | name name =>
      obtain ⟨span, hprimary⟩ := primary_name h ht
      exact ⟨_, rfl, hprimary⟩
  -- a call parses since its arguments do, and nothing behind it is an index
  | call function positional named ih =>
    intro fuel s setting t rest h ht hhalted hdepth hfuel
    obtain ⟨fuel, rfl⟩ : ∃ n, fuel = n + 1 := by
      have := length_tokens_pos (.call function positional named)
      exact ⟨fuel - 1, by omega⟩
    obtain ⟨found, hfound, hcall⟩ := call_parse ih h hhalted hdepth hfuel
    have hskip : (s.pop (Expr.call function positional named).tokens.length).skipIndex =
        s.pop (Expr.call function positional named).tokens.length :=
      State.skipIndex_eq (State.tokens_behind h) ht.ne_bracketLeft
    refine ⟨.call found, ?_, primary_call (tokens_call_append h) hcall hskip⟩
    rw [Value.unplaced, hfound, Expr.value_call]

end PineCheck.Parser
