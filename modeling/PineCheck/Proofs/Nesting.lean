import PineCheck.Proofs.Containment

/-!
# PineCheck — the tree of a script is nested

Every function of the parser reads what lies between the state before it and the
state behind it. `nesting` says this of the functions that call each other, and each
of them gets it from the others (`nesting_steps`).

* `statements_lays` — the statements of a script lie in it.
* `parse_nested` — the tree of every script is nested.
-/

namespace PineCheck

namespace Parser

-- ---------------------------------------------------------------------------
-- Expressions and calls
-- ---------------------------------------------------------------------------

/-- What the functions that read expressions and calls return lies between the states
before and behind them. -/
def nesting : Contract where
  primary s := Lays s (operandValues (Parsers.full.primary s)) (Parsers.full.primary s).2.2
  expression setting s :=
    Lays s (operandValues (Parsers.full.expression setting s))
      (Parsers.full.expression setting s).2.2
  tail setting depth consumed s :=
    Lays s ((Parsers.full.tail setting depth consumed s).2.1.map .call)
      (Parsers.full.tail setting depth consumed s).2.2
  call s :=
    Lays s ((.call (Parsers.full.call s).1) :: (Parsers.full.call s).2.1.map .call)
      (Parsers.full.call s).2.2
  arguments hasNamed afterComma position s :=
    Lays s ((Parsers.full.arguments hasNamed afterComma position s).2.1.map .call)
      (Parsers.full.arguments hasNamed afterComma position s).2.2 ∧
    (s.Ordered → s.Behind → Listed position s
      (Parsers.full.arguments hasNamed afterComma position s).2.2
      (Parsers.full.arguments hasNamed afterComma position s).1)

/-- A literal is a token that is spelled out in the source. -/
theorem spelled_of_literal {token : Token} {kind : LiteralKind} {raw : String}
    (h : literalOf? token = some (kind, raw)) : Lexer.isUnspelled token = false := by
  cases token <;> first | rfl | cases h

@[simp] theorem operandValues_none (calls : List Call) (s : State) :
    operandValues (none, calls, s) = calls.map .call := rfl

@[simp] theorem operandValues_some (value : Value) (isCompound : Bool) (calls : List Call)
    (s : State) :
    operandValues (some (value, isCompound), calls, s) = value :: calls.map .call := rfl

/-- An operand keeps its value when it is closed. -/
theorem closed_lays {s : State} {r : Option (Value × Bool) × List Call × State}
    (h : Lays s (operandValues r) r.2.2) : Lays s (operandValues (closed r)) (closed r).2.2 := by
  obtain ⟨operand, calls, s'⟩ := r
  have hbefore := h.before (closed_reaches (operand, calls, s'))
  cases operand <;> exact hbefore

/-- The sign before an operand leaves what was read where it lies. -/
theorem signed_lays {s : State} {r : Option (Value × Bool) × List Call × State}
    (h : Lays s (operandValues r) r.2.2) : Lays s (operandValues (signed r)) (signed r).2.2 := by
  obtain ⟨operand, calls, s'⟩ := r
  have hbefore := h.before (signed_reaches (operand, calls, s'))
  cases operand <;> exact hbefore

/-- What an operand reads lies where it was read. -/
theorem nesting_primary (s : State) (hcall : isCallAhead s.queue = true → nesting.call s)
    (hprimary : ∀ t, t.queue.length < s.queue.length → nesting.primary t)
    (hexpression : ∀ t, t.queue.length < s.queue.length → nesting.expression .arguments t) :
    nesting.primary s := by
  show Lays s (operandValues _) _
  rw [Parsers.full_primary]
  fun_cases Parsers.nextPrimary Parsers.full s with
  | case1 => exact .refl s
  -- a literal, and the indices behind it
  | case2 front rest hq kind raw hlit =>
    have hto : Reaches (s.pop 1) (s.pop 1).skipIndex := .skipIndex _
    have hlt := hto.length_lt_of_pop (s.front?_of_queue hq) Nat.one_pos
    exact .single ((Reaches.pop s 1).trans hto)
      (fun hs => lies_front hq hs ((Reaches.pop s 1).trans hto) hlt (spelled_of_literal hlit)) rfl
  -- a call
  | case3 front rest hq hlit word hword hahead found calls s' heq =>
    have h : Lays s _ _ := hcall hahead
    rw [heq] at h
    exact h.before (.skipIndex s')
  -- a dotted name that is no call
  | case4 front rest hq hlit word hword hahead words s' span text value =>
    have hspelled : Lexer.isUnspelled front.token = false := by
      rw [hword]
      rfl
    have hpos : 0 < words.length := by
      show 0 < (name s.queue).1.length
      rw [hq]
      exact length_name_pos hword
    have hlt := (Reaches.refl s').length_lt_of_pop (s.front?_of_queue hq) hpos
    have hspan : value.span = span := by
      simp only [value]
      split <;> rfl
    have hwalk : value.walk = [] := by
      simp only [value]
      split <;> rfl
    have h : Lays s [value] s' := .single (.pop s _)
      (fun hs => hspan ▸ lies_spanFrom hq hs (.pop s _) hlt hspelled) hwalk
    exact h.before (.skipIndex s')
  -- nested too deeply
  | case5 front rest hq hlit hparen s' henter =>
    exact .of_reaches (.of_enter henter)
  -- an expression in parentheses
  | case6 front rest hq hlit hparen s' henter =>
    have hto := Reaches.of_enter henter
    have hlt := State.length_lt_of_enter (s.front?_of_queue hq) henter
    exact closed_lays ((hexpression _ hlt).after (hto.trans (.pop s' 1)))
  -- an array literal, of which only the span is kept
  | case7 front rest hq hlit hbracket s' =>
    have hspelled : Lexer.isUnspelled front.token = false := by
      rw [hbracket]
      rfl
    have hpos : 0 < bracketsLength 0 s.queue := by
      rw [hq]
      exact length_brackets_pos hbracket
    have hlt := (Reaches.refl s').length_lt_of_pop (s.front?_of_queue hq) hpos
    have h : Lays s [.identifier ⟨"[]", s'.spanFrom front.span⟩] s' := .single (.skipBrackets s)
      (fun hs => lies_spanFrom hq hs (.skipBrackets s) hlt hspelled) rfl
    exact h.before (.skipIndex s')
  -- an operand behind a sign
  | case8 front rest hq =>
    have hlt := (Reaches.refl (s.pop 1)).length_lt_of_pop (s.front?_of_queue hq) Nat.one_pos
    exact signed_lays ((hprimary _ hlt).after (.pop s 1))
  | case9 => exact .refl s

/-- What an expression reads lies where it was read. -/
theorem nesting_expression (setting : Setting) (s : State) (hprimary : nesting.primary s)
    (htail : ∀ t, t.queue.length ≤ s.queue.length → nesting.tail setting 0 false t) :
    nesting.expression setting s := by
  have h : Lays s _ _ := hprimary
  show Lays s (operandValues _) _
  rw [Parsers.full_expression, Parsers.nextExpression]
  rcases heq : Parsers.full.primary s with ⟨operand, calls, s₁⟩
  rw [heq] at h
  cases operand with
  | none => exact h
  | some operand =>
    have h' : Lays s₁ _ _ := htail s₁ h.reaches.length_le
    simpa [Parsers.withTail, operandValues] using h.append h'

/-- The calls in the tail of an expression lie where they were read. -/
theorem nesting_tail (setting : Setting) (depth : Nat) (consumed : Bool) (s : State)
    (hcall : isCallAhead s.queue = true → nesting.call s)
    (htail : ∀ depth consumed t, t.queue.length < s.queue.length →
      nesting.tail setting depth consumed t) : nesting.tail setting depth consumed s := by
  show Lays s _ _
  rw [Parsers.full_tail]
  have hgo {token : Token} (hfront : s.front? = some token) (depth : Nat) (consumed : Bool) :
      Lays s ((Parsers.full.tail setting depth consumed (s.pop 1)).2.1.map .call)
        (Parsers.full.tail setting depth consumed (s.pop 1)).2.2 := by
    have hlt := (Reaches.refl (s.pop 1)).length_lt_of_pop hfront Nat.one_pos
    exact (htail depth consumed _ hlt).after (.pop s 1)
  fun_cases Parsers.nextTail Parsers.full setting depth consumed s with
  -- a call in the tail: it is listed before the calls behind it
  | case22 _ name hahead found inner s₁ heq hasTail later s₂ heq' hfront =>
    have h : Lays s _ _ := hcall hahead
    have h' : Lays s₁ _ _ := htail depth true s₁ (Parsers.full_call_shortens hahead heq)
    rw [heq] at h
    rw [heq'] at h'
    simpa using h.append h'
  | _ =>
    -- every other branch stops here or takes one token and goes on
    first
    | exact .refl s
    | exact hgo (by assumption) ..

/-- A call below a list of arguments is below one of them. -/
theorem mem_walkAll {arguments : List Argument} {call : Call}
    (h : call ∈ Argument.walkAll arguments) : ∃ argument ∈ arguments, call ∈ argument.walk := by
  induction arguments with
  | nil => cases h
  | cons argument arguments ih =>
    rcases List.mem_append.mp h with h | h
    · exact ⟨argument, List.mem_cons_self, h⟩
    · obtain ⟨other, hmem, hcall⟩ := ih h
      exact ⟨other, List.mem_cons_of_mem _ hmem, hcall⟩

/-- A call starts with a word. -/
theorem exists_front_of_isCallAhead {q : Queue} (h : isCallAhead q = true) :
    ∃ front rest word, q = front :: rest ∧ front.token = .identifier word := by
  fun_cases name q with
  | case1 => cases h
  | case2 front rest word hword => exact ⟨front, rest, word, rfl, hword⟩
  | case3 front rest hnot =>
    rw [isCallAhead, name] at h
    simp at h

/-- A call, its arguments and the calls below them lie where they were read. -/
theorem nesting_call (s : State) (hahead : isCallAhead s.queue = true)
    (harguments : ∀ t, t.queue.length + 2 ≤ s.queue.length →
      nesting.arguments false false 0 t) : nesting.call s := by
  obtain ⟨front, rest, word, hq, hword⟩ := exists_front_of_isCallAhead hahead
  have hspelled : Lexer.isUnspelled front.token = false := by
    rw [hword]
    rfl
  have hhere : s.here = front.span := by
    rw [State.here, hq]
    rfl
  show Lays s _ _
  rw [Parsers.full_call]
  fun_cases Parsers.nextCall Parsers.full s with
  | case1 text inside heq arguments calls behind harg =>
    have henter := Reaches.of_enter heq
    have hto : Reaches s inside := (openCall_reaches s).trans henter
    have hle := length_of_enter_openCall hahead heq
    have hlt : inside.queue.length < s.queue.length := by omega
    obtain ⟨hcalls, hlisted⟩ := harguments inside hle
    rw [harg] at hcalls hlisted
    have hbehind : Reaches inside behind.leave := hcalls.reaches.trans (.leave behind)
    have hall := hto.trans hbehind
    have hlt' := Nat.lt_of_le_of_lt hbehind.length_le hlt
    have hinner : Lays s (calls.map .call) behind.leave := (hcalls.before (.leave behind)).after hto
    refine ⟨hall, fun hs value hmem => ?_⟩
    rcases List.mem_cons.mp hmem with rfl | hmem
    -- the call itself, and then the calls that its arguments hold
    · have hinside := hs.reaches hto
      obtain ⟨hlies, hnested, hwalk, hordered, hposition⟩ := hlisted hinside (hs.behind hto hlt)
      rw [hhere]
      refine ⟨lies_spanFrom hq hs hall hlt' hspelled, fun call hcall => ?_⟩
      rcases List.mem_cons.mp hcall with rfl | hcall
      · refine ⟨fun argument ha => ?_, hnested, hordered, fun i argument hi => ?_⟩
        · refine spanFrom_contains hq hs hall hlt' hspelled ?_
          exact (hlies argument ha).mono hto (.leave behind) (hinside.reaches hcalls.reaches)
        · rw [hposition i argument hi, Nat.zero_add]
      · obtain ⟨argument, ha, hcall⟩ := mem_walkAll hcall
        exact hwalk argument ha call hcall
    -- the calls beside its arguments were read inside it
    · exact hinner.laid hs value hmem
  -- nested too deeply, so that there are no arguments
  | case2 text inside heq =>
    have henter := Reaches.of_enter heq
    have hto : Reaches s inside.skipToClosing :=
      ((openCall_reaches s).trans henter).trans (.skipToClosing inside)
    have hlt : inside.skipToClosing.queue.length < s.queue.length := by
      have hle := (Reaches.skipToClosing inside).length_le
      have hopen := length_of_enter_openCall hahead heq
      omega
    refine ⟨hto, fun hs value hmem => ?_⟩
    rw [List.mem_singleton.mp hmem, hhere]
    refine ⟨lies_spanFrom hq hs hto hlt hspelled, fun call hcall => ?_⟩
    rw [List.mem_singleton.mp hcall]
    refine ⟨fun argument ha => ?_, fun argument ha => ?_, .nil, fun i argument hi => ?_⟩
    · cases ha
    · cases ha
    · cases hi

-- ---------------------------------------------------------------------------
-- Argument lists
-- ---------------------------------------------------------------------------

/-- What a round of an argument list has read lies between the states before and
behind it, and the round behind it goes on counting. -/
structure LaysRound (position : Nat) (s : State) (r : Round × State) : Prop where
  lays : Lays s (r.1.calls.map .call) r.2
  listed : s.Ordered → s.Behind → Listed position s r.2 r.1.given
  next : ∀ hasNamed afterComma position',
    r.1.next = some (hasNamed, afterComma, position') → position' = position + r.1.given.length

/-- A round that reads nothing. -/
theorem LaysRound.of_reaches {position : Nat} {s s' : State} (h : Reaches s s')
    {next : Option (Bool × Bool × Nat)}
    (hnext : ∀ hasNamed afterComma position',
      next = some (hasNamed, afterComma, position') → position' = position) :
    LaysRound position s (⟨[], [], next⟩, s') :=
  ⟨.of_reaches h, fun _ _ => .nil .., hnext⟩

/-- A round that starts later is a round from here. -/
theorem LaysRound.after {position : Nat} {s s' : State} {r : Round × State} (h : Reaches s s')
    (h' : LaysRound position s' r) : LaysRound position s r where
  lays := h'.lays.after h
  listed hs hb := by
    exact (h'.listed (hs.reaches h) (hb.reaches hs h)).mono h (.refl _)
      ((hs.reaches h).reaches h'.lays.reaches)
  next := h'.next

/-- What stands behind an argument changes nothing about it. -/
theorem afterArgument_lays {position : Nat} {s s' : State} {given : List Argument}
    {calls : List Call} (hlays : Lays s (calls.map .call) s')
    (hlisted : s.Ordered → s.Behind → Listed position s s' given) (hasNamed : Bool) :
    LaysRound position s (afterArgument given calls hasNamed (position + given.length) s') := by
  have hto := afterArgument_reaches given calls hasNamed (position + given.length) s'
  have hround : ∃ next, (afterArgument given calls hasNamed (position + given.length) s').1 =
      ⟨given, calls, next⟩ ∧ ∀ hasNamed' afterComma position',
        next = some (hasNamed', afterComma, position') → position' = position + given.length := by
    fun_cases afterArgument given calls hasNamed (position + given.length) s' with
    | case6 => exact ⟨none, rfl, fun _ _ _ heq => by cases heq⟩
    | _ => exact ⟨_, rfl, fun _ _ _ heq => by cases heq; rfl⟩
  generalize afterArgument given calls hasNamed (position + given.length) s' = r at hto hround ⊢
  obtain ⟨round, s''⟩ := r
  obtain ⟨next, rfl, hnext⟩ := hround
  exact ⟨hlays.before hto, fun hs hb => (hlisted hs hb).mono (.refl s) hto
    (hs.reaches hlays.reaches), hnext⟩

/-- The name of an argument is the token it starts with. -/
theorem argumentName_span {s : State} {front : Placed} {rest : Queue}
    (hq : s.queue = front :: rest) (identifier : Identifier)
    (h : s.argumentName.1 = some identifier) : identifier.span = front.span := by
  revert h
  fun_cases State.argumentName s with
  | case1 word op rest' hq' name hname hop =>
    rintro ⟨⟩
    rw [hq] at hq'
    cases hq'
    rfl
  | _ => rintro ⟨⟩

section Argument

variable {s : State} {front : Placed} {rest : Queue} (hq : s.queue = front :: rest)
  (hspelled : Lexer.isUnspelled front.token = false)
include hq hspelled

/-- An argument lies where its value does, from the first token on. -/
theorem listed_argument {s' : State} (hs : s.Ordered) (h : Reaches s s')
    (hlt : s'.queue.length < s.queue.length) {name : Option Identifier}
    (hname : ∀ identifier, name = some identifier → identifier.span = front.span)
    {value : Value} (hlaid : Laid s s' value) (position : Nat) (isExpression : Bool) :
    Listed position s s' [⟨name, value, position, isExpression, s'.spanFrom front.span⟩] := by
  have hcovers := hs.covers front (by rw [hq]; exact List.mem_cons_self) hspelled
  have hfront := lies_front hq hs h hlt hspelled
  have hstop := stop_spanFrom hq hs h hlt
  have hcontains {span : Span} (hspan : Lies s s' span) :=
    spanFrom_contains hq hs h hlt hspelled hspan
  constructor
  case lies =>
    intro argument hmem
    rw [List.mem_singleton.mp hmem]
    exact lies_spanFrom hq hs h hlt hspelled
  case nested =>
    intro argument hmem
    rw [List.mem_singleton.mp hmem]
    refine ⟨?_, fun identifier hidentifier => ?_, hcontains hlaid.lies⟩
    · show (s'.spanFrom front.span).start < (s'.spanFrom front.span).stop
      rw [start_spanFrom, hstop]
      exact Nat.lt_of_lt_of_le hcovers hfront.stop_le
    · rw [hname identifier hidentifier]
      exact hcontains hfront
  case walk =>
    intro argument hmem
    rw [List.mem_singleton.mp hmem]
    exact hlaid.nested
  case ordered => exact List.pairwise_singleton ..
  case position =>
    intro i argument hi
    cases i with
    | zero =>
      cases hi
      rfl
    | succ i => cases hi

/-- An argument is read from its first token to the last one of its value. -/
theorem afterOperand_lays {s' : State} (hto : Reaches s s') {name : Option Identifier}
    (hname : ∀ identifier, name = some identifier → identifier.span = front.span)
    {r : Option (Value × Bool) × List Call × State} (hread : Lays s' (operandValues r) r.2.2)
    (hshort : r.1.isSome = true → r.2.2.queue.length < s.queue.length) (hasNamed : Bool)
    (position : Nat) :
    LaysRound position s (afterOperand name hasNamed position front.span r) := by
  obtain ⟨operand, calls, s''⟩ := r
  have hall := hread.after hto
  cases operand with
  | none =>
    have hgiven := given_reaches name position front.span none s''
    exact afterArgument_lays (hall.before hgiven) (fun _ _ => .nil ..) _
  | some operand =>
    obtain ⟨value, isExpression⟩ := operand
    refine afterArgument_lays (hall.mono (List.subset_cons_self ..)) (fun hs _ => ?_) _
    exact listed_argument hq hspelled hs hall.reaches (hshort rfl) hname
      (hall.laid hs value List.mem_cons_self) position isExpression

/-- What an argument reads lies where it was read. -/
theorem argument_lays (hasNamed : Bool) (position : Nat)
    (hexpression : ∀ t, t.queue.length ≤ s.queue.length → nesting.expression .arguments t) :
    LaysRound position s (Parsers.full.argument hasNamed position s) := by
  have hhere : s.here = front.span := by
    rw [State.here, hq]
    rfl
  have hto : Reaches s (if s.argumentName.1.isNone && hasNamed then
      s.argumentName.2.record .positionalAfterNamed else s.argumentName.2) :=
    (argumentName_yields s).reaches.trans (.recordIf _ _ (by decide))
  have hle := hto.length_le
  rw [Parsers.argument]
  dsimp only
  rw [hhere]
  refine afterOperand_lays hq hspelled hto (argumentName_span hq) (hexpression _ hle)
    (fun h => ?_) ..
  exact Nat.lt_of_lt_of_le (Parsers.full_expression_shortens _ h) hle

end Argument

/-- Behind the layout stands a token that is no layout. -/
theorem front?_skipLayout {s : State} {token : Token} (h : s.skipLayout.front? = some token) :
    isLayout token = false := by
  have hdrop : s.skipLayout.queue = s.queue.dropWhile fun placed => isLayout placed.token := by
    have hleft : ((s.queue.takeWhile fun placed => isLayout placed.token) ++
        s.queue.dropWhile fun placed => isLayout placed.token).drop
          (s.queue.takeWhile fun placed => isLayout placed.token).length = _ := List.drop_left
    rwa [List.takeWhile_append_dropWhile] at hleft
  rw [State.front?, hdrop] at h
  obtain ⟨placed, hhead, rfl⟩ := Option.map_eq_some_iff.mp h
  have := List.head?_dropWhile_not (fun placed : Placed => isLayout placed.token) s.queue
  rw [hhead] at this
  exact this

/-- A front token comes with its place and the tokens behind it. -/
theorem exists_queue_of_front? {s : State} {token : Token} (h : s.front? = some token) :
    ∃ front rest, s.queue = front :: rest ∧ front.token = token := by
  cases hq : s.queue with
  | nil => simp [State.front?, hq] at h
  | cons front rest => exact ⟨front, rest, rfl, by simpa [State.front?, hq] using h⟩

/-- A queue starts with its front token. -/
theorem startsWith_of_front? {s : State} {token : Token} (h : s.front? = some token) :
    startsWith s.queue token = true := by
  obtain ⟨front, rest, hqueue, rfl⟩ := exists_queue_of_front? h
  rw [hqueue, startsWith, List.head?_cons, Option.any_some]
  exact decide_eq_true rfl

/-- A token is spelled if it is no mark of layout and not the end of the file. -/
theorem isUnspelled_eq_false {token : Token} (hlayout : isLayout token = false)
    (hend : token ≠ .endOfFile) : Lexer.isUnspelled token = false := by
  cases token <;> first | rfl | exact absurd rfl hend | cases hlayout

/-- What a round of an argument list reads lies where it was read. -/
theorem round_lays (hasNamed afterComma : Bool) (position : Nat) (s : State)
    (hexpression : ∀ t, t.queue.length ≤ s.queue.length → nesting.expression .arguments t) :
    LaysRound position s (Parsers.full.round hasNamed afterComma position s) := by
  have hreaches := Parsers.round_reaches (Parsers.full_moves.expression .arguments) hasNamed
    afterComma position s
  revert hreaches
  fun_cases Parsers.round Parsers.full hasNamed afterComma position s with
  | case6 => exact fun hreaches => .of_reaches hreaches fun _ _ _ heq => by cases heq; rfl
  -- the only round that gives an argument
  | case7 _ _ s' token hend _ _ hfront =>
    intro _
    obtain ⟨front, rest, hq, rfl⟩ := exists_queue_of_front? hfront
    have hspelled := isUnspelled_eq_false (front?_skipLayout hfront) hend
    have hle := (Reaches.skipLayout s).length_le
    exact (argument_lays hq hspelled hasNamed position
      fun t ht => hexpression t (ht.trans hle)).after (.skipLayout s)
  | _ => exact fun hreaches => .of_reaches hreaches fun _ _ _ heq => by cases heq

/-- What an argument list reads lies where it was read, numbered from the given position on. -/
theorem nesting_arguments (hasNamed afterComma : Bool) (position : Nat) (s : State)
    (hexpression : ∀ t, t.queue.length ≤ s.queue.length → nesting.expression .arguments t)
    (hnext : ∀ round t hasNamed' afterComma' position',
      Parsers.full.round hasNamed afterComma position s = (round, t) →
      round.next = some (hasNamed', afterComma', position') →
        nesting.arguments hasNamed' afterComma' position' t) :
    nesting.arguments hasNamed afterComma position s := by
  have hround := round_lays hasNamed afterComma position s hexpression
  show Lays s _ _ ∧ _
  rw [Parsers.full_arguments, Parsers.nextArguments]
  rcases heq : Parsers.full.round hasNamed afterComma position s with ⟨⟨given, calls, next⟩, t⟩
  rw [heq] at hround
  cases next with
  | none => exact ⟨hround.lays, hround.listed⟩
  | some next =>
    obtain ⟨hasNamed', afterComma', position'⟩ := next
    obtain ⟨hcalls, hlisted⟩ := hnext _ t _ _ _ heq rfl
    -- the rounds behind this one count on from its arguments
    have hposition : position' = position + given.length := hround.next _ _ _ rfl
    subst hposition
    have hto := hround.lays.reaches
    refine ⟨by simpa [Parsers.goOn] using hround.lays.append hcalls, fun hs hb => ?_⟩
    exact (hround.listed hs hb).append (hlisted (hs.reaches hto) (hb.reaches hs hto)) hs hb hto
      hcalls.reaches

/-- One step of every reader keeps the contract. -/
theorem nesting_steps : nesting.Steps :=
  ⟨nesting_primary, nesting_expression, nesting_tail, nesting_call, nesting_arguments⟩

-- ---------------------------------------------------------------------------
-- Statements
-- ---------------------------------------------------------------------------

/-- A call and the calls inside it lie where they were read. -/
theorem callWithInner_lays {s : State} (h : isCallAhead s.queue = true) :
    Lays s (s.callWithInner.1.map .call) s.callWithInner.2 :=
  nesting_steps.holds_call h

/-- The calls on the rest of a line lie where they were read. -/
theorem scanLine_lays (fuel depth : Nat) (s : State) :
    Lays s ((scanLine fuel depth s).1.map .call) (scanLine fuel depth s).2 := by
  fun_induction scanLine fuel depth s with
  | case17 fuel depth s _ word hahead found s₁ hcall later s₂ hlater _ ih =>
    have h := callWithInner_lays hahead
    rw [hcall] at h
    rw [hlater] at ih
    simpa using h.append ih
  | case13 fuel s _ _ ih
  | case15 fuel s _ _ ih =>
    exact ih.after ((Reaches.record s (by decide)).trans (.pop _ 1))
  | _ =>
    -- every other branch stops here or takes one token and goes on
    first
    | exact .refl _
    | exact Lays.after (.pop _ 1) (by assumption)

/-- What stands behind an assignment lies where it was read. -/
theorem assignedValue_lays (s : State) :
    Lays s ((assignedValue s).1.toList ++ (assignedValue s).2.1.map .call)
      (assignedValue s).2.2 := by
  have hread : Lays s _ _ := nesting_steps.holds_expression .statement s
  change Lays s (operandValues (s.expression .statement)) (s.expression .statement).2.2 at hread
  fun_cases assignedValue s with
  | case1 | case2 => exact .refl s
  | case3 | case4 | case5 | case6 | case7 => exact .of_reaches (.record s (by decide))
  | case8 token _ _ _ _ _ _ _ value calls s' hvalue
  | case9 token _ _ _ _ _ _ _ found calls s' hvalue =>
    rw [hvalue] at hread
    exact hread
  -- part of an expression, of which only the calls are kept
  | case10 token _ _ _ _ _ _ _ value calls s' _ hvalue =>
    rw [hvalue] at hread
    exact hread.mono (List.subset_cons_self ..)
  | case11 token _ _ _ _ _ _ _ calls s' hvalue =>
    rw [hvalue] at hread
    exact hread.before ((Reaches.record s' (by decide)).trans (.skipLine _))

/-- The value of a statement: a call, or what a variable is given. -/
def nodeValue : Node → Option Value
  | .call call => some (.call call)
  | .declaration declaration => declaration.value

/-- A statement lies between two states of a parse, and its parts are nested. -/
structure LaidNode (s s' : State) (node : Node) : Prop where
  lies : Lies s s' node.span
  nested : ∀ value, nodeValue node = some value → ∀ call ∈ value.walk, call.Nested
  declaration : ∀ declaration, node = .declaration declaration → declaration.Nested

/-- A parse goes from `s` to `s'` and reads statements that lie between the two. -/
structure LaysNodes (s : State) (nodes : List Node) (s' : State) : Prop where
  reaches : Reaches s s'
  laid : s.Ordered → ∀ node ∈ nodes, LaidNode s s' node

namespace LaysNodes

variable {s s' s'' : State} {nodes others : List Node}

theorem of_reaches (h : Reaches s s') : LaysNodes s [] s' :=
  ⟨h, fun _ _ hmem => absurd hmem List.not_mem_nil⟩

/-- Some statements behind others. -/
theorem append (h : LaysNodes s nodes s') (h' : LaysNodes s' others s'') :
    LaysNodes s (nodes ++ others) s'' := by
  refine ⟨h.reaches.trans h'.reaches, fun hs node hmem => ?_⟩
  have hs' := hs.reaches h.reaches
  rcases List.mem_append.mp hmem with hmem | hmem
  · have hlaid := h.laid hs node hmem
    exact { hlaid with lies := hlaid.lies.mono (.refl s) h'.reaches hs' }
  · have hlaid := h'.laid hs' node hmem
    exact { hlaid with lies := hlaid.lies.mono h.reaches (.refl s'') (hs'.reaches h'.reaches) }

/-- Calls are statements of their own. -/
theorem of_calls {calls : List Call} (h : Lays s (calls.map .call) s') :
    LaysNodes s (calls.map .call) s' := by
  refine ⟨h.reaches, fun hs node hmem => ?_⟩
  obtain ⟨call, hcall, rfl⟩ := List.mem_map.mp hmem
  have hlaid := h.laid hs (.call call) (List.mem_map_of_mem hcall)
  refine ⟨hlaid.lies, ?_, nofun⟩
  rintro value ⟨⟩
  exact hlaid.nested

end LaysNodes

/-- A declaration and the calls on its line lie where they were read. -/
theorem declaration_lays {s : State} {front : Placed} {rest : Queue}
    (hq : s.queue = front :: rest) (hspelled : Lexer.isUnspelled front.token = false) :
    LaysNodes s ((declaration s).1 ++ (declaration s).2.1.map .call) (declaration s).2.2 := by
  fun_cases declaration s with
  | case1 isVar s₁ =>
    exact .of_reaches (((Reaches.popIf s isVar).trans (.record s₁ (by decide))).trans (.skipLine _))
  -- a name, an operator and a value: the node spans all that was read on its line
  | case2 start isVar s₁ type _ typeName s₂ name span op rest' hq₂ _ value calls s₃ hvalue later s₄
      hlater node =>
    have hto : Reaches s s₂ := (Reaches.popIf s isVar).trans (.pop s₁ type.length)
    have hassigned := assignedValue_lays (s₂.pop 2)
    rw [hvalue] at hassigned
    have hline := scanLine_lays (s₃.queue.length + 1) 0 s₃
    rw [← State.scanLine, hlater] at hline
    have hread := (hassigned.append hline).after (.pop s₂ 2)
    have hall := hto.trans hread.reaches
    have hlt₂ : s₄.queue.length < s₂.queue.length :=
      (hassigned.append hline).reaches.length_lt_of_pop (s₂.front?_of_queue hq₂) Nat.two_pos
    have hlt := Nat.lt_of_lt_of_le hlt₂ hto.length_le
    have hstart : node.span = s₄.spanFrom front.span := by
      show s₄.spanFrom s.here = _
      rw [State.here, hq]
      rfl
    have hcalls : Lays s ((calls ++ later).map .call) s₄ := by
      refine (hread.after hto).mono ?_
      rw [List.map_append, List.append_assoc]
      exact List.subset_append_right ..
    refine ⟨hall, fun hs other hmem => ?_⟩
    rcases List.mem_cons.mp hmem with rfl | hmem
    · have hs₂ := hs.reaches hto
      -- the name and the value lie within the node
      have hname : Lies s s₄ span :=
        (lies_front hq₂ hs₂ hread.reaches hlt₂ rfl).mono hto (.refl s₄) (hs.reaches hall)
      have hgiven : ∀ given, value = some given → Laid s s₄ given := by
        rintro given rfl
        exact (hread.after hto).laid hs given
          (List.mem_append_left _ (List.mem_append_left _ List.mem_cons_self))
      have hcontains {inner : Span} (hinner : Lies s s₄ inner) : node.span.Contains inner := by
        rw [hstart]
        exact spanFrom_contains hq hs hall hlt hspelled hinner
      refine ⟨?_, fun given h => (hgiven given h).nested, ?_⟩
      · show Lies s s₄ node.span
        rw [hstart]
        exact lies_spanFrom hq hs hall hlt hspelled
      · rintro _ ⟨⟩
        exact ⟨hcontains hname, fun given h => hcontains (hgiven given h).lies⟩
    · exact (LaysNodes.of_calls hcalls).laid hs other hmem
  | case3 isVar s₁ type _ s₂ =>
    exact .of_reaches (((Reaches.popIf s isVar).trans (.pop s₁ _)).trans (.pop s₂ 1))

/-- The nodes of a statement lie where they were read. -/
theorem statement_lays (s : State) : LaysNodes s (statement s).1 (statement s).2 := by
  have hline := LaysNodes.of_calls (scanLine_lays (s.queue.length + 1) 0 s)
  have hdeclaration {token : Token} (hfront : s.front? = some token)
      (hspelled : Lexer.isUnspelled token = false) :
      LaysNodes s ((declaration s).1 ++ (declaration s).2.1.map .call) (declaration s).2.2 := by
    obtain ⟨front, rest, hq, rfl⟩ := exists_queue_of_front? hfront
    exact declaration_lays hq hspelled
  fun_cases statement s with
  | case1 => exact .of_reaches (.refl s)
  | case2 | case3 => exact .of_reaches (.skipDefinition s)
  | case4 => exact .of_reaches (.skipLine s)
  | case5 | case6 => exact .of_reaches (.pop s 1)
  | case7 withCalls nodes calls s' h hfront
  | case8 withCalls nodes calls s' h hfront
  | case10 withCalls _ _ _ nodes calls s' h hfront =>
    have hread := hdeclaration hfront rfl
    rwa [h] at hread
  | case9 => exact .of_reaches (.skipHead s)
  | case11 withCalls _ _ _ calls s' h
  | case12 withCalls _ _ calls s' h =>
    rwa [← State.scanLine, h] at hline

/-- The statements of a script lie in it. -/
theorem statements_lays (fuel : Nat) (s : State) :
    LaysNodes s (statements fuel s).1 (statements fuel s).2 := by
  fun_induction statements fuel s with
  | case8 fuel s _ token _ _ _ _ _ nodes s₁ hnodes others s₂ hothers ih =>
    have h := statement_lays s
    rw [hnodes] at h
    rw [hothers] at ih
    exact h.append ih
  | case5 fuel s _ _ ih | case6 fuel s _ _ ih | case7 fuel s _ _ ih =>
    exact (LaysNodes.of_reaches (.pop s 1)).append ih
  | _ => exact .of_reaches (.refl _)

/-- A statement contains all that is in it. -/
theorem LaidNode.contains_spans {s s' : State} {node : Node} (h : LaidNode s s' node) :
    ∀ span ∈ node.spans, node.span.Contains span := by
  intro span hspan
  cases node with
  | call call => exact call.contains_spans (h.nested _ rfl) span hspan
  | declaration declaration =>
    have hnested := h.declaration declaration rfl
    rcases List.mem_cons.mp hspan with rfl | hspan
    · exact .refl _
    rcases List.mem_cons.mp hspan with rfl | hspan
    · exact hnested.name
    obtain ⟨value, hvalue, hspan⟩ := List.mem_flatMap.mp hspan
    have hvalue := Option.mem_toList.mp hvalue
    exact (hnested.value value hvalue).trans
      (value.contains_spans (h.nested value hvalue) span hspan)

/-- A token that is kept comes from a token of the lexer. -/
theorem mem_kept {tokens : List Lexed} {p : Placed} (h : p ∈ State.kept tokens) :
    ⟨.ok p.token, p.span⟩ ∈ tokens := by
  obtain ⟨⟨reading, span⟩, hmem, heq⟩ := List.mem_filterMap.mp h
  rcases reading with fault | token
  · cases heq
  cases token <;> cases heq <;> exact hmem

/-- What holds between the tokens of the lexer holds between those that are kept. -/
theorem pairwise_kept {tokens : List Lexed} {R : Placed → Placed → Prop}
    (h : tokens.Pairwise fun s t =>
      ∀ a b, s.reading = .ok a → t.reading = .ok b → R ⟨a, s.span⟩ ⟨b, t.span⟩) :
    (State.kept tokens).Pairwise R := by
  have hkept (lexed : Lexed) (p : Placed) (hp : p ∈ State.kept [lexed]) :
      lexed.reading = .ok p.token ∧ lexed.span = p.span := by
    rw [← List.mem_singleton.mp (mem_kept hp)]
    exact ⟨rfl, rfl⟩
  refine List.pairwise_filterMap.mpr (h.imp fun {s t} hst p hp r hr => ?_)
  obtain ⟨hs, hs'⟩ := hkept s p (List.mem_filterMap.mpr ⟨s, List.mem_cons_self, hp⟩)
  obtain ⟨ht, ht'⟩ := hkept t r (List.mem_filterMap.mpr ⟨t, List.mem_cons_self, hr⟩)
  have hrelated := hst _ _ hs ht
  rwa [hs', ht'] at hrelated

/-- A token that is spelled out is no mark of indentation. -/
theorem not_isMark {p : Placed} (hspelled : Lexer.isUnspelled p.token = false) :
    ¬ Lexer.IsMark ⟨.ok p.token, p.span⟩ := by
  rintro ⟨token, heq, hmark⟩
  cases heq
  rw [hspelled] at hmark
  cases hmark

/-- The tokens of a script are in order. -/
theorem start_ordered (source : String) (allowed : Nat) :
    (State.start (lex source) allowed).Ordered := by
  have run := Lexer.lex_run source
  constructor
  case stops => exact pairwise_kept (run.pairwise_precedes.imp fun h _ _ _ _ => h.1)
  case starts =>
    refine pairwise_kept (run.pairwise_start.imp fun {s t} h a b _ hb hspelled => ?_)
    refine h.resolve_left fun ⟨token, htoken, hmark⟩ => ?_
    rw [hb] at htoken
    cases htoken
    rw [hspelled] at hmark
    cases hmark
  case covers =>
    intro p hp hspelled
    exact (run.covers _ (mem_kept hp)).resolve_left (not_isMark hspelled)
  -- nothing starts before the first token of the lexer
  case last =>
    intro p hp
    have hmem := mem_kept hp
    have hpairwise := run.pairwise_precedes
    show ((lex source).head?.map Lexed.span |>.getD ⟨0, 0, 1, 0⟩).stop ≤ p.span.stop
    cases hlex : lex source with
    | nil =>
      rw [hlex] at hmem
      cases hmem
    | cons first others =>
      rw [hlex] at hmem hpairwise
      rcases List.mem_cons.mp hmem with hfirst | hmem
      · rw [← hfirst]
        exact Nat.le_refl _
      · exact ((List.pairwise_cons.mp hpairwise).1 _ hmem).1

/-- A script starts with its first token. -/
theorem first_start_le {source : String} {first : Lexed} {others : List Lexed}
    (hlex : lex source = first :: others) {p : Placed} (hp : p ∈ State.kept (lex source))
    (hspelled : Lexer.isUnspelled p.token = false) : first.span.start ≤ p.span.start := by
  have hinside := (lex_lossless source).inside
  have hstarts := (Lexer.lex_run source).pairwise_start
  have hmem := mem_kept hp
  rw [hlex] at hinside hstarts hmem
  rcases List.mem_cons.mp hmem with hfirst | hmem
  · rw [← hfirst]
  · have hle := ((List.pairwise_cons.mp hstarts).1 _ hmem).resolve_left (not_isMark hspelled)
    exact (hinside first List.mem_cons_self).1.trans hle

end Parser

/-- **The tree of every script is nested.** Whatever number of errors a parse goes on
behind, all that it has read lies in the script; a declaration contains its name and
its value, a call its arguments, and an argument its name and its value; the arguments
of a call stand one behind the other and are numbered in this order. -/
theorem parse_nested (source : String) (allowed : Nat) :
    (parse source allowed).program.Nested := by
  have hordered := Parser.start_ordered source allowed
  have hlaid := (Parser.statements_lays ((Parser.State.kept (lex source)).length + 1)
    (Parser.State.start (lex source) allowed)).laid hordered
  have hnested {node : Node} (hnode : node ∈ (parse source allowed).program.nodes) :=
    hlaid node hnode
  constructor
  -- the program runs from its first token to the last one that was read
  case inside =>
    obtain ⟨front, last, hlex, -⟩ := (lex_lossless source).ends
    obtain ⟨first, others, hfirst⟩ : ∃ first others, lex source = first :: others :=
      List.exists_cons_of_ne_nil (by rw [hlex]; simp)
    have hspan : (parse source allowed).program.span =
        some (first.span.through (finalState (lex source) allowed).last) := by
      rw [parse, parseTokens_eq, hfirst]
      rfl
    refine ⟨_, hspan, fun span hmem => ?_⟩
    obtain ⟨node, hnode, hin⟩ := List.mem_flatMap.mp hmem
    refine Span.Contains.trans ?_ ((hnested hnode).contains_spans span hin)
    obtain ⟨p, hp, hspelled, hstart, -⟩ := (hnested hnode).lies.anchor
    have hstop : node.span.stop ≤ (finalState (lex source) allowed).last.stop :=
      (hnested hnode).lies.stop_le
    have hle := Parser.first_start_le hfirst hp hspelled
    rw [Span.Contains, Span.through, hstart]
    split
    · exact ⟨hle, hstop⟩
    · exact ⟨hle, by omega⟩
  case declarations =>
    intro declaration hmem
    obtain ⟨node, hnode, heq⟩ := List.mem_filterMap.mp hmem
    cases node with
    | call => cases heq
    | declaration declaration' =>
      cases heq
      exact (hnested hnode).declaration declaration rfl
  -- a call of the program stands below a value of one of its nodes
  case calls =>
    intro call hmem
    obtain ⟨outer, houter, hwalk⟩ := List.mem_flatMap.mp hmem
    obtain ⟨node, hnode, heq⟩ := List.mem_filterMap.mp houter
    refine (hnested hnode).nested (.call outer) ?_ call hwalk
    cases node with
    | call =>
      cases heq
      rfl
    | declaration declaration =>
      dsimp only at heq
      split at heq
      · next hvalue =>
        cases heq
        exact hvalue
      · cases heq

end PineCheck
