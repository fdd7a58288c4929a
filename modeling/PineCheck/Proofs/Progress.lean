import PineCheck.Proofs.Recursion

/-!
# PineCheck — how much a parse takes

Some branches of the parser take no token and leave it to a later one to go on.
This module says which functions do take one.

Main results:

* `Reaches.queue_suffix` — whatever a parse does, what is left of its queue is an
  end of the queue.
* `primary_shortens`, `call_shortens` — an operand that was read, and every call,
  has taken tokens.
* `round_next` — a round of an argument list that is not the last one takes a
  token, or the round behind it is the last one.
* `statement_shortens` — a statement takes a token or halts the parse.
-/

namespace PineCheck.Parser

-- ---------------------------------------------------------------------------
-- Queues
-- ---------------------------------------------------------------------------

@[simp] theorem State.queue_record (s : State) (problem : ParseProblem) :
    (s.record problem).queue = s.queue := by
  fun_cases State.record s problem <;> rfl

@[simp] theorem State.queue_enter (s : State) : s.enter.2.queue = s.queue := by
  rw [State.enter]
  split
  · exact State.queue_record ..
  · rfl

@[simp] theorem State.length_pop (s : State) (n : Nat) :
    (s.pop n).queue.length = s.queue.length - n :=
  List.length_drop

/-- Entering a parenthesis takes no token, whether it is nested too deeply or not. -/
theorem State.queue_eq_of_enter {s s' : State} {entered : Bool} (h : s.enter = (entered, s')) :
    s'.queue = s.queue := by
  rw [← s.queue_enter, h]

/-- A parse only takes tokens off the front of its queue. -/
theorem Reaches.queue_suffix {s s' : State} (h : Reaches s s') : s'.queue <:+ s.queue := by
  induction h with
  | refl => exact List.suffix_rfl
  | tail _ hmove ih =>
    cases hmove with
    | pop n => exact (List.drop_suffix ..).trans ih
    | record => rwa [State.queue_record]
    | deepen => exact ih
    | leave => exact ih

/-- A step of the parse does not add tokens. -/
theorem Reaches.length_le {s s' : State} (h : Reaches s s') :
    s'.queue.length ≤ s.queue.length :=
  h.queue_suffix.length_le

/-- A queue with a front token is not empty. -/
theorem State.length_pos_of_front? {s : State} {token : Token} (h : s.front? = some token) :
    0 < s.queue.length := by
  rw [State.front?] at h
  cases hq : s.queue with
  | nil =>
    rw [hq] at h
    cases h
  | cons front rest => exact Nat.succ_pos _

/-- Taking tokens shortens a queue that has some. -/
theorem Reaches.length_lt_of_pop {s s' : State} {token : Token} {n : Nat}
    (hfront : s.front? = some token) (hn : 0 < n) (h : Reaches (s.pop n) s') :
    s'.queue.length < s.queue.length := by
  have hpos := State.length_pos_of_front? hfront
  have hle := h.length_le
  rw [State.length_pop] at hle
  omega

/-- Behind a parenthesis, a token less is left. -/
theorem State.length_lt_of_enter {s s' : State} {entered : Bool} {token : Token}
    (hfront : s.front? = some token) (h : s.enter = (entered, s')) :
    (s'.pop 1).queue.length < s.queue.length := by
  have hpos := State.length_pos_of_front? hfront
  rw [State.length_pop, State.queue_eq_of_enter h]
  omega

-- ---------------------------------------------------------------------------
-- Names and calls
-- ---------------------------------------------------------------------------

/-- The rest of a dotted name and what is behind it are the queue. -/
theorem nameTail_append (q : Queue) : (nameTail q).1 ++ (nameTail q).2 = q := by
  fun_induction nameTail q with
  | case1 dot word rest _ taken rest' _ _ _ ih => simp_all
  | case2 => rfl
  | case3 => rfl

/-- A dotted name and what is behind it are the queue. -/
theorem name_append (q : Queue) : (name q).1 ++ (name q).2 = q := by
  fun_cases name q with
  | case1 => rfl
  | case2 word rest =>
    have := nameTail_append rest
    simp_all
  | case3 => rfl

/-- The type arguments and what is behind them are the queue. -/
theorem genericTail?_append {q taken rest : Queue} (h : genericTail? q = some (taken, rest)) :
    taken ++ rest = q := by
  fun_induction genericTail? q generalizing taken rest with
  | case1 => cases h
  | case2 => cases h; rfl
  | case3 placed q _ _ ih | case4 placed q _ ih | case5 placed q _ ih =>
    obtain ⟨⟨taken', rest'⟩, hread, heq⟩ := Option.map_eq_some_iff.mp h
    cases heq
    rw [List.cons_append, ih hread]
  | case6 => cases h

/-- A list of type arguments, if there is one, and what is behind it are the queue. -/
theorem generics_append (q : Queue) : (generics q).1 ++ (generics q).2 = q := by
  fun_cases generics q with
  | case1 => rfl
  | case2 placed rest _ taken rest' h => rw [List.cons_append, genericTail?_append h]
  | case3 => rfl
  | case4 => rfl

/-- A name has a word at least. -/
theorem length_name_pos {front : Placed} {rest : Queue} {word : String}
    (h : front.token = .identifier word) : 0 < (name (front :: rest)).1.length := by
  rw [name]
  simp [h]

/-- A call takes a word of its name and its parenthesis at least. -/
theorem length_openCall {s : State} (h : isCallAhead s.queue = true) :
    s.openCall.queue.length + 2 ≤ s.queue.length := by
  have hname := name_append s.queue
  rw [isCallAhead] at h
  split at h
  · cases h
  · next words rest hwords heq =>
    rw [heq] at hname
    have hgenerics := congrArg List.length (generics_append rest)
    have hlength := congrArg List.length hname
    have hrest : (generics rest).2.length ≠ 0 := by
      intro hzero
      rw [List.length_eq_zero_iff.mp hzero] at h
      cases h
    have hpos : words.length ≠ 0 := fun hzero => hwords (List.length_eq_zero_iff.mp hzero)
    have hdrop : s.queue.drop words.length = rest := by
      rw [← hname, List.drop_left]
    simp only [State.openCall, State.pop, heq, hdrop, List.length_drop, List.length_append] at *
    omega

/-- The arguments of a call have two tokens less before them. -/
theorem length_of_enter_openCall {s inside : State} {entered : Bool}
    (hahead : isCallAhead s.queue = true) (h : s.openCall.enter = (entered, inside)) :
    inside.queue.length + 2 ≤ s.queue.length := by
  rw [State.queue_eq_of_enter h]
  exact length_openCall hahead

/-- A parenthesis goes on from the state inside it. -/
theorem openCall_reaches (s : State) : Reaches s s.openCall :=
  ((Reaches.pop s _).trans (.pop _ _)).trans (.pop _ 1)

/-- A call goes on from its parenthesis. -/
theorem call_reaches_openCall (fuel : Nat) (s : State) :
    Reaches s.openCall (call (fuel + 1) s).2.2 := by
  have hcall : call (fuel + 1) s = (Parsers.level fuel).nextCall s := by
    rw [call]
    rfl
  rw [hcall, Parsers.nextCall]
  split
  · next inside heq =>
    have harguments := ((returnsAll fuel).arguments false false 0 inside).reaches
    exact ((Reaches.of_enter heq).trans harguments).trans (.leave _)
  · next inside heq =>
    exact (Reaches.of_enter heq).trans (.skipToClosing inside)

/-- A call takes tokens. -/
theorem call_shortens (fuel : Nat) {s : State} (h : isCallAhead s.queue = true) :
    (call (fuel + 1) s).2.2.queue.length + 2 ≤ s.queue.length := by
  have hle := (call_reaches_openCall fuel s).length_le
  have hopen := length_openCall h
  omega

/-- The front token is the first of the queue. -/
theorem State.front?_of_queue {s : State} {front : Placed} {rest : Queue}
    (h : s.queue = front :: rest) : s.front? = some front.token := by
  rw [State.front?, h]
  rfl

/-- Brackets are skipped if there are some. -/
theorem length_brackets_pos {depth : Nat} {front : Placed} {rest : Queue}
    (h : front.token = .punctuation .bracketLeft) : 0 < bracketsLength depth (front :: rest) := by
  simp [bracketsLength, h]

/-- An operand that was read has taken tokens. -/
theorem primary_shortens (fuel : Nat) (s : State) (hfuel : 2 ≤ fuel)
    (h : (primary fuel s).1.isSome = true) :
    (primary fuel s).2.2.queue.length < s.queue.length := by
  revert h
  fun_cases primary fuel s with
  | case1 => omega
  | case2 | case6 | case8 | case11 | case12 => exact fun h => by cases h
  -- a literal is one token
  | case3 fuel s front rest hq =>
    intro _
    exact (Reaches.skipIndex _).length_lt_of_pop (s.front?_of_queue hq) Nat.one_pos
  -- a call takes its name and its parenthesis
  | case4 fuel s front rest hq hlit word hword hahead found calls s' hcall =>
    intro _
    obtain ⟨inner, rfl⟩ : ∃ inner, fuel = inner + 1 := ⟨fuel - 1, by omega⟩
    have hshort := call_shortens inner hahead
    have hle := (Reaches.skipIndex s').length_le
    rw [hcall] at hshort
    dsimp only at hshort ⊢
    omega
  -- a dotted name takes its first word
  | case5 fuel s front rest hq hlit word hword hahead words s' =>
    intro _
    refine (Reaches.skipIndex s').length_lt_of_pop (s.front?_of_queue hq) ?_
    show 0 < (name s.queue).1.length
    rw [hq]
    exact length_name_pos hword
  -- the parenthesis was taken before the expression in it
  | case7 fuel s front rest hq hlit hparen s₁ henter calls s₂ s₃ s₄ value hinner =>
    intro _
    have hs₁ := State.queue_eq_of_enter henter
    have hread := ((returnsAll fuel).expression .arguments (s₁.pop 1)).reaches
    rw [hinner] at hread
    have hall := (hread.trans (.close s₂)).trans (.skipIndex s₄)
    rw [← hs₁]
    exact hall.length_lt_of_pop (s₁.front?_of_queue (hs₁.trans hq)) Nat.one_pos
  -- a bracket takes itself
  | case9 fuel s front rest hq hlit hbracket s' =>
    intro _
    refine (Reaches.skipIndex s').length_lt_of_pop (s.front?_of_queue hq) ?_
    rw [hq]
    exact length_brackets_pos hbracket
  -- the sign was taken before the operand
  | case10 fuel s front rest hq hlit value _ calls s' hinner =>
    intro _
    have hread := ((returnsAll fuel).primary (s.pop 1)).reaches
    rw [hinner] at hread
    exact (hread.trans (.skipIndex s')).length_lt_of_pop (s.front?_of_queue hq) Nat.one_pos

-- ---------------------------------------------------------------------------
-- Rounds of an argument list
-- ---------------------------------------------------------------------------

/-- Where no layout stands in front, none is skipped. -/
theorem skipLayout_eq_self {s : State}
    (h : ∀ token, s.front? = some token → isLayout token = false) : s.skipLayout = s := by
  have hzero : layoutLength s.queue = 0 := by
    cases hq : s.queue with
    | nil => rfl
    | cons front rest =>
      have hfront := h front.token (s.front?_of_queue hq)
      simp [layoutLength, hfront]
  rw [State.skipLayout, hzero]
  rfl

/-- The round that starts here is the last one: the parse has halted, the next
statement interrupts the argument list, or the list is closed or the tokens end. -/
def State.EndsArguments (s : State) : Prop :=
  s.isHalted = true ∨ s.isInterrupted = true ∨ s.skipLayout.front? = none ∨
    s.skipLayout.front? = some .endOfFile ∨
    s.skipLayout.front? = some (.punctuation .parenRight)

/-- Behind the marks of layout nothing stands that an argument could start with. -/
theorem State.EndsArguments.endsRound {s : State} (h : s.EndsArguments)
    (hhalted : ¬ s.isHalted = true) (hinterrupted : ¬ s.isInterrupted = true) :
    s.skipLayout.front? = none ∨ s.skipLayout.front? = some .endOfFile ∨
      s.skipLayout.front? = some (.punctuation .parenRight) := by
  rcases h with h | h | h
  · exact absurd h hhalted
  · exact absurd h hinterrupted
  · exact h

/-- Giving an argument only moves the parse on. -/
theorem given_reaches (name : Option Identifier) (position : Nat) (start : Span)
    (operand : Option (Value × Bool)) (s : State) :
    Reaches s (given name position start operand s).2 := by
  cases operand with
  | some operand => exact .refl s
  | none =>
    rw [given]
    dsimp only
    split
    · exact (Reaches.record s (by decide)).trans (.pop _ 1)
    · exact .record s (by decide)

/-- What follows an argument only moves the parse on. -/
theorem afterArgument_reaches (given : List Argument) (calls : List Call) (hasNamed : Bool)
    (position : Nat) (s : State) :
    Reaches s (afterArgument given calls hasNamed position s).2 := by
  fun_cases afterArgument given calls hasNamed position s with
  | case1 => exact .refl s
  | case2 _ s' => exact (Reaches.skipLayout s).trans (.pop s' 1)
  | case3 | case4 | case5 => exact .skipLayout s
  | case6 _ s' =>
    exact ((Reaches.skipLayout s).trans (.record s' (by decide))).trans (.skipToClosing _)

/-- Behind an argument, the list goes on only behind a comma; without one the next
round is the last. -/
theorem afterArgument_next (given : List Argument) (calls : List Call) (hasNamed : Bool)
    (position : Nat) (s : State) :
    (afterArgument given calls hasNamed position s).1.next = none ∨
      (afterArgument given calls hasNamed position s).2.queue.length < s.queue.length ∨
      (afterArgument given calls hasNamed position s).2.EndsArguments := by
  fun_cases afterArgument given calls hasNamed position s with
  | case1 hinterrupted => exact .inr (.inr (.inr (.inl hinterrupted)))
  | case2 _ s' hcomma =>
    have hshort := (Reaches.refl (s'.pop 1)).length_lt_of_pop hcomma Nat.one_pos
    have hle := (Reaches.skipLayout s).length_le
    exact .inr (.inl (Nat.lt_of_lt_of_le hshort hle))
  | case3 _ s' hfront | case4 _ s' hfront | case5 _ s' hfront =>
    -- what stands here is no mark of layout, so the next round finds it too
    have hself : s'.skipLayout = s' := by
      refine skipLayout_eq_self fun token htoken => ?_
      rw [hfront] at htoken
      cases htoken <;> rfl
    refine .inr (.inr (.inr (.inr ?_)))
    rw [hself, hfront]
    decide
  | case6 => exact .inl rfl

namespace Parsers

variable {p : Parsers} (hp : ∀ s, Reaches s (p.expression .arguments s).2.2)
include hp

/-- An argument is behind its operand when what stands behind it is looked for. -/
theorem argument_eq_afterArgument (hasNamed : Bool) (position : Nat) (s : State) :
    ∃ given calls hasNamed' position' s', Reaches s s' ∧
      p.argument hasNamed position s = afterArgument given calls hasNamed' position' s' := by
  have hname := (argumentName_yields s).reaches
  have hrecord : Reaches s.argumentName.2
      (if s.argumentName.1.isNone && hasNamed then s.argumentName.2.record .positionalAfterNamed
        else s.argumentName.2) :=
    .recordIf _ _ (by decide)
  exact ⟨_, _, _, _, _, ((hname.trans hrecord).trans (hp _)).trans (given_reaches ..), rfl⟩

/-- A round of an argument list only moves the parse on. -/
theorem round_reaches (hasNamed afterComma : Bool) (position : Nat) (s : State) :
    Reaches s (p.round hasNamed afterComma position s).2 := by
  fun_cases round p hasNamed afterComma position s with
  | case1 => exact .refl s
  | case2 => exact .record s (by decide)
  | case3 _ _ s' | case4 _ _ s' =>
    exact (Reaches.skipLayout s).trans (.record s' (by decide))
  | case5 _ _ s' _ s'' =>
    exact ((Reaches.skipLayout s).trans (.recordIf s' afterComma (by decide))).trans (.pop s'' 1)
  | case6 _ _ s' => exact ((Reaches.skipLayout s).trans (.record s' (by decide))).trans (.pop _ 1)
  | case7 _ _ s' =>
    obtain ⟨_, _, _, _, s'', hreaches, heq⟩ := argument_eq_afterArgument hp hasNamed position s'
    rw [heq]
    exact ((Reaches.skipLayout s).trans hreaches).trans (afterArgument_reaches ..)

/-- A round that is not the last one takes a token, or the next one is the last. -/
theorem round_next (hasNamed afterComma : Bool) (position : Nat) (s : State) :
    (p.round hasNamed afterComma position s).1.next = none ∨
      (p.round hasNamed afterComma position s).2.queue.length < s.queue.length ∨
      (p.round hasNamed afterComma position s).2.EndsArguments := by
  fun_cases round p hasNamed afterComma position s with
  | case1 | case2 | case3 | case4 | case5 => exact .inl rfl
  | case6 _ _ s' hcomma =>
    have hshort := (Reaches.refl (s'.pop 1)).length_lt_of_pop hcomma Nat.one_pos
    have hle := (Reaches.skipLayout s).length_le
    refine .inr (.inl ?_)
    rw [State.length_pop, State.queue_record]
    rw [State.length_pop] at hshort
    exact Nat.lt_of_lt_of_le hshort hle
  | case7 _ _ s' =>
    obtain ⟨_, _, _, _, s'', hreaches, heq⟩ := argument_eq_afterArgument hp hasNamed position s'
    rw [heq]
    have hle := ((Reaches.skipLayout s).trans hreaches).length_le
    exact (afterArgument_next ..).imp_right (.imp_left (Nat.lt_of_lt_of_le · hle))

omit hp in
/-- No round follows behind the end of an argument list. -/
theorem round_of_endsArguments {s : State} (h : s.EndsArguments) (hasNamed afterComma : Bool)
    (position : Nat) : (p.round hasNamed afterComma position s).1.next = none := by
  fun_cases round p hasNamed afterComma position s with
  | case1 | case2 | case3 | case4 | case5 => rfl
  | case6 hhalted hinterrupted s' hcomma =>
    rcases h.endsRound hhalted hinterrupted with h | h | h
    all_goals
      rw [hcomma] at h
      cases h
  | case7 hhalted hinterrupted s' token hend hparen hcomma htoken =>
    rcases h.endsRound hhalted hinterrupted with h | h | h
    all_goals rw [htoken] at h
    · cases h
    · exact (hend (Option.some.inj h)).elim
    · exact (hparen (Option.some.inj h)).elim

end Parsers

-- ---------------------------------------------------------------------------
-- Statements
-- ---------------------------------------------------------------------------

/-- A call takes tokens. -/
theorem callWithInner_shortens {s : State} (h : isCallAhead s.queue = true) :
    s.callWithInner.2.queue.length < s.queue.length := by
  have hshort := call_shortens (2 * s.queue.length + 7) h
  have hfuel : fuelFor s.queue = 2 * s.queue.length + 7 + 1 := rfl
  show (call (fuelFor s.queue) s).2.2.queue.length < s.queue.length
  rw [hfuel]
  omega

/-- The scan of a line goes over its first token, unless the parse halts. -/
theorem scanLine_shortens {s : State} {token : Token} (hfront : s.front? = some token)
    (hlayout : isLayout token = false) (hend : token ≠ .endOfFile) (fuel : Nat) :
    (scanLine (fuel + 1) 0 s).2.isHalted = true ∨
      (scanLine (fuel + 1) 0 s).2.queue.length < s.queue.length := by
  -- every branch takes the first token and goes on behind it
  have hpop (depth : Nat) :
      (scanLine fuel depth (s.pop 1)).2.queue.length < s.queue.length :=
    (scanLine_yields fuel depth (s.pop 1)).reaches.length_lt_of_pop hfront Nat.one_pos
  have hrecord :
      (scanLine fuel 0 ((s.record .unmatchedClosing).pop 1)).2.queue.length < s.queue.length := by
    have hfront' : (s.record .unmatchedClosing).front? = some token := by
      rw [State.front?, State.queue_record]
      exact hfront
    have hshort := (scanLine_yields fuel 0 _).reaches.length_lt_of_pop hfront' Nat.one_pos
    rwa [State.queue_record] at hshort
  rw [scanLine]
  split
  · next hhalted => exact .inl hhalted
  refine .inr ?_
  rw [hfront]
  dsimp only
  split
  · contradiction
  · cases hlayout
  · cases hlayout
  · cases hlayout
  · exact hpop 1
  · exact hpop 1
  · exact hrecord
  · exact hrecord
  · split
    · next hahead =>
      have hle := (scanLine_yields fuel 0 s.callWithInner.2).reaches.length_le
      exact Nat.lt_of_le_of_lt hle (callWithInner_shortens hahead)
    · exact hpop 0
  · exact hpop 0

/-- A line that starts with a token is not empty. -/
theorem length_line_pos {front : Placed} {rest : Queue} (hlayout : isLayout front.token = false)
    (hend : front.token ≠ .endOfFile) : 0 < lineLength (front :: rest) := by
  have hbreak : front.token ≠ .newline := by
    rintro h
    rw [h] at hlayout
    cases hlayout
  simp [lineLength, hbreak, hend]

theorem length_head_pos (front : Placed) (rest : Queue) : 0 < headLength (front :: rest) := by
  rw [headLength]
  split <;> omega

/-- A declaration goes over the variable, or over the word `var` before it. -/
theorem declaration_shortens {s : State} {token : Token} (hfront : s.front? = some token)
    (hdeclares : token = .keyword .varKw ∨ token = .keyword .varipKw ∨
      (declaredType? s.queue).isSome = true) :
    (declaration s).2.2.queue.length < s.queue.length := by
  have hpos := State.length_pos_of_front? hfront
  fun_cases declaration s with
  | case1 isVar s₁ htype =>
    have hreaches : Reaches s₁ (s₁.record .expectedDeclaration).skipLine :=
      (Reaches.record s₁ (by decide)).trans (.skipLine _)
    by_cases hvar : isVar = true
    · have hs₁ : s₁ = s.pop 1 := if_pos hvar
      rw [hs₁] at hreaches ⊢
      exact hreaches.length_lt_of_pop hfront Nat.one_pos
    · -- no declaration follows, so the statement has started with `var`
      have hs₁ : s₁ = s := if_neg hvar
      rw [hs₁] at htype
      rcases hdeclares with rfl | rfl | hsome
      · exact absurd (by simp [isVar, hfront]) hvar
      · exact absurd (by simp [isVar, hfront]) hvar
      · rw [htype] at hsome
        cases hsome
  | case2 start isVar s₁ type _ typeName s₂ name span op rest hq _ value calls s₃ hvalue later s₄
      hlater node =>
    have hassigned := (assignedValue_returns (s₂.pop 2)).reaches
    rw [hvalue] at hassigned
    have hline := (scanLine_yields (s₃.queue.length + 1) 0 s₃).reaches
    rw [← State.scanLine, hlater] at hline
    -- the name and the operator are taken before the value
    have hshort := (hassigned.trans hline).length_lt_of_pop (s₂.front?_of_queue hq) Nat.two_pos
    have hle := ((Reaches.popIf s isVar).trans (.pop s₁ type.length)).length_le
    exact Nat.lt_of_lt_of_le hshort hle
  | case3 isVar s₁ type _ s₂ =>
    have hle : s₁.queue.length ≤ s.queue.length := (Reaches.popIf s isVar).length_le
    simp only [s₂, State.length_pop]
    omega

/-- **A statement takes a token or halts the parse.** -/
theorem statement_shortens {s : State} {token : Token} (hfront : s.front? = some token)
    (hlayout : isLayout token = false) (hend : token ≠ .endOfFile) :
    (statement s).2.isHalted = true ∨ (statement s).2.queue.length < s.queue.length := by
  obtain ⟨front, rest, hq, rfl⟩ : ∃ front rest, s.queue = front :: rest ∧ front.token = token := by
    cases hq : s.queue with
    | nil => simp [State.front?, hq] at hfront
    | cons front rest => exact ⟨front, rest, rfl, by simpa [State.front?, hq] using hfront⟩
  have hscan := scanLine_shortens hfront hlayout hend s.queue.length
  -- a statement that is skipped takes its line
  have hline {s' : State} (h : Reaches s.skipLine s') : s'.queue.length < s.queue.length := by
    refine Reaches.length_lt_of_pop hfront ?_ h
    rw [hq]
    exact length_line_pos hlayout hend
  fun_cases statement s with
  | case1 hnone =>
    rw [hnone] at hfront
    cases hfront
  | case2 | case3 =>
    refine .inr (hline ?_)
    rw [State.skipDefinition]
    split
    · exact (Reaches.pop _ _).trans (.pop _ _)
    · exact .refl _
  | case4 => exact .inr (hline (.refl _))
  | case5 | case6 => exact .inr ((Reaches.refl _).length_lt_of_pop hfront Nat.one_pos)
  | case7 withCalls nodes calls s' h hvar | case8 withCalls nodes calls s' h hvar =>
    have hshort := declaration_shortens hvar (by simp)
    rw [h] at hshort
    exact .inr hshort
  | case9 _ _ _ =>
    refine .inr ((Reaches.refl _).length_lt_of_pop hfront ?_)
    rw [hq]
    exact length_head_pos front rest
  | case10 withCalls word _ htype nodes calls s' h =>
    have hshort := declaration_shortens hfront (.inr (.inr htype))
    rw [h] at hshort
    exact .inr hshort
  | case11 withCalls _ _ _ calls s' h =>
    rw [← State.scanLine, h] at hscan
    exact hscan
  | case12 withCalls token _ calls s' h =>
    rw [← State.scanLine, h] at hscan
    exact hscan

end PineCheck.Parser
