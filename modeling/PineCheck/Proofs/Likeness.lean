import PineCheck.Proofs.Passage

/-!
# PineCheck — the same tokens read at another depth

What a parse reads depends on its tokens. The parentheses that it is inside of are
counted only in order to tell when they are too many, and what was recorded before
makes no difference as long as the parse goes on. So two parses at the same place, of
which the first meets no error and the second is not deeper inside, read the same.

* `Alike` — two parses stand at the same place, the second not deeper inside.
* `likeness_steps` — the functions that read expressions and calls return the same for
  both.
-/

namespace PineCheck.Parser

-- ---------------------------------------------------------------------------
-- Parses at the same place
-- ---------------------------------------------------------------------------

/-- Two parses stand at the same place. The second one goes on, and is inside of `d`
parentheses, which are not more than those around the first. -/
structure Alike (d : Nat) (s t : State) : Prop where
  queue : t.queue = s.queue
  last : t.last = s.last
  halted : t.isHalted = false
  depth : t.depth = d
  le : d ≤ s.depth

namespace Alike

variable {d : Nat} {s t : State}

theorem front? (h : Alike d s t) : t.front? = s.front? := by
  rw [State.front?, h.queue, State.front?]

theorem here (h : Alike d s t) : t.here = s.here := by
  rw [State.here, h.queue, h.last, State.here]

theorem isInterrupted (h : Alike d s t) : t.isInterrupted = s.isInterrupted := by
  rw [State.isInterrupted, h.queue, State.isInterrupted]

theorem spanFrom (h : Alike d s t) (start : Span) : t.spanFrom start = s.spanFrom start := by
  rw [State.spanFrom, h.last, State.spanFrom]

/-- Like states stay so when both drop the same tokens. -/
theorem pop (h : Alike d s t) (n : Nat) : Alike d (s.pop n) (t.pop n) where
  queue := by rw [State.pop, h.queue, State.pop]
  last := by rw [State.pop, h.queue, h.last, State.pop]
  halted := h.halted
  depth := h.depth
  le := h.le

/-- Like states skip the same index. -/
theorem skipIndex (h : Alike d s t) : Alike d s.skipIndex t.skipIndex := by
  rw [State.skipIndex, State.skipIndex, h.front?, State.skipBrackets, State.skipBrackets, h.queue]
  split
  · exact h.pop _
  · exact h

theorem skipLayout (h : Alike d s t) : Alike d s.skipLayout t.skipLayout := by
  rw [State.skipLayout, State.skipLayout, h.queue]
  exact h.pop _

/-- Like states open the same call. -/
theorem openCall (h : Alike d s t) : Alike d s.openCall t.openCall := by
  have hname := h.pop (name s.queue).1.length
  have hgenerics := hname.pop (generics (s.pop (name s.queue).1.length).queue).1.length
  unfold State.openCall
  dsimp only
  rw [h.queue, hname.queue]
  exact hgenerics.pop 1

/-- Like states leave a level together. -/
theorem leave (h : Alike (d + 1) s t) : Alike d s.leave t.leave where
  queue := h.queue
  last := h.last
  halted := h.halted
  depth := by rw [State.leave, h.depth, Nat.add_sub_cancel]
  le := Nat.le_sub_one_of_lt h.le

/-- A parenthesis that the first parse may enter, the second may enter too. -/
theorem enter (h : Alike d s t) {s' : State} (henter : s.enter = (true, s')) :
    ∃ t', t.enter = (true, t') ∧ Alike (d + 1) s' t' := by
  obtain ⟨hlt, rfl⟩ := State.enter_eq_true henter
  refine ⟨{ t with depth := t.depth + 1 }, ?_, ⟨h.queue, h.last, h.halted, ?_, ?_⟩⟩
  · have hle := h.le
    rw [State.enter, if_neg (by rw [h.depth]; omega)]
  · rw [← h.depth]
  · exact Nat.succ_le_succ h.le

/-- A warning stops neither of the two. -/
theorem recordWarning (h : Alike d s t) {problem : ParseProblem}
    (hwarning : problem.severity = .warning) : Alike d (s.record problem) (t.record problem) := by
  have hdepth : (s.record problem).depth = s.depth := by
    fun_cases State.record s problem <;> rfl
  have hnot : ¬ t.isHalted = true := by
    rw [h.halted]
    decide
  refine ⟨?_, ?_, ?_, ?_, ?_⟩
  · rw [State.queue_record, State.queue_record, h.queue]
  · rw [State.last_record, State.last_record, h.last]
  · rw [State.record_warning hnot hwarning]
    exact h.halted
  · rw [State.record_warning hnot hwarning]
    exact h.depth
  · rw [hdepth]
    exact h.le

/-- Like states read the same name of an argument. -/
theorem argumentName (h : Alike d s t) :
    t.argumentName.1 = s.argumentName.1 ∧ Alike d s.argumentName.2 t.argumentName.2 := by
  unfold State.argumentName
  rw [h.queue]
  split
  · split
    · split
      · exact ⟨rfl, h.pop 2⟩
      · exact ⟨rfl, h⟩
    · exact ⟨rfl, h⟩
  · exact ⟨rfl, h⟩

end Alike

-- ---------------------------------------------------------------------------
-- What is read again
-- ---------------------------------------------------------------------------

/-- What the first parse has read without an error, the second one has read, and both
stand at the same place behind it. -/
def Repeats (d : Nat) {α : Type} (x : α) (s : State) (y : α) (t : State) : Prop :=
  s.Clean → y = x ∧ Alike d s t

/-- `Repeats` for results with calls beside them. -/
abbrev RepeatsWithCalls (d : Nat) {α : Type} (r r' : α × List Call × State) : Prop :=
  Repeats d (r.1, r.2.1) r.2.2 (r'.1, r'.2.1) r'.2.2

namespace Repeats

variable {d : Nat} {α β : Type} {x y : α} {s t : State}

theorem same (x : α) (h : Alike d s t) : Repeats d x s x t :=
  fun _ => ⟨rfl, h⟩

/-- Nothing is to be read again behind an error. -/
theorem error {problem : ParseProblem} (h : problem.severity ≠ .warning) {s' : State}
    (hto : Reaches (s.record problem) s') : Repeats d x s' y t :=
  fun hclean => absurd hclean (not_clean_of_record hto h)

theorem payload (h : Repeats d x s y t) (f : α → β) : Repeats d (f x) s (f y) t :=
  fun hclean => ⟨congrArg f (h hclean).1, (h hclean).2⟩

theorem skipIndex (h : Repeats d x s y t) : Repeats d x s.skipIndex y t.skipIndex := fun hclean =>
  have hboth := h ((Reaches.skipIndex s).clean hclean)
  ⟨hboth.1, hboth.2.skipIndex⟩

theorem leave (h : Repeats (d + 1) x s y t) : Repeats d x s.leave y t.leave := fun hclean =>
  have hboth := h ((Reaches.leave s).clean hclean)
  ⟨hboth.1, hboth.2.leave⟩

/-- One stretch of reading behind another. -/
theorem andThen {d' : Nat} {x' y' : β} {s' t' : State} (h : Repeats d x s y t)
    (hto : Reaches s s') (hnext : y = x → Alike d s t → Repeats d' x' s' y' t') :
    Repeats d' x' s' y' t' := fun hclean =>
  have hboth := h (hto.clean hclean)
  hnext hboth.1 hboth.2 hclean

/-- A parenthesis is left by both. -/
theorem close (h : Repeats (d + 1) x s y t) : Repeats d x s.close y t.close := by
  refine h.andThen (.close s) fun hy ht => leave ?_
  rw [hy, ht.front?]
  split
  · exact .same x (ht.pop 1)
  · exact .error (by decide) (.refl _)

end Repeats

-- ---------------------------------------------------------------------------
-- Expressions and calls
-- ---------------------------------------------------------------------------

/-- The functions that read expressions and calls read the same again. -/
def likeness : Contract where
  primary s := ∀ d t, Alike d s t →
    RepeatsWithCalls d (Parsers.full.primary s) (Parsers.full.primary t)
  expression setting s := ∀ d t, Alike d s t →
    RepeatsWithCalls d (Parsers.full.expression setting s) (Parsers.full.expression setting t)
  tail setting depth consumed s := ∀ d t, Alike d s t →
    RepeatsWithCalls d (Parsers.full.tail setting depth consumed s)
      (Parsers.full.tail setting depth consumed t)
  call s := ∀ d t, Alike d s t →
    RepeatsWithCalls d (Parsers.full.call s) (Parsers.full.call t)
  arguments hasNamed afterComma position s := ∀ d t, Alike d s t →
    RepeatsWithCalls d (Parsers.full.arguments hasNamed afterComma position s)
      (Parsers.full.arguments hasNamed afterComma position t)

section Operands

variable {d : Nat} {r r' : Option (Value × Bool) × List Call × State}

/-- The end of a parenthesised expression is repeated. -/
theorem closed_repeats (h : RepeatsWithCalls (d + 1) r r') :
    RepeatsWithCalls d (closed r) (closed r') := by
  refine h.andThen (closed_reaches r) fun heq ht => ?_
  obtain ⟨operand, calls, s⟩ := r
  obtain ⟨operand', calls', t⟩ := r'
  cases heq
  have hclose : Repeats d (operand, calls) s.close (operand, calls) t.close :=
    (Repeats.same _ ht).close
  cases operand with
  | none => exact hclose
  | some operand => exact hclose.skipIndex

/-- The sign before an operand is repeated. -/
theorem signed_repeats (h : RepeatsWithCalls d r r') :
    RepeatsWithCalls d (signed r) (signed r') := by
  refine h.andThen (signed_reaches r) fun heq ht => ?_
  obtain ⟨operand, calls, s⟩ := r
  obtain ⟨operand', calls', t⟩ := r'
  cases heq
  cases operand with
  | none => exact .same _ ht
  | some operand => exact .same _ ht.skipIndex

end Operands

/-- An operand that is read without an error is repeated. -/
theorem likeness_primary (s : State) (hcall : isCallAhead s.queue = true → likeness.call s)
    (hprimary : ∀ t, t.queue.length < s.queue.length → likeness.primary t)
    (hexpression : ∀ t, t.queue.length < s.queue.length → likeness.expression .arguments t) :
    likeness.primary s := by
  intro d t ht
  rw [Parsers.full_primary, Parsers.full_primary]
  simp only [Parsers.nextPrimary, ht.queue]
  split
  · exact .same _ ht
  next front rest hq =>
  have hfront := s.front?_of_queue hq
  split
  · exact .same _ (ht.pop 1).skipIndex
  split
  · split
    · next hahead =>
      exact ((hcall hahead d t ht).payload fun r => (some (Value.call r.1, false), r.2)).skipIndex
    · rw [(ht.pop _).spanFrom]
      exact .same _ (ht.pop _).skipIndex
  · rcases henter : s.enter with ⟨entered, s'⟩
    cases entered with
    -- too deep to enter is an error
    | false => exact fun hclean => absurd hclean (not_clean_enter henter)
    | true =>
      obtain ⟨t', henter', ht'⟩ := ht.enter henter
      have hlt := State.length_lt_of_enter hfront henter
      rw [henter']
      exact closed_repeats (hexpression _ hlt _ _ (ht'.pop 1))
  · have hskip : Alike d s.skipBrackets t.skipBrackets := by
      rw [State.skipBrackets, State.skipBrackets, ht.queue]
      exact ht.pop _
    rw [hskip.spanFrom]
    exact .same _ hskip.skipIndex
  · split
    · have hlt := (Reaches.refl (s.pop 1)).length_lt_of_pop hfront Nat.one_pos
      exact signed_repeats (hprimary _ hlt d _ (ht.pop 1))
    · exact .same _ ht

/-- An expression that is read without an error is repeated. -/
theorem likeness_expression (setting : Setting) (s : State) (hprimary : likeness.primary s)
    (htail : ∀ t, t.queue.length ≤ s.queue.length → likeness.tail setting 0 false t) :
    likeness.expression setting s := by
  intro d t ht
  have hoperand := hprimary d t ht
  have hle := (Parsers.full_moves.primary s).length_le
  rw [Parsers.full_expression, Parsers.full_expression, Parsers.nextExpression,
    Parsers.nextExpression]
  refine hoperand.andThen (Parsers.full_moves.withTail ..) fun heq ht' => ?_
  generalize Parsers.full.primary s = r at heq ht' hle ⊢
  generalize Parsers.full.primary t = r' at heq ht' ⊢
  obtain ⟨operand, calls, s'⟩ := r
  obtain ⟨operand', calls', t'⟩ := r'
  cases heq
  cases operand with
  | none => exact .same _ ht'
  | some operand =>
    exact (htail s' hle d t' ht').payload fun r =>
      (some (operand.1, operand.2 || r.1), calls ++ r.2)

/-- The tail of an expression that is read without an error is repeated. -/
theorem likeness_tail (setting : Setting) (depth : Nat) (consumed : Bool) (s : State)
    (hcall : isCallAhead s.queue = true → likeness.call s)
    (htail : ∀ depth consumed t, t.queue.length < s.queue.length →
      likeness.tail setting depth consumed t) : likeness.tail setting depth consumed s := by
  intro d t ht hclean
  -- a reader that ends without an error starts without one, and is not halted
  have hs := ((Parsers.full_moves.tail setting depth consumed s).clean hclean).2
  have hstop : RepeatsWithCalls d (consumed, [], s) (consumed, [], t) := .same _ ht
  revert hclean
  rw [Parsers.full_tail, Parsers.full_tail]
  simp only [Parsers.nextTail, hs, ht.halted, ht.front?, ht.isInterrupted, ht.queue,
    Bool.false_eq_true, ↓reduceIte]
  cases hfront : s.front? with
  | none => exact hstop
  | some token =>
    have hlt := (Reaches.refl (s.pop 1)).length_lt_of_pop hfront Nat.one_pos
    have hgo (depth : Nat) (consumed : Bool) :
        RepeatsWithCalls d (Parsers.full.tail setting depth consumed (s.pop 1))
          (Parsers.full.tail setting depth consumed (t.pop 1)) :=
      htail depth consumed _ hlt d _ (ht.pop 1)
    dsimp only
    split
    case h_1 => exact hstop
    case h_2 | h_3 | h_4 | h_7 | h_8 | h_9 | h_10 | h_11 =>
      split
      · exact hstop
      · exact hgo _ _
    case h_5 | h_6 | h_13 => exact hgo _ _
    case h_12 =>
      split
      · next hahead =>
        have hread := hcall hahead d t ht
        have hshort := callWithInner_shortens hahead
        have hto := Parsers.full_moves.tail setting depth true (Parsers.full.call s).2.2
        -- the call is repeated, and so is the tail behind it
        refine hread.andThen hto fun heq ht' => ?_
        have hrest := htail depth true _ hshort d _ ht'
        rw [Prod.mk.injEq] at heq
        dsimp only
        rw [heq.1, heq.2]
        exact hrest.payload fun r =>
          (r.1, (Parsers.full.call s).1 :: (Parsers.full.call s).2.1 ++ r.2)
      · exact hgo _ _

/-- A call that is read without an error is repeated. -/
theorem likeness_call (s : State) (hahead : isCallAhead s.queue = true)
    (harguments : ∀ t, t.queue.length + 2 ≤ s.queue.length →
      likeness.arguments false false 0 t) : likeness.call s := by
  intro d t ht
  rw [Parsers.full_call, Parsers.full_call]
  simp only [Parsers.nextCall, ht.queue, ht.here]
  rcases henter : s.openCall.enter with ⟨entered, inside⟩
  cases entered with
  -- too deep to enter is an error
  | false =>
    intro hclean
    exact absurd ((Reaches.skipToClosing inside).clean hclean) (not_clean_enter henter)
  | true =>
    obtain ⟨inside', henter', hinside⟩ := ht.openCall.enter henter
    rw [henter']
    have hread := harguments inside (length_of_enter_openCall hahead henter) _ _ hinside
    refine hread.leave.andThen (.refl _) fun _ ht' => ?_
    dsimp only
    rw [ht'.spanFrom]
    exact hread.leave.payload fun r => ((⟨_, r.1, _⟩ : Call), r.2)

-- ---------------------------------------------------------------------------
-- Argument lists
-- ---------------------------------------------------------------------------

/-- `Repeats` for results without calls beside them. -/
abbrev RepeatsOn (d : Nat) {α : Type} (r r' : α × State) : Prop :=
  Repeats d r.1 r.2 r'.1 r'.2

section Rounds

variable {d : Nat} {s t : State}

/-- What follows an argument is repeated. -/
theorem afterArgument_repeats (ht : Alike d s t) (given : List Argument) (calls : List Call)
    (hasNamed : Bool) (position : Nat) :
    RepeatsOn d (afterArgument given calls hasNamed position s)
      (afterArgument given calls hasNamed position t) := by
  simp only [afterArgument, ht.isInterrupted, ht.skipLayout.front?]
  split
  · exact .same _ ht
  split
  · exact .same _ (ht.skipLayout.pop 1)
  · exact .same _ ht.skipLayout
  · exact .same _ ht.skipLayout
  · exact .same _ ht.skipLayout
  · exact .error (by decide) (.skipToClosing _)

/-- A round of an argument list is repeated from the operand on. -/
theorem afterOperand_repeats (name : Option Identifier) (hasNamed : Bool) (position : Nat)
    (start : Span) {r r' : Option (Value × Bool) × List Call × State}
    (h : RepeatsWithCalls d r r') :
    RepeatsOn d (afterOperand name hasNamed position start r)
      (afterOperand name hasNamed position start r') := by
  have hto : Reaches r.2.2 (afterOperand name hasNamed position start r).2 :=
    (given_reaches name position start r.1 r.2.2).trans (afterArgument_reaches ..)
  refine h.andThen hto fun heq ht => ?_
  obtain ⟨operand, calls, s⟩ := r
  obtain ⟨operand', calls', t⟩ := r'
  cases heq
  cases operand with
  | none =>
    -- an argument without a value is an error
    have hskip := Reaches.popIf (s.record .expectedArgumentValue)
      ((s.record .expectedArgumentValue).front?.any (!endsArgument ·))
    exact .error (by decide) (hskip.trans (afterArgument_reaches ..))
  | some operand =>
    rw [afterOperand, afterOperand, given, given, ht.spanFrom]
    exact afterArgument_repeats ht _ _ _ _

/-- An argument is repeated. -/
theorem argument_repeats (ht : Alike d s t) (hasNamed : Bool) (position : Nat)
    (hexpression : ∀ t, t.queue.length ≤ s.queue.length → likeness.expression .arguments t) :
    RepeatsOn d (Parsers.full.argument hasNamed position s)
      (Parsers.full.argument hasNamed position t) := by
  obtain ⟨hname, ht'⟩ := ht.argumentName
  have hle := (argumentName_yields s).reaches.length_le
  rw [Parsers.argument, Parsers.argument]
  dsimp only
  rw [hname, ht.here]
  split
  -- a positional argument behind a named one is an error
  · have hmoves := Parsers.full_moves.expression .arguments
      (s.argumentName.2.record .positionalAfterNamed)
    exact .error (by decide) (hmoves.trans ((given_reaches ..).trans (afterArgument_reaches ..)))
  · exact afterOperand_repeats _ _ _ _ (hexpression _ hle d _ ht')

/-- A round of an argument list is repeated. -/
theorem round_repeats (ht : Alike d s t) (hasNamed afterComma : Bool) (position : Nat)
    (hexpression : ∀ t, t.queue.length ≤ s.queue.length → likeness.expression .arguments t) :
    RepeatsOn d (Parsers.full.round hasNamed afterComma position s)
      (Parsers.full.round hasNamed afterComma position t) := by
  intro hclean
  have hto := Parsers.round_reaches (Parsers.full_moves.expression .arguments) hasNamed afterComma
    position s
  have hs := (hto.clean hclean).2
  revert hclean
  simp only [Parsers.round, hs, ht.halted, ht.isInterrupted, ht.skipLayout.front?,
    Bool.false_eq_true, ↓reduceIte]
  split
  · exact Repeats.error (by decide) (.refl _)
  split
  · exact Repeats.error (by decide) (.refl _)
  · exact Repeats.error (by decide) (.refl _)
  -- a comma too many is a warning, which both parses record
  · refine Repeats.same _ (Alike.pop ?_ 1)
    split
    · exact ht.skipLayout.recordWarning rfl
    · exact ht.skipLayout
  · exact Repeats.error (by decide) (.pop _ 1)
  · have hle := (Reaches.skipLayout s).length_le
    exact argument_repeats ht.skipLayout hasNamed position fun t ht => hexpression t (ht.trans hle)

end Rounds

/-- An argument list that is read without an error is repeated. -/
theorem likeness_arguments (hasNamed afterComma : Bool) (position : Nat) (s : State)
    (hexpression : ∀ t, t.queue.length ≤ s.queue.length → likeness.expression .arguments t)
    (hnext : ∀ round t hasNamed' afterComma' position',
      Parsers.full.round hasNamed afterComma position s = (round, t) →
      round.next = some (hasNamed', afterComma', position') →
        likeness.arguments hasNamed' afterComma' position' t) :
    likeness.arguments hasNamed afterComma position s := by
  intro d t ht
  have hround := round_repeats ht hasNamed afterComma position hexpression
  rw [Parsers.full_arguments, Parsers.full_arguments, Parsers.nextArguments, Parsers.nextArguments]
  -- the round is repeated, and so are the rounds behind it
  refine hround.andThen (Parsers.full_moves.goOn _) fun heq ht' => ?_
  rcases hr : Parsers.full.round hasNamed afterComma position s with ⟨⟨given, calls, next⟩, s'⟩
  generalize Parsers.full.round hasNamed afterComma position t = r' at heq ht' ⊢
  obtain ⟨round', t'⟩ := r'
  rw [hr] at heq ht'
  cases heq
  cases next with
  | none => exact .same _ ht'
  | some next =>
    obtain ⟨hasNamed', afterComma', position'⟩ := next
    exact (hnext _ s' _ _ _ hr rfl d t' ht').payload fun r => (given ++ r.1, calls ++ r.2)

/-- One step of every reader keeps the contract. -/
theorem likeness_steps : likeness.Steps :=
  ⟨likeness_primary, likeness_expression, likeness_tail, likeness_call, likeness_arguments⟩

end PineCheck.Parser
