import PineCheck.Proofs.Agreement

/-!
# PineCheck — the parser in lockstep

The functions of the parser, with as many steps as the tokens need, agree with
functions that are made of as many steps on top of anything at all. The two sides
may differ in the number of errors that they go on behind, and in what lies below
the steps.

* `Lockstep.next` is one step of the functions that read expressions and calls, and
  `lockstep` any number of them.
* `scanLine_agrees` and `statements_agrees` are the same for lines and statements.
-/

namespace PineCheck.Parser

-- ---------------------------------------------------------------------------
-- Expressions and calls
-- ---------------------------------------------------------------------------

/-- Functions that only make moves. -/
structure Parsers.Moves (p : Parsers) : Prop where
  primary : ∀ s, Reaches s (p.primary s).2.2
  expression : ∀ setting s, Reaches s (p.expression setting s).2.2
  tail : ∀ setting depth consumed s, Reaches s (p.tail setting depth consumed s).2.2
  call : ∀ s, Reaches s (p.call s).2.2
  arguments : ∀ hasNamed afterComma position s,
    Reaches s (p.arguments hasNamed afterComma position s).2.2
  scanLine : ∀ depth s, Reaches s (p.scanLine depth s).2
  statements : ∀ s, Reaches s (p.statements s).2

/-- What follows an operand only moves the parse on. -/
theorem Parsers.Moves.withTail {p : Parsers} (h : p.Moves) (setting : Setting)
    (r : Option (Value × Bool) × List Call × State) : Reaches r.2.2 (p.withTail setting r).2.2 := by
  fun_cases Parsers.withTail p setting r with
  | case1 calls s => exact .refl s
  | case2 value isCompound calls s hasTail tailCalls s' heq =>
    have htail := h.tail setting 0 false s
    rw [heq] at htail
    exact htail

/-- The rounds behind one round of an argument list only move the parse on. -/
theorem Parsers.Moves.goOn {p : Parsers} (h : p.Moves) (r : Round × State) :
    Reaches r.2 (p.goOn r).2.2 := by
  obtain ⟨⟨given, calls, next⟩, s⟩ := r
  cases next with
  | none => exact .refl s
  | some next => exact h.arguments next.1 next.2.1 next.2.2 s

/-- The functions of the parser only make moves. -/
theorem Parsers.level_moves (fuel : Nat) : (level fuel).Moves where
  primary s := ((returnsAll fuel).primary s).reaches
  expression setting s := ((returnsAll fuel).expression setting s).reaches
  tail setting depth consumed s := ((returnsAll fuel).tail setting depth consumed s).reaches
  call s := ((returnsAll fuel).call s).reaches
  arguments hasNamed afterComma position s :=
    ((returnsAll fuel).arguments hasNamed afterComma position s).reaches
  scanLine depth s := (scanLine_yields fuel depth s).reaches
  statements s := (statements_yields fuel s).reaches

/-- Every level of the readers only moves the parse on. -/
theorem Parsers.iterate_moves (k : Nat) : (next^[k] (level 0)).Moves := by
  rw [← level_eq_iterate]
  exact level_moves k

/-- The functions with `k` steps agree with others wherever `k` steps are enough
for the tokens that are left. -/
structure Lockstep (a b k : Nat) (p : Parsers) : Prop where
  primary : ∀ {s t}, Follows a b s t → 2 * s.queue.length + 2 ≤ k →
    AgreesWithCalls a b ((Parsers.level k).primary s) (p.primary t)
  expression : ∀ setting {s t}, Follows a b s t → 2 * s.queue.length + 3 ≤ k →
    AgreesWithCalls a b ((Parsers.level k).expression setting s) (p.expression setting t)
  tail : ∀ setting depth consumed {s t}, Follows a b s t → 2 * s.queue.length + 2 ≤ k →
    AgreesWithCalls a b ((Parsers.level k).tail setting depth consumed s)
      (p.tail setting depth consumed t)
  call : ∀ {s t}, Follows a b s t → 2 * s.openCall.queue.length + 5 ≤ k →
    AgreesWithCalls a b ((Parsers.level k).call s) (p.call t)
  arguments : ∀ hasNamed afterComma position {s t}, Follows a b s t →
    2 * s.queue.length + 4 ≤ k ∨ (s.EndsArguments ∧ 1 ≤ k) →
      AgreesWithCalls a b ((Parsers.level k).arguments hasNamed afterComma position s)
        (p.arguments hasNamed afterComma position t)

section Operands

variable {a b : Nat} {r r' : Option (Value × Bool) × List Call × State}

/-- Closing a parenthesised expression only moves the parse on. -/
theorem closed_reaches (r : Option (Value × Bool) × List Call × State) :
    Reaches r.2.2 (closed r).2.2 := by
  obtain ⟨operand, calls, s⟩ := r
  cases operand with
  | none => exact .close s
  | some operand => exact (Reaches.close s).trans (.skipIndex _)

/-- Two parses agree on the end of a parenthesised expression. -/
theorem closed_agrees (hab : a ≤ b) (h : AgreesWithCalls a b r r') :
    AgreesWithCalls a b (closed r) (closed r') := by
  rcases h.cut_or_eq with hcut | ⟨hs, rfl⟩
  · exact .cut (hcut.mono (closed_reaches r) (closed_reaches r'))
  obtain ⟨operand, calls, s⟩ := r
  have hclose : Agrees a b calls s.close calls (s.withAllowed b).close :=
    Agrees.close hab (.same calls hs)
  cases operand with
  | none => exact hclose.payload (none, ·)
  | some operand => exact (hclose.payload (some operand, ·)).skipIndex

/-- The sign before an operand leaves the state where the operand left it. -/
theorem signed_reaches (r : Option (Value × Bool) × List Call × State) :
    Reaches r.2.2 (signed r).2.2 := by
  obtain ⟨operand, calls, s⟩ := r
  cases operand with
  | none => exact .refl s
  | some operand => exact .skipIndex s

/-- Two parses agree on an operand behind a sign. -/
theorem signed_agrees (h : AgreesWithCalls a b r r') :
    AgreesWithCalls a b (signed r) (signed r') := by
  rcases h.cut_or_eq with hcut | ⟨hs, rfl⟩
  · exact .cut (hcut.mono (signed_reaches r) (signed_reaches r'))
  obtain ⟨operand, calls, s⟩ := r
  cases operand with
  | none => exact .same _ hs
  | some operand => exact Agrees.skipIndex (.same _ hs)

end Operands

section Rounds

variable {a b : Nat} (hab : a ≤ b) {s : State} (hs : s.allowed = a)
include hab

/-- Two parses agree on the argument that an operand gives, and on its absence. -/
theorem given_agrees (name : Option Identifier) (position : Nat) (start : Span)
    (operand : Option (Value × Bool)) (hs : s.allowed = a) :
    AgreesOn a b (given name position start operand s)
      (given name position start operand (s.withAllowed b)) := by
  cases operand with
  | some operand => exact .same _ hs
  | none =>
    have hrecord : Agrees a b ([] : List Argument) (s.record .expectedArgumentValue) []
        ((s.withAllowed b).record .expectedArgumentValue) :=
      Agrees.record hab (.same [] hs) (by decide)
    refine hrecord.map (f := fun s => if s.front?.any (!endsArgument ·) then s.pop 1 else s)
      (fun s => .popIf s _) fun s => ?_
    -- the token behind the problem is the same on both sides, so both skip it or neither does
    by_cases hskips : s.front?.any (!endsArgument ·) = true
    · simp only [State.front?_withAllowed, hskips, ↓reduceIte]
      rfl
    · simp only [State.front?_withAllowed, hskips, Bool.false_eq_true, ↓reduceIte]

/-- Two parses agree on what follows an argument. -/
theorem afterArgument_agrees (given : List Argument) (calls : List Call) (hasNamed : Bool)
    (position : Nat) (hs : s.allowed = a) :
    AgreesOn a b (afterArgument given calls hasNamed position s)
      (afterArgument given calls hasNamed position (s.withAllowed b)) := by
  have hs' : s.skipLayout.allowed = a := hs
  simp only [afterArgument, State.isInterrupted_withAllowed, State.skipLayout_withAllowed,
    State.front?_withAllowed]
  refine Agrees.ite (fun _ => .same _ hs) fun _ => ?_
  split
  · exact .same _ hs'
  · exact .same _ hs'
  · exact .same _ hs'
  · exact .same _ hs'
  · exact (Agrees.record hab (.same _ hs') (by decide)).skipToClosing

/-- Two parses agree on a round of an argument list from the operand on. -/
theorem afterOperand_agrees (name : Option Identifier) (hasNamed : Bool) (position : Nat)
    (start : Span) {r r' : Option (Value × Bool) × List Call × State}
    (h : AgreesWithCalls a b r r') :
    AgreesOn a b (afterOperand name hasNamed position start r)
      (afterOperand name hasNamed position start r') := by
  have hmoves (r : Option (Value × Bool) × List Call × State) :
      Reaches r.2.2 (afterOperand name hasNamed position start r).2 :=
    (given_reaches name position start r.1 r.2.2).trans (afterArgument_reaches ..)
  -- a first parse that was cut off at the operand stays cut off
  rcases h.cut_or_eq with hcut | ⟨hs, rfl⟩
  · exact .cut (hcut.mono (hmoves r) (hmoves r'))
  obtain ⟨operand, calls, s⟩ := r
  have hgiven := given_agrees hab name position start operand hs
  rw [afterOperand, afterOperand]
  dsimp only
  rcases hgiven.cut_or_same with hcut | ⟨hs, heq⟩
  · exact .cut (hcut.mono (afterArgument_reaches ..) (afterArgument_reaches ..))
  · rw [heq]
    exact afterArgument_agrees hab _ calls _ _ hs

end Rounds

section Step

variable {a b k : Nat} {p : Parsers} (hab : a ≤ b) (h : Lockstep a b k p) (hp : a < b → p.Moves)
  {s : State} (hs : s.allowed = a)
include h hs

include hp in
/-- Two parses agree on one step of the tail of an expression. -/
theorem nextTail_agrees (setting : Setting) (depth : Nat) (consumed : Bool)
    (hk : 2 * s.queue.length + 1 ≤ k) :
    AgreesWithCalls a b ((Parsers.level k).nextTail setting depth consumed s)
      (p.nextTail setting depth consumed (s.withAllowed b)) := by
  have hstop : AgreesWithCalls a b (consumed, [], s) (consumed, [], s.withAllowed b) :=
    .same _ hs
  simp only [Parsers.nextTail, State.isHalted_withAllowed, State.front?_withAllowed,
    State.isInterrupted_withAllowed, State.queue_withAllowed, State.pop_withAllowed]
  refine Agrees.iteWithCalls (fun _ => hstop) fun _ => ?_
  cases hfront : s.front? with
  | none => exact hstop
  | some token =>
    have hpos := State.length_pos_of_front? hfront
    -- every branch but a call goes on one token later
    have hgo (depth : Nat) (consumed : Bool) :
        AgreesWithCalls a b (Parser.tail k setting depth consumed (s.pop 1))
          (p.tail setting depth consumed ((s.pop 1).withAllowed b)) := by
      refine h.tail setting depth consumed (.same () hs) ?_
      rw [State.length_pop]
      omega
    dsimp only
    split
    case h_1 => exact hstop
    case h_2 | h_3 | h_4 | h_7 | h_8 | h_9 | h_10 | h_11 =>
      exact Agrees.iteWithCalls (fun _ => hstop) fun _ => hgo _ _
    case h_5 | h_6 | h_13 => exact hgo _ _
    case h_12 =>
      refine Agrees.iteWithCalls (fun hahead => ?_) fun _ => hgo _ _
      -- a call eats its opening at least, so the tail behind it is within the bound
      have hopen := length_openCall hahead
      have hcall := h.call (.same () hs) (by omega)
      have hshort : ((Parsers.level k).call s).2.2.queue.length + 2 ≤ s.queue.length := by
        obtain ⟨k, rfl⟩ : ∃ k', k = k' + 1 := ⟨k - 1, by omega⟩
        exact call_shortens k hahead
      have htail := h.tail setting depth true hcall.follows (by omega)
      have hboth := hcall.both htail ((Parsers.level_moves k).tail ..)
        fun hlt => (hp hlt).tail ..
      exact hboth.payload fun r => (r.2.1, r.1.1 :: r.1.2 ++ r.2.2)

include hp in
/-- Two parses agree on an expression: its operand, then its tail. -/
theorem nextExpression_agrees (setting : Setting) (hk : 2 * s.queue.length + 2 ≤ k) :
    AgreesWithCalls a b ((Parsers.level k).nextExpression setting s)
      (p.nextExpression setting (s.withAllowed b)) := by
  have hprimary := h.primary (.same () hs) hk
  have hle := ((Parsers.level_moves k).primary s).length_le
  change AgreesWithCalls a b ((Parsers.level k).primary s) _ at hprimary
  rw [Parsers.nextExpression, Parsers.nextExpression]
  rcases hprimary.cut_or_eq with hcut | ⟨hs₁, heq⟩
  · exact .cut (hcut.mono ((Parsers.level_moves k).withTail ..) ((hp hcut.lt).withTail ..))
  -- the operand did not cut the first parse off: the tail starts at the same place
  rw [heq]
  generalize (Parsers.level k).primary s = r at hle hs₁ ⊢
  obtain ⟨operand, calls, s₁⟩ := r
  cases operand with
  | none => exact .same _ hs₁
  | some operand =>
    have htail := h.tail setting 0 false (.same () hs₁) (by dsimp only at hle ⊢; omega)
    exact htail.payload fun r => (some (operand.1, operand.2 || r.1), calls ++ r.2)

include hab

/-- Two parses agree on one step of an operand. -/
theorem nextPrimary_agrees (hk : 2 * s.queue.length + 1 ≤ k) :
    AgreesWithCalls a b ((Parsers.level k).nextPrimary s) (p.nextPrimary (s.withAllowed b)) := by
  have hstop {α : Type} (x : Option α) :
      AgreesWithCalls a b (x, [], s) (x, [], s.withAllowed b) :=
    .same _ hs
  simp only [Parsers.nextPrimary, State.queue_withAllowed, State.pop_withAllowed]
  split
  · exact hstop none
  · next front rest hq =>
    have hpos : 0 < s.queue.length := by
      rw [hq]
      exact Nat.succ_pos _
    split
    · exact Agrees.skipIndex (.same _ hs)
    split
    · refine Agrees.iteWithCalls (fun hahead => ?_) fun _ => Agrees.skipIndex (.same _ hs)
      have hopen := length_openCall hahead
      have hcall := h.call (.same () hs) (by omega)
      exact (hcall.payload fun r => (some (Value.call r.1, false), r.2)).skipIndex
    -- the depth is part of both states, so both refuse to enter or neither does
    · by_cases hdeep : State.maxDepth ≤ s.depth
      · simp only [State.enter, State.depth_withAllowed, hdeep, ↓reduceIte]
        exact Agrees.record hab (.same _ hs) (by decide)
      · simp only [State.enter, State.depth_withAllowed, hdeep, ↓reduceIte]
        refine closed_agrees hab (h.expression .arguments (.same () hs) ?_)
        rw [State.length_pop]
        dsimp only
        omega
    · exact Agrees.skipIndex (.same _ hs)
    · refine Agrees.iteWithCalls (fun _ => ?_) fun _ => hstop none
      refine signed_agrees (h.primary (.same () hs) ?_)
      rw [State.length_pop]
      omega

/-- Two parses agree on a call, whether or not it is nested too deeply. -/
theorem nextCall_agrees (hk : 2 * s.openCall.queue.length + 4 ≤ k) :
    AgreesWithCalls a b ((Parsers.level k).nextCall s) (p.nextCall (s.withAllowed b)) := by
  have hopen : (s.withAllowed b).openCall = s.openCall.withAllowed b := rfl
  have hsopen : s.openCall.allowed = a := hs
  let called (arguments : List Argument) (behind : State) : Call :=
    ⟨textOf (name s.queue).1, arguments, behind.spanFrom s.here⟩
  simp only [Parsers.nextCall, State.queue_withAllowed, State.here_withAllowed, hopen]
  -- too deep, the call is recorded and skipped
  by_cases hdeep : State.maxDepth ≤ s.openCall.depth
  · simp only [State.enter, State.depth_withAllowed, hdeep, ↓reduceIte]
    have hrecord : Follows a b (s.openCall.record .nestedTooDeeply)
        ((s.openCall.withAllowed b).record .nestedTooDeeply) :=
      Agrees.record hab (.same () hsopen) (by decide)
    exact hrecord.skipToClosing.reading (fun _ s => (called [] s, [])) fun _ _ => rfl
  · simp only [State.enter, State.depth_withAllowed, hdeep, ↓reduceIte]
    -- otherwise the arguments are read one level further down
    have hinside : ({ s.openCall with depth := s.openCall.depth + 1 } : State).allowed = a := hs
    have harguments := h.arguments false false 0 (.same () hinside) (.inl hk)
    exact harguments.leave.reading (fun r s => (called r.1 s, r.2)) fun _ _ => rfl

/-- Two parses agree on an argument, with a name or without. -/
theorem argument_agrees (hasNamed : Bool) (position : Nat) (hk : 2 * s.queue.length + 3 ≤ k) :
    AgreesOn a b ((Parsers.level k).argument hasNamed position s)
      (p.argument hasNamed position (s.withAllowed b)) := by
  have hreaches := (argumentName_yields s).reaches
  have hrecorded : Reaches s (if s.argumentName.1.isNone && hasNamed then
      s.argumentName.2.record .positionalAfterNamed else s.argumentName.2) :=
    hreaches.trans (.recordIf _ _ (by decide))
  have hle := hrecorded.length_le
  rw [Parsers.argument, Parsers.argument, State.argumentName_withAllowed]
  dsimp only
  refine afterOperand_agrees hab _ _ _ _ (h.expression .arguments ?_ (by omega))
  exact Agrees.recordIf hab (.same () (hreaches.allowed_eq.trans hs)) _ (by decide)

/-- Two parses agree on a round of an argument list. -/
theorem round_agrees (hasNamed afterComma : Bool) (position : Nat)
    (hk : 2 * s.queue.length + 3 ≤ k ∨ s.EndsArguments) :
    AgreesOn a b ((Parsers.level k).round hasNamed afterComma position s)
      (p.round hasNamed afterComma position (s.withAllowed b)) := by
  have hle := (Reaches.skipLayout s).length_le
  simp only [Parsers.round, State.isHalted_withAllowed, State.isInterrupted_withAllowed,
    State.skipLayout_withAllowed, State.front?_withAllowed]
  refine Agrees.ite (fun _ => .same _ hs) fun hhalted => ?_
  -- the end of the line: the list was not closed
  refine Agrees.ite (fun _ => Agrees.record hab (.same _ hs) (by decide)) fun hinterrupted => ?_
  have hs' : s.skipLayout.allowed = a := hs
  have hrecord {problem : ParseProblem} (round : Round)
      (hproblem : problem.code ≠ .lexicalError ∧ problem.code ≠ .parseTimeout) :
      AgreesOn a b (round, s.skipLayout.record problem)
        (round, (s.skipLayout.withAllowed b).record problem) :=
    Agrees.record hab (.same _ hs') hproblem
  split
  · exact hrecord _ (by decide)
  · exact hrecord _ (by decide)
  · exact (Agrees.recordIf hab (.same _ hs') afterComma (by decide)).pop 1
  · exact (hrecord _ (by decide)).pop 1
  · next token hend hparen _ htoken =>
    -- behind the end of a list there is no argument, so the bound is the one for its tokens
    rcases hk with hk | hends
    · exact argument_agrees hab h hs' hasNamed position (by omega)
    · rcases hends.endsRound hhalted hinterrupted with hfront | hfront | hfront
      all_goals rw [htoken] at hfront
      · cases hfront
      · exact (hend (Option.some.inj hfront)).elim
      · exact (hparen (Option.some.inj hfront)).elim

include hp in
/-- Two parses agree on an argument list: one round, then the others. -/
theorem nextArguments_agrees (hasNamed afterComma : Bool) (position : Nat)
    (hk : 2 * s.queue.length + 3 ≤ k ∨ s.EndsArguments) :
    AgreesWithCalls a b ((Parsers.level k).nextArguments hasNamed afterComma position s)
      (p.nextArguments hasNamed afterComma position (s.withAllowed b)) := by
  have hround := round_agrees hab h hs hasNamed afterComma position hk
  have hexpression := (Parsers.level_moves k).expression .arguments
  have hreaches := Parsers.round_reaches hexpression hasNamed afterComma position s
  have hnext := Parsers.round_next hexpression hasNamed afterComma position s
  have hlast (hends : s.EndsArguments) :=
    Parsers.round_of_endsArguments (p := .level k) hends hasNamed afterComma position
  rw [Parsers.nextArguments, Parsers.nextArguments]
  -- cut off within the round, the first parse stays cut off in the others
  rcases hround.cut_or_same with hcut | ⟨hs', heq⟩
  · exact .cut (hcut.mono ((Parsers.level_moves k).goOn _) ((hp hcut.lt).goOn _))
  rw [heq]
  generalize (Parsers.level k).round hasNamed afterComma position s = r at *
  obtain ⟨⟨given, calls, next⟩, s'⟩ := r
  cases next with
  | none => exact .same _ hs'
  | some next =>
    obtain ⟨hasNamed', afterComma', position'⟩ := next
    have hle := hreaches.length_le
    -- a round shortens the queue or ends the list
    have henough : 2 * s'.queue.length + 4 ≤ k ∨ s'.EndsArguments ∧ 1 ≤ k := by
      rcases hk with hk | hends
      · rcases hnext with hnone | hshort | hends
        · cases hnone
        · dsimp only at hshort
          omega
        · exact .inr ⟨hends, by omega⟩
      · cases hlast hends
    have hrest := h.arguments hasNamed' afterComma' position' (.same () hs') henough
    exact hrest.payload fun r => (given ++ r.1, calls ++ r.2)

end Step

section Run

variable {a b : Nat} (hab : a ≤ b)

/-- One more step on both sides. -/
theorem Lockstep.next {k : Nat} {p : Parsers} (hab : a ≤ b) (h : Lockstep a b k p)
    (hp : a < b → p.Moves) (hnext : a < b → p.next.Moves) : Lockstep a b (k + 1) p.next := by
  have hmoves := Parsers.level_moves (k + 1)
  rw [Parsers.level_succ] at hmoves
  constructor
  all_goals simp only [Parsers.level_succ]
  case primary =>
    intro s t hst hk
    refine hst.step (hmoves.primary s) (fun hlt => (hnext hlt).primary t) ?_
    rintro hs rfl
    exact nextPrimary_agrees hab h hs (by omega)
  case expression =>
    intro setting s t hst hk
    refine hst.step (hmoves.expression setting s) (fun hlt => (hnext hlt).expression setting t) ?_
    rintro hs rfl
    exact nextExpression_agrees h hp hs setting (by omega)
  case tail =>
    intro setting depth consumed s t hst hk
    refine hst.step (hmoves.tail setting depth consumed s)
      (fun hlt => (hnext hlt).tail setting depth consumed t) ?_
    rintro hs rfl
    exact nextTail_agrees h hp hs setting depth consumed (by omega)
  case call =>
    intro s t hst hk
    refine hst.step (hmoves.call s) (fun hlt => (hnext hlt).call t) ?_
    rintro hs rfl
    exact nextCall_agrees hab h hs (by omega)
  case arguments =>
    intro hasNamed afterComma position s t hst hk
    refine hst.step (hmoves.arguments hasNamed afterComma position s)
      (fun hlt => (hnext hlt).arguments hasNamed afterComma position t) ?_
    rintro hs rfl
    exact nextArguments_agrees hab h hp hs hasNamed afterComma position
      (hk.imp (by omega) And.left)

/-- Functions that are `k` steps on top of whatever lies below agree with those
that have `k` steps. -/
theorem lockstep (hab : a ≤ b) (below : Parsers)
    (hmoves : a < b → ∀ k, (Parsers.next^[k] below).Moves) (k : Nat) :
    Lockstep a b k (Parsers.next^[k] below) := by
  induction k with
  | zero => constructor <;> intros <;> omega
  | succ k ih =>
    rw [Function.iterate_succ_apply']
    refine ih.next hab (fun hlt => hmoves hlt k) fun hlt => ?_
    rw [← Function.iterate_succ_apply' Parsers.next k below]
    exact hmoves hlt (k + 1)

/-- Every level is in lockstep with itself, by induction on the level. -/
theorem lockstep_level (hab : a ≤ b) (k : Nat) : Lockstep a b k (Parsers.level k) := by
  have h := lockstep hab (.level 0) (fun _ => Parsers.iterate_moves) k
  rwa [← Parsers.level_eq_iterate] at h

-- ---------------------------------------------------------------------------
-- Statements
-- ---------------------------------------------------------------------------

/-- Two parses agree on an expression. -/
theorem expression_agrees (hab : a ≤ b) (setting : Setting) {s t : State} (h : Follows a b s t) :
    AgreesWithCalls a b (s.expression setting) (t.expression setting) := by
  have hmoves (s : State) : Reaches s (s.expression setting).2.2 :=
    (Parsers.level_moves (fuelFor s.queue)).expression setting s
  refine h.step (hmoves s) (fun _ => hmoves t) ?_
  rintro hs rfl
  have henough : 2 * s.queue.length + 3 ≤ fuelFor s.queue := by
    rw [fuelFor]
    omega
  have hsame := (lockstep_level hab (fuelFor s.queue)).expression setting (.same () hs) henough
  rw [State.expression, State.expression, State.queue_withAllowed]
  exact hsame

/-- Two parses agree on a call and the calls inside it. -/
theorem callWithInner_agrees (hab : a ≤ b) {s t : State} (h : Follows a b s t) :
    AgreesOn a b s.callWithInner t.callWithInner := by
  refine h.step (callWithInner_yields s).reaches (fun _ => (callWithInner_yields t).reaches) ?_
  rintro hs rfl
  have hle := (openCall_reaches s).length_le
  have henough : 2 * s.openCall.queue.length + 5 ≤ fuelFor s.queue := by
    rw [fuelFor]
    omega
  have hcall := (lockstep_level hab (fuelFor s.queue)).call (.same () hs) henough
  rw [State.callWithInner, State.callWithInner, State.queue_withAllowed]
  exact hcall.payload fun r => r.1 :: r.2

/-- Two parses agree on one step through the rest of a line. -/
theorem nextScanLine_agrees (hab : a ≤ b) {k : Nat} {p : Parsers} (hp : a < b → p.Moves)
    (h : ∀ depth {s t}, Follows a b s t → s.queue.length + 1 ≤ k →
      AgreesOn a b ((Parsers.level k).scanLine depth s) (p.scanLine depth t))
    (depth : Nat) {s : State} (hs : s.allowed = a) (hk : s.queue.length ≤ k) :
    AgreesOn a b ((Parsers.level k).nextScanLine depth s)
      (p.nextScanLine depth (s.withAllowed b)) := by
  have hstop : AgreesOn a b (([] : List Call), s) ([], s.withAllowed b) := .same _ hs
  simp only [Parsers.nextScanLine, State.isHalted_withAllowed, State.front?_withAllowed,
    State.queue_withAllowed, State.pop_withAllowed]
  refine Agrees.ite (fun _ => hstop) fun _ => ?_
  cases hfront : s.front? with
  | none => exact hstop
  | some token =>
    have hpos := State.length_pos_of_front? hfront
    have hgo (depth : Nat) : AgreesOn a b ((Parsers.level k).scanLine depth (s.pop 1))
        (p.scanLine depth ((s.pop 1).withAllowed b)) := by
      refine h depth (.same () hs) ?_
      rw [State.length_pop]
      omega
    dsimp only
    split
    case h_1 => exact hstop
    case h_2 | h_3 | h_4 => exact Agrees.ite (fun _ => hstop) fun _ => hgo _
    case h_5 | h_6 | h_10 => exact hgo _
    -- a closing that nothing opened is recorded, and the scan starts again
    case h_7 | h_8 =>
      refine Agrees.ite (fun _ => h 0 ?_ ?_) fun _ => hgo _
      · exact (Agrees.record hab (.same () hs) (by decide)).pop 1
      · rw [State.length_pop, State.queue_record]
        omega
    -- a call, and then the line behind it
    case h_9 =>
      refine Agrees.ite (fun hahead => ?_) fun _ => hgo _
      have hcall : AgreesOn a b s.callWithInner _ := callWithInner_agrees hab (.same () hs)
      have hshort := callWithInner_shortens hahead
      have hlater := h depth hcall.follows (by omega)
      have hboth := hcall.both hlater ((Parsers.level_moves k).scanLine ..)
        fun hlt => (hp hlt).scanLine ..
      exact hboth.payload fun r => r.1 ++ r.2

/-- The scan of a line with `k` steps agrees with one that is `k` steps on top of
whatever lies below. -/
theorem scanLine_agrees (hab : a ≤ b) (below : Parsers)
    (hmoves : a < b → ∀ k, (Parsers.next^[k] below).Moves) (k depth : Nat) {s t : State}
    (h : Follows a b s t) (hk : s.queue.length + 1 ≤ k) :
    AgreesOn a b ((Parsers.level k).scanLine depth s)
      ((Parsers.next^[k] below).scanLine depth t) := by
  induction k generalizing depth s t with
  | zero => omega
  | succ k ih =>
    refine h.step ((Parsers.level_moves (k + 1)).scanLine depth s)
      (fun hlt => (hmoves hlt (k + 1)).scanLine depth t) ?_
    rintro hs rfl
    rw [Parsers.level_succ, Function.iterate_succ_apply']
    exact nextScanLine_agrees hab (fun hlt => hmoves hlt k)
      (fun depth _ _ hst hk => ih depth hst hk) depth hs (by omega)

/-- Two parses agree on the calls on a line. -/
theorem restOfLine_agrees (hab : a ≤ b) {s t : State} (h : Follows a b s t) :
    AgreesOn a b s.scanLine t.scanLine := by
  refine h.step (scanLine_yields _ 0 s).reaches (fun _ => (scanLine_yields _ 0 t).reaches) ?_
  rintro hs rfl
  have hsame := scanLine_agrees hab (.level 0) (fun _ => Parsers.iterate_moves)
    (s.queue.length + 1) 0 (.same () hs) Nat.le.refl
  rwa [← Parsers.level_eq_iterate] at hsame

/-- What a variable is given, when an expression has been looked for. -/
def assigned : Option (Value × Bool) × List Call × State → Option Value × List Call × State
  | (some (value, false), calls, s) => (some value, calls, s)
  | (some (.call found, true), calls, s) => (none, found :: calls, s)
  | (some (_, true), calls, s) => (none, calls, s)
  | (none, calls, s) => (none, calls, (s.record .expectedAssignedValue).skipLine)

/-- Reading off the assigned value leaves the state where the expression left it. -/
theorem assigned_reaches (r : Option (Value × Bool) × List Call × State) :
    Reaches r.2.2 (assigned r).2.2 := by
  fun_cases assigned r with
  | case1 | case2 | case3 => exact .refl _
  | case4 calls s => exact (Reaches.record s (by decide)).trans (.skipLine _)

/-- Two parses agree on the value of an expression that is assigned. -/
theorem assigned_agrees (hab : a ≤ b) {r r' : Option (Value × Bool) × List Call × State}
    (h : AgreesWithCalls a b r r') : AgreesWithCalls a b (assigned r) (assigned r') := by
  rcases h.cut_or_eq with hcut | ⟨hs, rfl⟩
  · exact .cut (hcut.mono (assigned_reaches r) (assigned_reaches r'))
  obtain ⟨operand, calls, s⟩ := r
  rcases operand with _ | ⟨value, isCompound⟩
  · exact (Agrees.record hab (.same _ hs) (by decide)).skipLine
  · cases isCompound with
    | false => exact .same _ hs
    | true => cases value <;> exact .same _ hs

/-- Two parses agree on what stands behind an assignment. -/
theorem assignedValue_agrees (hab : a ≤ b) {s t : State} (h : Follows a b s t) :
    AgreesWithCalls a b (assignedValue s) (assignedValue t) := by
  refine h.step (assignedValue_returns s).reaches (fun _ => (assignedValue_returns t).reaches) ?_
  rintro hs rfl
  have hrecord : AgreesWithCalls a b ((none : Option Value), [], s.record .expectedAssignedValue)
      (none, [], (s.withAllowed b).record .expectedAssignedValue) :=
    Agrees.record hab (.same _ hs) (by decide)
  rw [assignedValue, assignedValue, State.front?_withAllowed]
  split
  · exact .same _ hs
  · exact .same _ hs
  · exact hrecord
  · exact hrecord
  · exact hrecord
  · exact hrecord
  · exact hrecord
  · exact assigned_agrees hab (expression_agrees hab .statement (.same () hs))

/-- Whether a declaration starts with `var` or `varip`. -/
def State.startsVar (s : State) : Bool :=
  s.front? = some (.keyword .varKw) || s.front? = some (.keyword .varipKw)

/-- A declaration behind the word `var` that it may start with. -/
def declared (isVar : Bool) (start : Span) (s : State) : List Node × List Call × State :=
  match declaredType? s.queue with
  | none => ([], [], (s.record .expectedDeclaration).skipLine)
  | some type =>
    let typeName := if type = [] then none else some (textOf type)
    let s := s.pop type.length
    match s.queue with
    | ⟨.identifier name, span⟩ :: op :: _ =>
      let isReassignment := op.token ≠ .operator .assignment
      let (value, calls, s) := assignedValue (s.pop 2)
      let (others, s) := s.scanLine
      let node : Declaration :=
        { name := ⟨name, span⟩
          typeName := typeName
          isVar := isVar
          isReassignment := isReassignment
          value := value
          span := s.spanFrom start }
      ([.declaration node], calls ++ others, s)
    | _ => ([], [], s.pop 1)

/-- A declaration is what follows its optional keyword. -/
theorem declaration_eq_declared (s : State) :
    declaration s = declared s.startsVar s.here (if s.startsVar then s.pop 1 else s) := by
  rewrite [declaration, declared, State.startsVar]
  generalize (s.front? = some (.keyword .varKw) || s.front? = some (.keyword .varipKw) : Bool) =
    isVar
  generalize (if isVar then s.pop 1 else s) = s₁
  cases declaredType? s₁.queue with
  | none => rfl
  | some type =>
    rcases hqueue : (s₁.pop type.length).queue with _ | ⟨⟨token, span⟩, _ | ⟨op, rest⟩⟩
    · simp only [hqueue]
    · cases token <;> simp only [hqueue]
    · cases token <;> simp only [hqueue]

/-- Two parses agree on a declaration behind its optional keyword. -/
theorem declared_agrees (hab : a ≤ b) (isVar : Bool) (start : Span) {s : State}
    (hs : s.allowed = a) :
    AgreesWithCalls a b (declared isVar start s) (declared isVar start (s.withAllowed b)) := by
  rw [declared, declared, State.queue_withAllowed]
  split
  · exact (Agrees.record hab (.same _ hs) (by decide)).skipLine
  · next type htype =>
    -- behind the optional type
    have hs' : (s.pop type.length).allowed = a := hs
    rw [State.pop_withAllowed]
    generalize s.pop type.length = s at hs'
    dsimp only [State.queue_withAllowed]
    split
    · next name span op rest _ =>
      have hvalue := assignedValue_agrees hab ((Agrees.same () hs').pop 2)
      have hline := restOfLine_agrees hab hvalue.follows
      have hboth := hvalue.both hline (scanLine_yields _ 0 _).reaches
        fun _ => (scanLine_yields _ 0 _).reaches
      exact hboth.reading (fun r s =>
        ([Node.declaration
          { name := ⟨name, span⟩
            typeName := if type = [] then none else some (textOf type)
            isVar := isVar
            isReassignment := op.token ≠ .operator .assignment
            value := r.1.1
            span := s.spanFrom start }], r.1.2 ++ r.2)) fun _ _ => rfl
    · exact .same _ hs'

/-- Two parses agree on a declaration. -/
theorem declaration_agrees (hab : a ≤ b) {s t : State} (h : Follows a b s t) :
    AgreesWithCalls a b (declaration s) (declaration t) := by
  refine h.step (declaration_returns s).reaches (fun _ => (declaration_returns t).reaches) ?_
  rintro hs rfl
  have hvar : (s.withAllowed b).startsVar = s.startsVar := rfl
  rw [declaration_eq_declared, declaration_eq_declared, hvar, State.here_withAllowed,
    State.popIf_withAllowed]
  exact declared_agrees hab _ _ ((Reaches.popIf s s.startsVar).allowed_eq.trans hs)

/-- Two parses agree on a statement. -/
theorem statement_agrees (hab : a ≤ b) {s t : State} (h : Follows a b s t) :
    AgreesOn a b (statement s) (statement t) := by
  refine h.step (statement_yields s).reaches (fun _ => (statement_yields t).reaches) ?_
  rintro hs rfl
  have hdeclaration :=
    (declaration_agrees hab (.same () hs)).payload fun r => r.1 ++ r.2.map Node.call
  have hline :=
    (restOfLine_agrees hab (.same () hs)).payload fun calls => [] ++ calls.map Node.call
  simp only [statement, State.front?_withAllowed, State.queue_withAllowed]
  split
  · exact .same _ hs
  split
  case h_1 | h_2 =>
    exact Agrees.map (.same _ hs) .skipDefinition fun s => s.skipDefinition_withAllowed b
  case h_3 => exact .same _ hs
  case h_4 | h_5 => exact .same _ hs
  case h_6 | h_7 => exact hdeclaration
  -- an identifier starts a declaration if its line has the shape of one
  case h_8 =>
    refine Agrees.ite (fun _ => .same _ hs) fun _ => ?_
    exact Agrees.ite (fun _ => hdeclaration) fun _ => hline
  case h_9 => exact hline

/-- Two parses agree on a statement and the statements after it. -/
theorem nextStatements_agrees (hab : a ≤ b) {k : Nat} {p : Parsers} (hp : a < b → p.Moves)
    (h : ∀ {s t}, Follows a b s t → s.queue.length + 1 ≤ k ∨ s.isHalted = true ∧ 1 ≤ k →
      AgreesOn a b ((Parsers.level k).statements s) (p.statements t))
    {s : State} (hs : s.allowed = a) (hk : s.queue.length ≤ k ∨ s.isHalted = true) :
    AgreesOn a b ((Parsers.level k).nextStatements s)
      (p.nextStatements (s.withAllowed b)) := by
  have hstop : AgreesOn a b (([] : List Node), s) ([], s.withAllowed b) := .same _ hs
  simp only [Parsers.nextStatements, State.isHalted_withAllowed, State.front?_withAllowed,
    State.pop_withAllowed]
  refine Agrees.ite (fun _ => hstop) fun hhalted => ?_
  have hle : s.queue.length ≤ k := hk.resolve_right hhalted
  cases hfront : s.front? with
  | none => exact hstop
  | some token =>
    have hpos := State.length_pos_of_front? hfront
    have hgo : AgreesOn a b ((Parsers.level k).statements (s.pop 1))
        (p.statements ((s.pop 1).withAllowed b)) := by
      refine h (.same () hs) (.inl ?_)
      rw [State.length_pop]
      omega
    split
    case h_1 | h_2 => exact hstop
    case h_3 | h_4 | h_5 => exact hgo
    -- the token starts a statement
    case h_6 hend hnewline hindent hdedent htoken =>
      cases htoken
      have hlayout : isLayout token = false := by
        rw [isLayout] <;> assumption
      have hstatement := statement_agrees hab (.same () hs)
      have hle' := (statement_yields s).reaches.length_le
      have hothers := h hstatement.follows
        ((statement_shortens hfront hlayout hend).symm.imp (by omega) (⟨·, by omega⟩))
      have hboth := hstatement.both hothers ((Parsers.level_moves k).statements _)
        fun hlt => (hp hlt).statements _
      exact hboth.payload fun r => r.1 ++ r.2

/-- The statements with `k` steps agree with those that are `k` steps on top of
whatever lies below. -/
theorem statements_agrees (hab : a ≤ b) (below : Parsers)
    (hmoves : a < b → ∀ k, (Parsers.next^[k] below).Moves) (k : Nat) {s t : State}
    (h : Follows a b s t) (hk : s.queue.length + 1 ≤ k ∨ s.isHalted = true ∧ 1 ≤ k) :
    AgreesOn a b ((Parsers.level k).statements s) ((Parsers.next^[k] below).statements t) := by
  induction k generalizing s t with
  | zero => omega
  | succ k ih =>
    refine h.step ((Parsers.level_moves (k + 1)).statements s)
      (fun hlt => (hmoves hlt (k + 1)).statements t) ?_
    rintro hs rfl
    rw [Parsers.level_succ, Function.iterate_succ_apply']
    exact nextStatements_agrees hab (fun hlt => hmoves hlt k) (fun hst hk => ih hst hk) hs
      (hk.imp (by omega) And.left)

end Run

end PineCheck.Parser
