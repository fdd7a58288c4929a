import PineCheck.Proofs.Termination

/-!
# PineCheck — the parser without a count of steps

The functions of the parser count the steps that they may still go down, and
`fuelFor` gives enough of them. This module leaves the count out: `Parsers.full`
holds the functions with as many steps as their queues need.

* `Parsers.full_primary` and the equations behind it — a step on top of these
  functions is these functions again, so that each can be unfolded as if it did not
  count.
* `Contract.Steps.holds_expression`, `Contract.Steps.holds_call` — what is to be said
  of the functions that read expressions and calls may be proved for a state as if it
  were known already of all states that the functions go on to from there.
-/

namespace PineCheck.Parser

-- ---------------------------------------------------------------------------
-- Unfolding
-- ---------------------------------------------------------------------------

namespace Parsers

/-- The functions of the parser, with as many steps as their queues need. -/
def full : Parsers where
  primary s := Parser.primary (fuelFor s.queue) s
  expression setting s := s.expression setting
  tail setting depth consumed s := Parser.tail (fuelFor s.queue) setting depth consumed s
  call s := Parser.call (fuelFor s.queue) s
  arguments hasNamed afterComma position s :=
    Parser.arguments (fuelFor s.queue) hasNamed afterComma position s
  scanLine depth s := Parser.scanLine (s.queue.length + 1) depth s
  statements s := Parser.statements (s.queue.length + 1) s

theorem full_moves : full.Moves where
  primary s := (level_moves _).primary s
  expression setting s := (level_moves _).expression setting s
  tail setting depth consumed s := (level_moves _).tail setting depth consumed s
  call s := (level_moves _).call s
  arguments hasNamed afterComma position s :=
    (level_moves _).arguments hasNamed afterComma position s
  scanLine depth s := (level_moves _).scanLine depth s
  statements s := (level_moves _).statements s

/-- A round that is not the last one is followed by the arguments behind it. -/
theorem goOn_some (p : Parsers) (given : List Argument) (calls : List Call)
    (hasNamed afterComma : Bool) (position : Nat) (s : State) :
    p.goOn (⟨given, calls, some (hasNamed, afterComma, position)⟩, s) =
      (given ++ (p.arguments hasNamed afterComma position s).1,
        calls ++ (p.arguments hasNamed afterComma position s).2.1,
        (p.arguments hasNamed afterComma position s).2.2) :=
  rfl

/-- Any steps on top of enough steps make no difference. -/
theorem iterate_full (k : Nat) (s : State) :
    EndsWithin k (next^[fuelFor s.queue] (level 0)) s := by
  have h := endsWithin (k + fuelFor s.queue) (level 0) s (Nat.le_add_left ..)
  have hsplit : next^[k + fuelFor s.queue] (level 0) =
      next^[k] (next^[fuelFor s.queue] (level 0)) :=
    Function.iterate_add_apply ..
  constructor
  all_goals rw [← hsplit]
  · exact h.primary
  · exact h.expression
  · exact h.tail
  · exact h.call
  · exact h.arguments
  · exact h.scanLine
  · exact h.statements

/-- The functions with `k` steps are those with as many as needed, wherever `k`
steps are enough. -/
theorem lockstep_full (a k : Nat) : Lockstep a a k full := by
  have hlock (t : State) :=
    lockstep (a := a) Nat.le.refl (next^[fuelFor t.queue] (level 0))
      (fun hlt => absurd hlt (Nat.lt_irrefl a)) k
  constructor
  case primary =>
    intro s t hst hk
    have h := (hlock t).primary hst hk
    rwa [(iterate_full k t).primary] at h
  case expression =>
    intro setting s t hst hk
    have h := (hlock t).expression setting hst hk
    rwa [(iterate_full k t).expression] at h
  case tail =>
    intro setting depth consumed s t hst hk
    have h := (hlock t).tail setting depth consumed hst hk
    rwa [(iterate_full k t).tail] at h
  case call =>
    intro s t hst hk
    have h := (hlock t).call hst hk
    rwa [(iterate_full k t).call] at h
  case arguments =>
    intro hasNamed afterComma position s t hst hk
    have h := (hlock t).arguments hasNamed afterComma position hst hk
    rwa [(iterate_full k t).arguments] at h

section Step

variable (s : State)

/-- With one step more, the functions still agree with those that have as many as
needed. -/
theorem lockstep_next : Lockstep s.allowed s.allowed (fuelFor s.queue + 1) full.next :=
  (lockstep_full s.allowed (fuelFor s.queue)).next Nat.le.refl
    (fun hlt => absurd hlt (Nat.lt_irrefl _)) fun hlt => absurd hlt (Nat.lt_irrefl _)

/-- Reading an operand is one step of it. -/
theorem full_primary : full.primary s = full.nextPrimary s := by
  have hk : 2 * s.queue.length + 2 ≤ fuelFor s.queue + 1 := by
    rw [fuelFor]
    omega
  have hleft := (lockstep_full s.allowed _).primary (.refl () rfl) hk
  have hright := (lockstep_next s).primary (.refl () rfl) hk
  exact hleft.eq_of_calls.trans hright.eq_of_calls.symm

/-- Reading an expression is one step of it. -/
theorem full_expression (setting : Setting) :
    full.expression setting s = full.nextExpression setting s := by
  have hk : 2 * s.queue.length + 3 ≤ fuelFor s.queue + 1 := by
    rw [fuelFor]
    omega
  have hleft := (lockstep_full s.allowed _).expression setting (.refl () rfl) hk
  have hright := (lockstep_next s).expression setting (.refl () rfl) hk
  exact hleft.eq_of_calls.trans hright.eq_of_calls.symm

/-- Reading a tail is one step of it. -/
theorem full_tail (setting : Setting) (depth : Nat) (consumed : Bool) :
    full.tail setting depth consumed s = full.nextTail setting depth consumed s := by
  have hk : 2 * s.queue.length + 2 ≤ fuelFor s.queue + 1 := by
    rw [fuelFor]
    omega
  have hleft := (lockstep_full s.allowed _).tail setting depth consumed (.refl () rfl) hk
  have hright := (lockstep_next s).tail setting depth consumed (.refl () rfl) hk
  exact hleft.eq_of_calls.trans hright.eq_of_calls.symm

/-- Reading a call is one step of it. -/
theorem full_call : full.call s = full.nextCall s := by
  have hk : 2 * s.openCall.queue.length + 5 ≤ fuelFor s.queue + 1 := by
    have hle := (openCall_reaches s).length_le
    rw [fuelFor]
    omega
  have hleft := (lockstep_full s.allowed _).call (.refl () rfl) hk
  have hright := (lockstep_next s).call (.refl () rfl) hk
  exact hleft.eq_of_calls.trans hright.eq_of_calls.symm

/-- Reading an argument list is one step of it. -/
theorem full_arguments (hasNamed afterComma : Bool) (position : Nat) :
    full.arguments hasNamed afterComma position s =
      full.nextArguments hasNamed afterComma position s := by
  have hk : 2 * s.queue.length + 4 ≤ fuelFor s.queue + 1 := by
    rw [fuelFor]
    omega
  have hleft := (lockstep_full s.allowed _).arguments hasNamed afterComma position
    (.refl () rfl) (.inl hk)
  have hright := (lockstep_next s).arguments hasNamed afterComma position
    (.refl () rfl) (.inl hk)
  exact hleft.eq_of_calls.trans hright.eq_of_calls.symm

/-- An expression that was read has taken tokens. -/
theorem full_expression_shortens {setting : Setting}
    (h : (full.expression setting s).1.isSome = true) :
    (full.expression setting s).2.2.queue.length < s.queue.length := by
  rw [full_expression, nextExpression] at h ⊢
  have hprimary := primary_shortens (fuelFor s.queue) s (Nat.le_add_left 2 _)
  have hle := (full_moves.withTail setting (full.primary s)).length_le
  rcases heq : full.primary s with ⟨operand, calls, s'⟩
  rw [show Parser.primary (fuelFor s.queue) s = (operand, calls, s') from heq] at hprimary
  rw [heq] at h hle
  cases operand with
  | none => cases h
  | some operand => exact Nat.lt_of_le_of_lt hle (hprimary rfl)

end Step

/-- So has a call that was read. -/
theorem full_call_shortens {s s' : State} (hahead : isCallAhead s.queue = true) {found : Call}
    {inner : List Call} (h : full.call s = (found, inner, s')) :
    s'.queue.length < s.queue.length := by
  have hlt := callWithInner_shortens hahead
  rwa [show s.callWithInner.2 = s' from congrArg (·.2.2) h] at hlt

end Parsers

-- ---------------------------------------------------------------------------
-- Induction
-- ---------------------------------------------------------------------------

/-- Something to be said of the functions that read expressions and calls, state by
state. -/
structure Contract where
  primary : State → Prop
  expression : Setting → State → Prop
  tail : Setting → Nat → Bool → State → Prop
  call : State → Prop
  arguments : Bool → Bool → Nat → State → Prop

/-- A contract follows for each function from what it says of the functions that are
called, where they are called. -/
structure Contract.Steps (C : Contract) : Prop where
  primary : ∀ s, (isCallAhead s.queue = true → C.call s) →
    (∀ t, t.queue.length < s.queue.length → C.primary t) →
    (∀ t, t.queue.length < s.queue.length → C.expression .arguments t) → C.primary s
  expression : ∀ setting s, C.primary s →
    (∀ t, t.queue.length ≤ s.queue.length → C.tail setting 0 false t) → C.expression setting s
  tail : ∀ setting depth consumed s, (isCallAhead s.queue = true → C.call s) →
    (∀ depth consumed t, t.queue.length < s.queue.length → C.tail setting depth consumed t) →
      C.tail setting depth consumed s
  call : ∀ s, isCallAhead s.queue = true →
    (∀ t, t.queue.length + 2 ≤ s.queue.length → C.arguments false false 0 t) → C.call s
  arguments : ∀ hasNamed afterComma position s,
    (∀ t, t.queue.length ≤ s.queue.length → C.expression .arguments t) →
    (∀ round t hasNamed' afterComma' position',
      Parsers.full.round hasNamed afterComma position s = (round, t) →
      round.next = some (hasNamed', afterComma', position') →
        C.arguments hasNamed' afterComma' position' t) →
      C.arguments hasNamed afterComma position s

/-- A contract holds of all states with short queues. The functions do not shorten
the queue whenever they call each other, so each counts for itself. -/
structure Contract.Below (C : Contract) (m : Nat) : Prop where
  primary : ∀ s, 3 * s.queue.length + 1 < m → C.primary s
  expression : ∀ setting s, 3 * s.queue.length + 2 < m → C.expression setting s
  tail : ∀ setting depth consumed s, 3 * s.queue.length + 1 < m → C.tail setting depth consumed s
  call : ∀ s, isCallAhead s.queue = true → 3 * s.queue.length < m → C.call s
  arguments : ∀ hasNamed afterComma position s,
    3 * s.queue.length + 4 < m ∨ s.EndsArguments ∧ 3 * s.queue.length + 3 < m →
      C.arguments hasNamed afterComma position s

namespace Contract

variable {C : Contract}

/-- Where another round follows, it is a shorter way to the end. -/
theorem Below.round {m : Nat} (h : C.Below m) {hasNamed afterComma : Bool} {position : Nat}
    {s : State} (hs : 3 * s.queue.length + 4 < m + 1 ∨ s.EndsArguments)
    {round : Round} {t : State} {hasNamed' afterComma' : Bool} {position' : Nat}
    (hround : Parsers.full.round hasNamed afterComma position s = (round, t))
    (hnext : round.next = some (hasNamed', afterComma', position')) :
    C.arguments hasNamed' afterComma' position' t := by
  have hexpression := Parsers.full_moves.expression .arguments
  have hgoes := Parsers.round_next hexpression hasNamed afterComma position s
  have hreaches := Parsers.round_reaches hexpression hasNamed afterComma position s
  rw [hround] at hgoes hreaches
  have hle := hreaches.length_le
  dsimp only at hgoes hle
  rw [hnext] at hgoes
  -- a round shortens the queue or reaches the end of the list, where no other one follows
  rcases hs with hm | hends
  · refine h.arguments _ _ _ t ?_
    rcases hgoes with hnone | hlt | hends
    · cases hnone
    · exact .inl (by omega)
    · exact .inr ⟨hends, by omega⟩
  · have hlast := Parsers.round_of_endsArguments (p := .full) hends hasNamed afterComma position
    rw [hround, hnext] at hlast
    cases hlast

/-- A contract that every step keeps holds one size further up. -/
theorem Below.succ (hC : C.Steps) {m : Nat} (h : C.Below m) : C.Below (m + 1) where
  primary s hs :=
    hC.primary s (fun hahead => h.call s hahead (by omega))
      (fun t ht => h.primary t (by omega)) fun t ht => h.expression .arguments t (by omega)
  expression setting s hs :=
    hC.expression setting s (h.primary s (by omega)) fun t ht => h.tail setting 0 false t (by omega)
  tail setting depth consumed s hs :=
    hC.tail setting depth consumed s (fun hahead => h.call s hahead (by omega))
      fun depth consumed t ht => h.tail setting depth consumed t (by omega)
  call s hahead hs :=
    hC.call s hahead fun t ht => h.arguments false false 0 t (.inl (by omega))
  arguments hasNamed afterComma position s hs :=
    hC.arguments hasNamed afterComma position s
      (fun t ht => h.expression .arguments t (by omega))
      fun _ _ _ _ _ => h.round (hs.imp_right And.left)

/-- A contract that every step keeps holds at every size. -/
theorem Steps.below (hC : C.Steps) (m : Nat) : C.Below m := by
  induction m with
  | zero => constructor <;> intros <;> omega
  | succ m ih => exact ih.succ hC

/-- A contract that follows step by step holds of every expression. -/
theorem Steps.holds_expression (hC : C.Steps) (setting : Setting) (s : State) :
    C.expression setting s :=
  (hC.below _).expression setting s (Nat.lt_succ_self _)

/-- A contract that follows step by step holds of every call. -/
theorem Steps.holds_call (hC : C.Steps) {s : State} (h : isCallAhead s.queue = true) :
    C.call s :=
  (hC.below _).call s h (Nat.lt_succ_self _)

end Contract

end PineCheck.Parser
