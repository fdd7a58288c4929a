import PineCheck.Proofs.Budget

/-!
# PineCheck — the parser comes to an end

The functions of the parser call each other, and the tokens that one of them takes
are no measure by themselves: a missing value takes none, nor does a parenthesis
that is nested too deeply, nor an argument list that the next statement interrupts.

* `endsWithin` — from every state the recursion comes to its end within `fuelFor`
  steps. What would be called below them makes no difference.
* `statements_ends` — a parse that has not halted stops at the end of the tokens.
* `parseTokens_terminates` — the parse of every list of tokens comes to an end.
-/

namespace PineCheck.Parser

-- ---------------------------------------------------------------------------
-- The depth of the recursion
-- ---------------------------------------------------------------------------

/-- From a state, functions that are `levels` steps on top of `below` give what the
functions of the parser give: the recursion ends before it comes to what lies below. -/
structure EndsWithin (levels : Nat) (below : Parsers) (s : State) : Prop where
  primary : (Parsers.next^[levels] below).primary s = primary (fuelFor s.queue) s
  expression : ∀ setting,
    (Parsers.next^[levels] below).expression setting s = s.expression setting
  tail : ∀ setting depth consumed, (Parsers.next^[levels] below).tail setting depth consumed s =
    tail (fuelFor s.queue) setting depth consumed s
  call : (Parsers.next^[levels] below).call s = call (fuelFor s.queue) s
  arguments : ∀ hasNamed afterComma position,
    (Parsers.next^[levels] below).arguments hasNamed afterComma position s =
      arguments (fuelFor s.queue) hasNamed afterComma position s
  scanLine : ∀ depth, (Parsers.next^[levels] below).scanLine depth s =
    scanLine (s.queue.length + 1) depth s
  statements : (Parsers.next^[levels] below).statements s =
    statements (s.queue.length + 1) s

/-- Two parses that may go on behind the same number of errors do the same. -/
theorem Agrees.eq {a : Nat} {α : Type} {x x' : α} {s t : State} (h : Agrees a a x s x' t) :
    x = x' ∧ s = t := by
  cases h with
  | same h =>
    subst h
    exact ⟨rfl, rfl⟩
  | cut h => exact absurd h.lt (Nat.lt_irrefl a)

theorem Agrees.eq_of_calls {a : Nat} {α : Type} {r r' : α × List Call × State}
    (h : AgreesWithCalls a a r r') : r' = r := by
  obtain ⟨hx, hs⟩ := h.eq
  obtain ⟨hx, hcalls⟩ := Prod.mk.inj hx
  exact Prod.ext hx.symm (Prod.ext hcalls.symm hs.symm)

theorem Agrees.eq_of_pair {a : Nat} {α : Type} {r r' : α × State} (h : AgreesOn a a r r') :
    r' = r :=
  Prod.ext h.eq.1.symm h.eq.2.symm

/-- The recursion of the parser ends within `fuelFor` steps. -/
theorem endsWithin (levels : Nat) (below : Parsers) (s : State)
    (h : fuelFor s.queue ≤ levels) : EndsWithin levels below s := by
  have hfollows : Follows s.allowed s.allowed s s := .refl () rfl
  have hmoves (below : Parsers) :
      s.allowed < s.allowed → ∀ k, (Parsers.next^[k] below).Moves :=
    fun hlt => absurd hlt (Nat.lt_irrefl _)
  have hopen := (openCall_reaches s).length_le
  have hfuel : fuelFor s.queue = 2 * s.queue.length + 8 := rfl
  -- the steps that are not needed belong to what lies below
  have hsplit (k : Nat) (hk : k ≤ levels) :
      Parsers.next^[levels] below = Parsers.next^[k] (Parsers.next^[levels - k] below) := by
    rw [← Function.iterate_add_apply, Nat.add_sub_cancel' hk]
  have hstep := lockstep Nat.le.refl (Parsers.next^[levels - fuelFor s.queue] below)
    (hmoves _) (fuelFor s.queue)
  rw [← hsplit _ h] at hstep
  have hline := hsplit (s.queue.length + 1) (by omega)
  exact {
    primary := (hstep.primary hfollows (by omega)).eq_of_calls
    expression := fun setting => (hstep.expression setting hfollows (by omega)).eq_of_calls
    tail := fun setting depth consumed =>
      (hstep.tail setting depth consumed hfollows (by omega)).eq_of_calls
    call := (hstep.call hfollows (by omega)).eq_of_calls
    arguments := fun hasNamed afterComma position =>
      (hstep.arguments hasNamed afterComma position hfollows (.inl (by omega))).eq_of_calls
    scanLine := fun depth => by
      rw [hline]
      exact (scanLine_agrees Nat.le.refl _ (hmoves _) _ depth hfollows Nat.le.refl).eq_of_pair
    statements := by
      rw [hline]
      exact (statements_agrees Nat.le.refl _ (hmoves _) _ hfollows (.inl Nat.le.refl)).eq_of_pair }

-- ---------------------------------------------------------------------------
-- The end of a parse
-- ---------------------------------------------------------------------------

/-- A parse that has not halted stops at the end of the tokens. -/
theorem statements_ends (fuel : Nat) (s : State) (h : s.queue.length + 1 ≤ fuel) :
    (statements fuel s).2.isHalted = true ∨ (statements fuel s).2.front? = none ∨
      (statements fuel s).2.front? = some .endOfFile := by
  fun_induction statements fuel s with
  | case1 => omega
  | case2 fuel s hhalted => exact .inl hhalted
  | case3 fuel s _ hnone => exact .inr (.inl hnone)
  | case4 fuel s _ hend => exact .inr (.inr hend)
  | case5 fuel s _ hfront ih | case6 fuel s _ hfront ih | case7 fuel s _ hfront ih =>
    have hpos := State.length_pos_of_front? hfront
    refine ih ?_
    rw [State.length_pop]
    omega
  | case8 fuel s _ token hend hnewline hindent hdedent hfront nodes s' hstatement others s''
      hothers ih =>
    have hlayout : isLayout token = false := by
      rw [isLayout] <;> assumption
    have hshort := statement_shortens hfront hlayout hend
    have hrest := (statements_yields fuel s').reaches
    rw [hstatement] at hshort
    rw [hothers] at ih hrest
    rcases hshort with hhalted | hlt
    · exact .inl (hrest.halted hhalted).1
    · exact ih (by dsimp only at hlt; omega)

/-- A round of an argument list is the last one, takes a token, or is followed by the
last one. -/
theorem round_ends (fuel : Nat) (hasNamed afterComma : Bool) (position : Nat) (s : State)
    {round : Round} {s' : State}
    (h : (Parsers.level fuel).round hasNamed afterComma position s = (round, s')) :
    round.next = none ∨ s'.queue.length < s.queue.length ∨
      ∀ (p : Parsers) hasNamed' afterComma' position',
        (p.round hasNamed' afterComma' position' s').1.next = none := by
  have hnext := Parsers.round_next ((Parsers.level_moves fuel).expression .arguments) hasNamed
    afterComma position s
  rw [h] at hnext
  exact hnext.imp_right (.imp_right fun hends _ => Parsers.round_of_endsArguments hends)

end PineCheck.Parser

namespace PineCheck

open PineCheck.Parser

/-- **The parse of every list of tokens comes to an end.** Its recursion does, from every
state; its queue is always an end of the tokens that are kept; a statement takes a
token or halts the parse; an argument list is read in rounds, each of which is the
last one, takes a token, or is followed by the last one; and a parse that has not
halted has come to the end of the tokens. -/
theorem parseTokens_terminates (tokens : List Lexed) (allowed : Nat) :
    (∀ levels below s, fuelFor s.queue ≤ levels → EndsWithin levels below s) ∧
    ((∀ fuel, (Parsers.level fuel).Moves) ∧ (∀ s, Reaches s (statement s).2) ∧
      ∀ s, Reaches (State.start tokens allowed) s → s.queue <:+ State.kept tokens) ∧
    (∀ s token, s.front? = some token → token ≠ .newline → token ≠ .indent →
      token ≠ .dedent → token ≠ .endOfFile →
      (statement s).2.isHalted = true ∨ (statement s).2.queue.length < s.queue.length) ∧
    (∀ fuel hasNamed afterComma position s, ∃ round s',
      (Parsers.level fuel).round hasNamed afterComma position s = (round, s') ∧
      arguments (fuel + 1) hasNamed afterComma position s =
        (Parsers.level fuel).goOn (round, s') ∧
      (round.next = none ∨ s'.queue.length < s.queue.length ∨
        ∀ (p : Parsers) hasNamed' afterComma' position',
          (p.round hasNamed' afterComma' position' s').1.next = none)) ∧
    ((parseTokens tokens allowed).isHalted = false →
      (finalState tokens allowed).queue = [] ∨
      (finalState tokens allowed).front? = some .endOfFile) := by
  refine ⟨endsWithin, ⟨Parsers.level_moves, fun s => (statement_yields s).reaches,
    fun s hs => hs.queue_suffix⟩, ?_, ?_, ?_⟩
  · intro s token hfront hnewline hindent hdedent hend
    have hlayout : isLayout token = false := by
      rw [isLayout] <;> assumption
    exact statement_shortens hfront hlayout hend
  · intro fuel hasNamed afterComma position s
    exact ⟨_, _, rfl, Parsers.arguments_succ fuel hasNamed afterComma position s,
      round_ends fuel hasNamed afterComma position s rfl⟩
  · intro hhalted
    rw [isHalted_parseTokens] at hhalted
    have hends := statements_ends ((State.kept tokens).length + 1) (State.start tokens allowed)
      Nat.le.refl
    rcases hends with h | h | h
    · exact absurd (h.symm.trans hhalted) (by decide)
    · rw [State.front?, Option.map_eq_none_iff, List.head?_eq_none_iff] at h
      exact .inl h
    · exact .inr h

end PineCheck
