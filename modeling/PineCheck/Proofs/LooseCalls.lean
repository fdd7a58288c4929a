import Mathlib.Data.List.Infix
import PineCheck.Proofs.Likeness
import PineCheck.Proofs.Statements

/-!
# PineCheck — two ways to the calls of a script

`extractCalls` goes over a script token by token and lists the calls that it meets.
`parse` goes over statements, and `Program.calls` lists the calls in them. Both find
the same calls in the same order, in scripts without errors that define and import
nothing, as long as no call stands in square brackets: those behind the first operand
of an expression are skipped by a parse without a look at what is in them.

* `Passes.lists` — a token by token search over what a parse passes lists the calls of
  that stretch.
* `extractCalls_eq_calls` — both ways find the same calls.
* `extractCalls_finds_index` — a call in the brackets behind an operand may be found by
  one of them only.
-/

namespace PineCheck.Parser

-- ---------------------------------------------------------------------------
-- The search, token by token
-- ---------------------------------------------------------------------------

/-- The calls that are found from `t` on are `calls`, and those that are found from
`t'` on. -/
def Lists (t : State) (calls : List Call) (t' : State) : Prop :=
  ∀ fuel, t.queue.length < fuel → ∃ n, t'.queue.length < n ∧
    (looseCalls fuel t).1 = calls ++ (looseCalls n t').1

namespace Lists

variable {t t' t'' : State} {calls later : List Call}

theorem refl (t : State) : Lists t [] t :=
  fun fuel hfuel => ⟨fuel, hfuel, rfl⟩

theorem trans (h : Lists t calls t') (h' : Lists t' later t'') : Lists t (calls ++ later) t'' := by
  intro fuel hfuel
  obtain ⟨n, hn, hcalls⟩ := h fuel hfuel
  obtain ⟨m, hm, hlater⟩ := h' n hn
  exact ⟨m, hm, by rw [hcalls, hlater, List.append_assoc]⟩

/-- A token at which no call starts is taken. -/
theorem pop {placed : Placed} {rest : Queue} (hq : t.queue = placed :: rest)
    (hhalted : t.isHalted = false) (hlacks : LacksDefinitions t.queue)
    (hend : placed.token ≠ .endOfFile) (hcall : isCallAhead t.queue = false) :
    Lists t [] (t.pop 1) := by
  intro fuel hfuel
  obtain ⟨fuel, rfl⟩ := Nat.exists_eq_succ_of_ne_zero (Nat.ne_zero_of_lt hfuel)
  have hpos : 0 < t.queue.length := by
    rw [hq]
    exact Nat.succ_pos _
  refine ⟨fuel, by rw [State.length_pop]; omega, ?_⟩
  rw [List.nil_append, looseCalls, t.front?_of_queue hq, isDefinitionAhead_eq_false hlacks, hcall,
    hhalted]
  split
  · contradiction
  · split
    · contradiction
    · next hfront => exact absurd (Option.some.inj hfront) hend
    · rfl
    · rfl

/-- A call is listed with the calls in its arguments that are not kept there. -/
theorem call (hhalted : t.isHalted = false) (hlacks : LacksDefinitions t.queue)
    (hahead : isCallAhead t.queue = true) :
    Lists t t.callWithInner.1 t.callWithInner.2 := by
  intro fuel hfuel
  obtain ⟨fuel, rfl⟩ := Nat.exists_eq_succ_of_ne_zero (Nat.ne_zero_of_lt hfuel)
  have hshort := callWithInner_shortens hahead
  obtain ⟨front, rest, word, hq, hword⟩ := exists_front_of_isCallAhead hahead
  refine ⟨fuel, by omega, ?_⟩
  rw [looseCalls, t.front?_of_queue hq, hword, isDefinitionAhead_eq_false hlacks, hahead, hhalted]
  rfl

/-- Tokens are taken one after another if no call starts at any of them. -/
theorem skip (hhalted : t.isHalted = false) (hlacks : LacksDefinitions t.queue) {n : Nat}
    (hends : ∀ i < n, ∃ placed, t.queue[i]? = some placed ∧ placed.token ≠ .endOfFile)
    (hcalls : ∀ i < n, isCallAhead (t.queue.drop i) = false) : Lists t [] (t.pop n) := by
  induction n generalizing t with
  | zero => exact refl t
  | succ n ih =>
    obtain ⟨placed, hplaced, hend⟩ := hends 0 (Nat.succ_pos n)
    obtain ⟨rest, hq⟩ : ∃ rest, t.queue = placed :: rest :=
      List.head?_eq_some_iff.mp (List.head?_eq_getElem? ▸ hplaced)
    have hqueue : (t.pop 1).queue = t.queue.drop 1 := rfl
    have hfirst := pop hq hhalted hlacks hend (hcalls 0 (Nat.succ_pos n))
    have hothers : Lists (t.pop 1) [] ((t.pop 1).pop n) := by
      refine ih hhalted (hlacks.reaches (.pop t 1)) (fun i hi => ?_) fun i hi => ?_
      · rw [hqueue, List.getElem?_drop, Nat.add_comm]
        exact hends (i + 1) (Nat.succ_lt_succ hi)
      · rw [hqueue, List.drop_drop, Nat.add_comm]
        exact hcalls (i + 1) (Nat.succ_lt_succ hi)
    rw [State.pop_pop, Nat.add_comm] at hothers
    exact hfirst.trans hothers

end Lists

-- ---------------------------------------------------------------------------
-- Brackets that are skipped
-- ---------------------------------------------------------------------------

/-- No call starts in square brackets. -/
def NoCallInBrackets (q : Queue) : Prop :=
  ∀ inner, inner <:+ q → startsWith inner (.punctuation .bracketLeft) = true →
    ∀ i < bracketsLength 0 inner, isCallAhead (inner.drop i) = false

instance (q : Queue) : Decidable (NoCallInBrackets q) :=
  decidable_of_iff (∀ inner ∈ q.tails, startsWith inner (.punctuation .bracketLeft) = true →
    ∀ i < bracketsLength 0 inner, isCallAhead (inner.drop i) = false)
    (by simp only [NoCallInBrackets, List.mem_tails])

/-- Brackets are skipped within the file. -/
theorem getElem?_of_lt_bracketsLength {depth : Nat} {q : Queue} {i : Nat}
    (h : i < bracketsLength depth q) :
    ∃ placed, q[i]? = some placed ∧ placed.token ≠ .endOfFile := by
  fun_induction bracketsLength depth q generalizing i with
  | case1 => cases h
  | case2 => cases h
  | case4 depth placed rest htoken hdepth =>
    obtain rfl : i = 0 := Nat.lt_one_iff.mp h
    exact ⟨placed, rfl, by rw [htoken]; nofun⟩
  | case3 depth placed rest htoken ih | case5 depth placed rest htoken _ ih =>
    cases i with
    | zero => exact ⟨placed, rfl, by rw [htoken]; nofun⟩
    | succ i => exact ih (Nat.lt_of_succ_lt_succ h)
  | case6 depth placed rest hend _ _ ih =>
    cases i with
    | zero => exact ⟨placed, rfl, hend⟩
    | succ i => exact ih (Nat.lt_of_succ_lt_succ h)

/-- No call starts at a bracket. -/
theorem isCallAhead_of_bracket {placed : Placed} (h : isOpening placed.token = true ∨
    isClosing placed.token = true) (rest : Queue) : isCallAhead (placed :: rest) = false := by
  rw [Bool.eq_false_iff]
  intro hahead
  obtain ⟨front, _, word, hcons, hword⟩ := exists_front_of_isCallAhead hahead
  cases hcons
  rw [hword] at h
  rcases h with h | h
  · cases h
  · cases h

/-- **The search lists what a parse passes.** It meets the same calls, wherever the
parse has met them. -/
theorem Passes.lists {q : Queue} (hlacks : LacksDefinitions q) (hq : NoCallInBrackets q)
    {s s' : State} {depth depth' : Nat} {calls : List Call}
    (h : Passes s depth calls s' depth') (hs : s.queue <:+ q) {t : State} (ht : Alike 0 s t) :
    s'.queue <:+ q ∧ ∃ t', Lists t calls t' ∧ Alike 0 s' t' := by
  have hlacks' {s t : State} (hs : s.queue <:+ q) (ht : Alike 0 s t) : LacksDefinitions t.queue :=
    fun placed hp => hlacks placed (hs.subset (ht.queue ▸ hp))
  have hbracket {s t : State} {token : Token} (hs : s.queue <:+ q) (ht : Alike 0 s t)
      (hfront : s.front? = some token)
      (hbracket : isOpening token = true ∨ isClosing token = true) : Lists t [] (t.pop 1) := by
    obtain ⟨front, rest, hqueue, rfl⟩ := exists_queue_of_front? hfront
    have hqueue' := ht.queue.trans hqueue
    have hahead := hqueue' ▸ isCallAhead_of_bracket hbracket rest
    refine .pop hqueue' ht.halted (hlacks' hs ht) ?_ hahead
    intro hend
    rw [hend] at hbracket
    exact hbracket.elim nofun nofun
  induction h generalizing t with
  | refl s depth => exact ⟨hs, t, .refl t, ht⟩
  | trans first next ih ih' =>
    obtain ⟨hs', t', hlists, ht'⟩ := ih hs ht
    obtain ⟨hs'', t'', hlists', ht''⟩ := ih' hs' ht'
    exact ⟨hs'', t'', hlists.trans hlists', ht''⟩
  | plain hqueue hplain depth =>
    refine ⟨(List.drop_suffix ..).trans hs, t.pop 1, ?_, ht.pop 1⟩
    exact .pop (ht.queue.trans hqueue) ht.halted (hlacks' hs ht) hplain.end_
      (by rw [ht.queue, hqueue, hplain.call])
  | opening hfront hopens depth =>
    exact ⟨(List.drop_suffix ..).trans hs, t.pop 1, hbracket hs ht hfront (.inl hopens), ht.pop 1⟩
  | closing hfront hcloses depth =>
    exact ⟨(List.drop_suffix ..).trans hs, t.pop 1, hbracket hs ht hfront (.inr hcloses), ht.pop 1⟩
  | forget s hle => exact ⟨hs, t, .refl t, ht⟩
  | @brackets s hfront depth =>
    refine ⟨(List.drop_suffix ..).trans hs, t.pop (bracketsLength 0 s.queue), ?_, ht.pop _⟩
    refine .skip ht.halted (hlacks' hs ht) (fun i hi => ?_) fun i hi => ?_
    · rw [ht.queue]
      exact getElem?_of_lt_bracketsLength hi
    · rw [ht.queue]
      exact hq s.queue hs (startsWith_of_front? hfront) i hi
  | @call s inner hahead hclean hinside depth ih =>
    have hto := Parsers.full_moves.call s
    obtain ⟨heq, ht'⟩ := likeness_steps.holds_call hahead 0 t ht hclean
    have hcall := Lists.call ht.halted (hlacks' hs ht) (ht.queue ▸ hahead)
    refine ⟨hto.queue_suffix.trans hs, t.callWithInner.2, ?_, ht'⟩
    rw [Prod.mk.injEq] at heq
    rw [← heq.1, ← heq.2]
    exact hcall
  | aside hqueue hlast depth =>
    refine ⟨hqueue ▸ hs, t, .refl t, ?_⟩
    exact ⟨ht.queue.trans hqueue.symm, ht.last.trans hlast.symm, ht.halted, ht.depth, Nat.zero_le _⟩

end PineCheck.Parser

namespace PineCheck

open PineCheck.Parser

/-- **Both ways find the same calls.** In a script without errors that defines no types
and functions and imports nothing, and without calls in square brackets, the token by
token search finds the calls of the statements, in their order. -/
theorem extractCalls_eq_calls (source : String)
    (hlacks : LacksDefinitions (State.kept (lex source)))
    (hbrackets : NoCallInBrackets (State.kept (lex source)))
    (herrors : (parse source defaultAllowed).errors = []) :
    extractCalls source = (parse source defaultAllowed).program.calls := by
  obtain ⟨hpasses, -, hends⟩ := parse_passes hlacks herrors
  have hstart : Alike 0 (State.start (lex source) defaultAllowed)
      (State.start (lex source) defaultAllowed) :=
    ⟨rfl, rfl, rfl, rfl, Nat.zero_le _⟩
  obtain ⟨-, t, hlists, ht⟩ := hpasses.lists hlacks hbrackets List.suffix_rfl hstart
  obtain ⟨n, -, hcalls⟩ := hlists ((State.kept (lex source)).length + 1) (Nat.lt_succ_self _)
  have hrest : (looseCalls n t).1 = [] := by
    rw [← ht.front?] at hends
    cases n with
    | zero => rfl
    | succ n =>
      rw [looseCalls, ht.halted]
      rcases hends with hnone | hend
      · rw [hnone]
        rfl
      · rw [hend]
        rfl
  rw [hrest, List.append_nil] at hcalls
  exact hcalls

/-- The calls here stand in parentheses, in arguments and behind operands. -/
theorem extractCalls_eq_calls_nested :
    (extractCalls "x = (f(a[1], g(2) + h(3)))\nplot(x)\n").map Call.name = ["f", "h", "plot"] ∧
      extractCalls "x = (f(a[1], g(2) + h(3)))\nplot(x)\n" =
        (parse "x = (f(a[1], g(2) + h(3)))\nplot(x)\n" defaultAllowed).program.calls :=
  ⟨by decide +kernel, extractCalls_eq_calls "x = (f(a[1], g(2) + h(3)))\nplot(x)\n"
    (by decide +kernel) (by decide +kernel) (by decide +kernel)⟩

/-- **A call in the brackets behind an operand may be found by the search only.** The
parse of this script has no errors and no warnings. -/
theorem extractCalls_finds_index :
    LacksDefinitions (State.kept (lex "x = close[f(1)]\n")) ∧
      (parse "x = close[f(1)]\n" defaultAllowed).errors = [] ∧
      (parse "x = close[f(1)]\n" defaultAllowed).warnings = [] ∧
      (extractCalls "x = close[f(1)]\n").map Call.name = ["f"] ∧
      (parse "x = close[f(1)]\n" defaultAllowed).program.calls.map Call.name = [] := by
  decide +kernel

end PineCheck
