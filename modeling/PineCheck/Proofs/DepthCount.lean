import PineCheck.Proofs.Readers

/-!
# PineCheck — the count of parentheses stays within its bounds

The parser counts the parentheses that it is inside of by adding one where it enters and
taking one away where it leaves. An `Alarm` is anything that a parser might do instead
when the count is out of bounds: when it is above `State.maxDepth` behind an entry, or when
there is nothing to take away. The functions below are those that read operands and calls,
with both places guarded by an alarm, and `Alarm.readers` are the readers of a parse that is
made of them. They do the same as the parser whatever the alarm does, so it never goes off.

* `Alarm.level_agrees` — from any state within bounds, the functions that read expressions
  and calls never set off an alarm.
* `Alarm.readers_agree` — nor do the readers of a parse, wherever it may go from there.
* `nesting_bounded` — neither do a parse and the search for calls alone, and the calls that
  they find are no higher than the parentheses that may be open.
-/

namespace PineCheck

namespace Parser

-- ---------------------------------------------------------------------------
-- A parser with an alarm
-- ---------------------------------------------------------------------------

/-- What a parser does when its count of parentheses is out of bounds. -/
structure Alarm where
  onEnter : State → Bool × State
  onLeave : State → State

namespace Alarm

variable (alarm : Alarm)

/-- Enters a parenthesis, and sees whether too many are open then. -/
def enter (s : State) : Bool × State :=
  if s.enter.2.depth ≤ State.maxDepth then s.enter else alarm.onEnter s

/-- Leaves a parenthesis, if one is open and not too many are. -/
def leave (s : State) : State :=
  if 0 < s.depth ∧ s.depth ≤ State.maxDepth then s.leave else alarm.onLeave s

/-- Leaves a parenthesis behind the closing one, which may be missing. -/
def close (s : State) : State :=
  alarm.leave (if s.front? = some (.punctuation .parenRight) then s.pop 1
    else s.record .expectedParenthesis)

/-- An operand in parentheses. -/
def closed : Option (Value × Bool) × List Call × State → Option (Value × Bool) × List Call × State
  | (some value, calls, s) => (some value, calls, (alarm.close s).skipIndex)
  | (none, calls, s) => (none, calls, alarm.close s)

/-- An operand. -/
def nextPrimary (p : Parsers) (s : State) : Option (Value × Bool) × List Call × State :=
  if s.front? = some (.punctuation .parenLeft) then
    match alarm.enter s with
    | (false, s) => (none, [], s)
    | (true, s) => alarm.closed (p.expression .arguments (s.pop 1))
  else p.nextPrimary s

/-- A call. -/
def nextCall (p : Parsers) (s : State) : Call × List Call × State :=
  let text := textOf (name s.queue).1
  match alarm.enter s.openCall with
  | (true, inside) =>
    let (arguments, calls, behind) := p.arguments false false 0 inside
    (⟨text, arguments, (alarm.leave behind).spanFrom s.here⟩, calls, alarm.leave behind)
  | (false, inside) =>
    (⟨text, [], inside.skipToClosing.spanFrom s.here⟩, [], inside.skipToClosing)

/-- One step of every function. -/
def next (p : Parsers) : Parsers :=
  { p.next with
    primary := alarm.nextPrimary p
    call := alarm.nextCall p }

/-- The functions with `fuel` steps. -/
def level (fuel : Nat) : Parsers :=
  alarm.next^[fuel] (Parsers.level 0)

/-- The readers of a parse that an alarm guards. -/
def readers : Readers :=
  .ofLevels alarm.level

end Alarm

-- ---------------------------------------------------------------------------
-- Expressions and calls
-- ---------------------------------------------------------------------------

/-- Functions that do the same in all states with a count of parentheses within bounds. -/
structure Parsers.AgreesInBounds (p q : Parsers) : Prop where
  primary : ∀ {s : State}, s.depth ≤ State.maxDepth → p.primary s = q.primary s
  expression : ∀ setting {s : State}, s.depth ≤ State.maxDepth →
    p.expression setting s = q.expression setting s
  tail : ∀ setting depth consumed {s : State}, s.depth ≤ State.maxDepth →
    p.tail setting depth consumed s = q.tail setting depth consumed s
  call : ∀ {s : State}, s.depth ≤ State.maxDepth → p.call s = q.call s
  arguments : ∀ hasNamed afterComma position {s : State}, s.depth ≤ State.maxDepth →
    p.arguments hasNamed afterComma position s = q.arguments hasNamed afterComma position s

namespace Alarm

variable (alarm : Alarm)

/-- Within the limit entering does not raise the alarm. -/
theorem enter_eq {s : State} (h : s.depth ≤ State.maxDepth) : alarm.enter s = s.enter := by
  rw [enter, if_pos]
  rcases heq : s.enter with ⟨entered, s'⟩
  cases entered with
  | false => exact (State.depth_of_enter_false heq).trans_le h
  | true =>
    obtain ⟨hlt, hdepth⟩ := State.depth_of_enter_true heq
    exact hdepth.trans_le hlt

/-- Within the limit leaving does not raise the alarm. -/
theorem leave_eq {s : State} (hpos : 0 < s.depth) (h : s.depth ≤ State.maxDepth) :
    alarm.leave s = s.leave :=
  if_pos ⟨hpos, h⟩

/-- Within the limit closing does not raise the alarm. -/
theorem close_eq {s : State} (hpos : 0 < s.depth) (h : s.depth ≤ State.maxDepth) :
    alarm.close s = s.close := by
  have hdepth : (if s.front? = some (.punctuation .parenRight) then s.pop 1
      else s.record .expectedParenthesis).depth = s.depth := by
    split <;> simp
  rw [close, State.close, leave_eq] <;> omega

/-- The end of a parenthesised expression does not raise the alarm. -/
theorem closed_eq {r : Option (Value × Bool) × List Call × State} (hpos : 0 < r.2.2.depth)
    (h : r.2.2.depth ≤ State.maxDepth) : alarm.closed r = Parser.closed r := by
  obtain ⟨operand, calls, s⟩ := r
  cases operand with
  | none => rw [closed, Parser.closed, alarm.close_eq hpos h]
  | some => rw [closed, Parser.closed, alarm.close_eq hpos h]

end Alarm

section
variable (p : Parsers) {s : State} (h : s.front? = some (.punctuation .parenLeft))
include h

/-- A parenthesis that is nested too deeply. -/
theorem Parsers.nextPrimary_of_enter_false {outside : State}
    (henter : s.enter = (false, outside)) : p.nextPrimary s = (none, [], outside) := by
  obtain ⟨front, rest, hqueue, hfront⟩ := exists_queue_of_front? h
  simp only [nextPrimary, hqueue, hfront, literalOf?, henter]

/-- A parenthesis that is entered. -/
theorem Parsers.nextPrimary_of_enter_true {inside : State} (henter : s.enter = (true, inside)) :
    p.nextPrimary s = closed (p.expression .arguments (inside.pop 1)) := by
  obtain ⟨front, rest, hqueue, hfront⟩ := exists_queue_of_front? h
  simp only [nextPrimary, hqueue, hfront, literalOf?, henter]

end

namespace Parsers.AgreesInBounds

variable {p q : Parsers} (h : p.AgreesInBounds q) (hq : q.Fitting) {s : State}
  (hs : s.depth ≤ State.maxDepth)
include h hs

/-- An operand that is not in parentheses. -/
theorem unparenthesized (hfront : s.front? ≠ some (.punctuation .parenLeft)) :
    p.nextPrimary s = q.nextPrimary s :=
  nextPrimary_congr (h.call hs) (fun _ hparen => absurd hparen hfront)
    fun _ _ _ _ => h.primary (s := s.pop 1) hs

theorem round (hasNamed afterComma : Bool) (position : Nat) :
    p.round hasNamed afterComma position s = q.round hasNamed afterComma position s :=
  round_congr (h.expression .arguments ((depth_afterName hasNamed s.skipLayout).trans_le hs))
    afterComma position

include hq

/-- One step of an operand does not raise the alarm. -/
theorem nextPrimary (alarm : Alarm) : alarm.nextPrimary p s = q.nextPrimary s := by
  unfold Alarm.nextPrimary
  split
  · next hparen =>
    rw [alarm.enter_eq hs]
    rcases henter : s.enter with ⟨entered, inside⟩
    cases entered with
    | false => exact (q.nextPrimary_of_enter_false hparen henter).symm
    | true =>
      -- entered below the limit, the level is at most the limit
      obtain ⟨hlt, hinside⟩ := State.depth_of_enter_true henter
      have hle : (inside.pop 1).depth ≤ State.maxDepth := hinside.trans_le hlt
      -- what was read inside comes back at the level it started on
      have hbehind := (hq.expression .arguments (inside.pop 1)).depth
      rw [State.depth_pop, hinside] at hbehind
      rw [q.nextPrimary_of_enter_true hparen henter]
      show alarm.closed (p.expression .arguments (inside.pop 1)) = _
      rw [h.expression .arguments hle]
      exact alarm.closed_eq (by omega) (by omega)
  · next hparen => exact h.unparenthesized hs hparen

theorem nextExpression (setting : Setting) :
    p.nextExpression setting s = q.nextExpression setting s :=
  nextExpression_congr (h.primary hs)
    (h.tail setting 0 false ((hq.primary s).depth.trans_le hs))

theorem nextTail (setting : Setting) (depth : Nat) (consumed : Bool) :
    p.nextTail setting depth consumed s = q.nextTail setting depth consumed s :=
  nextTail_congr (h.call hs) (fun depth consumed => h.tail setting depth consumed (s := s.pop 1) hs)
    (fun depth => h.tail setting depth true ((hq.call s).depth.trans_le hs)) depth consumed

/-- One step of a call does not raise the alarm. -/
theorem nextCall (alarm : Alarm) : alarm.nextCall p s = q.nextCall s := by
  have hopen : s.openCall.depth ≤ State.maxDepth := hs
  unfold Alarm.nextCall Parsers.nextCall
  rw [alarm.enter_eq hopen]
  rcases henter : s.openCall.enter with ⟨entered, inside⟩
  cases entered with
  | false => rfl
  | true =>
    obtain ⟨hlt, hinside⟩ := State.depth_of_enter_true henter
    have hle : inside.depth ≤ State.maxDepth := hinside.trans_le hlt
    -- the arguments come back at the level they started on
    have hbehind := (hq.arguments false false 0 inside).depth
    have hleave : alarm.leave (q.arguments false false 0 inside).2.2 =
        (q.arguments false false 0 inside).2.2.leave :=
      alarm.leave_eq (by omega) (by omega)
    simp only [h.arguments false false 0 hle, hleave]

/-- One step of an argument list does not raise the alarm. -/
theorem nextArguments (hasNamed afterComma : Bool) (position : Nat) :
    p.nextArguments hasNamed afterComma position s =
      q.nextArguments hasNamed afterComma position s :=
  nextArguments_congr (h.round hs hasNamed afterComma position) fun _ _ _ =>
    h.arguments _ _ _ ((hq.round hasNamed afterComma position s).depth.trans_le hs)

end Parsers.AgreesInBounds

namespace Alarm

variable (alarm : Alarm)

/-- From a state within bounds, the functions of the parser never set off an alarm. -/
theorem level_agrees (fuel : Nat) : (alarm.level fuel).AgreesInBounds (Parsers.level fuel) := by
  induction fuel with
  | zero => exact ⟨fun _ => rfl, fun _ _ _ => rfl, fun _ _ _ _ _ => rfl, fun _ => rfl,
      fun _ _ _ _ _ => rfl⟩
  | succ fuel ih =>
    have hfitting := Parsers.level_fitting fuel
    rw [level, Function.iterate_succ_apply', ← level, Parsers.level_succ]
    exact {
      primary := fun hs => ih.nextPrimary hfitting hs alarm
      expression := fun setting _ hs => ih.nextExpression hfitting hs setting
      tail := fun setting depth consumed _ hs => ih.nextTail hfitting hs setting depth consumed
      call := fun hs => ih.nextCall hfitting hs alarm
      arguments := fun hasNamed afterComma position _ hs =>
        ih.nextArguments hfitting hs hasNamed afterComma position }

/-- Wherever a parse may go from a state within bounds, its readers do not set off an alarm. -/
theorem readers_agree {s : State} (hs : s.depth ≤ State.maxDepth) :
    alarm.readers.AgreesFrom s :=
  .of_levels
    (fun fuel setting _ hstays =>
      (alarm.level_agrees fuel).expression setting (hstays.depth.trans_le hs))
    (fun fuel _ hstays => (alarm.level_agrees fuel).call (hstays.depth.trans_le hs))

end Alarm

end Parser

open PineCheck.Parser

/-- The nesting of a script is bounded. -/
structure BoundedNesting (source : String) (allowed : Nat) : Prop where
  /-- No call in the tree is higher than the parentheses that may be open and one more. -/
  tree : ∀ call ∈ (parse source allowed).program.calls.flatMap Call.walk, call.height ≤ 128
  /-- Nor is one of those that are found without a tree. -/
  search : ∀ call ∈ (extractCalls source).flatMap Call.walk, call.height ≤ 128
  /-- As many parentheses are open behind an operand as before it. -/
  primary : ∀ fuel s, (primary fuel s).2.2.depth = s.depth
  /-- The same holds of a call. -/
  call : ∀ fuel s, (call fuel s).2.2.depth = s.depth
  /-- It also holds of an argument list, which is read inside of its parentheses. -/
  arguments : ∀ fuel hasNamed afterComma position s,
    (arguments fuel hasNamed afterComma position s).2.2.depth = s.depth
  /-- No alarm goes off in a parse. -/
  statements_silent : ∀ (alarm : Alarm) fuel,
    alarm.readers.statements fuel (State.start (lex source) allowed) =
      statements fuel (State.start (lex source) allowed)
  /-- Nor does one in the search for calls alone. -/
  looseCalls_silent : ∀ (alarm : Alarm) fuel,
    alarm.readers.looseCalls fuel (State.start (lex source) defaultAllowed) =
      looseCalls fuel (State.start (lex source) defaultAllowed)

/-- **Calls are nested to a bounded height**, and the parser leaves every parenthesis that it
enters: whatever number of errors a parse goes on behind, the count of parentheses that are
open never falls below 0 and never rises above `State.maxDepth`. -/
theorem nesting_bounded (source : String) (allowed : Nat) : BoundedNesting source allowed where
  tree _ hcall :=
    (statements_fits ((State.kept (lex source)).length + 1) _).height_le_of_mem_walk hcall
  search _ hcall :=
    (looseCalls_fits ((State.kept (lex source)).length + 1) _).height_le_of_mem_walk hcall
  primary fuel s := ((Parsers.level_fitting fuel).primary s).depth
  call fuel s := ((Parsers.level_fitting fuel).call s).depth
  arguments fuel hasNamed afterComma position s :=
    ((Parsers.level_fitting fuel).arguments hasNamed afterComma position s).depth
  statements_silent alarm := Readers.statements_eq (alarm.readers_agree (Nat.zero_le _))
  looseCalls_silent alarm := Readers.looseCalls_eq (alarm.readers_agree (Nat.zero_le _))

end PineCheck
