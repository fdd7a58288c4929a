import PineCheck.Proofs.Readers

/-!
# PineCheck — how many operands are read inside each other

The parser stops where parentheses are nested too deeply, so that operands in parentheses
and operands that are given to calls are read inside each other only so often. The operand
behind a sign is read inside the one with the sign as well, and signs are not counted.

`limited` is a parser that may read as many operands inside each other as there is room
for. What it does when there is none left is up to an alarm, so that it never runs out of
room if it does what the parser does whatever the alarm is.

* `limited_agrees` — how much room is enough from a state.
* `parse_within_room` — the room that is enough for a parse: for each parenthesis that may
  be open, and once more, one operand and the signs that may stand in a row before it.
* `no_room_suffices` — no room is enough for all scripts.
-/

namespace PineCheck

namespace Parser

-- ---------------------------------------------------------------------------
-- Signs
-- ---------------------------------------------------------------------------

/-- How many signs stand at the front of a queue: operators before their only operand. -/
def leadingSigns (q : Queue) : Nat :=
  (q.takeWhile fun placed => isUnary placed.token).length

/-- The greatest number of signs that stand in a row. -/
def signsInRow : Queue → Nat
  | [] => 0
  | placed :: q => max (leadingSigns (placed :: q)) (signsInRow q)

/-- A sign in front is one more. -/
theorem leadingSigns_cons {front : Placed} (h : isUnary front.token = true) (rest : Queue) :
    leadingSigns (front :: rest) = leadingSigns rest + 1 := by
  unfold leadingSigns
  rw [List.takeWhile_cons, if_pos h]
  rfl

/-- The signs in front are no more than the most in a row. -/
theorem leadingSigns_le_signsInRow (q : Queue) : leadingSigns q ≤ signsInRow q := by
  cases q with
  | nil => exact Nat.le.refl
  | cons placed q => exact Nat.le_max_left ..

/-- The rest of a queue has no more signs in a row. -/
theorem signsInRow_le_of_suffix {q r : Queue} (h : q <:+ r) : signsInRow q ≤ signsInRow r := by
  induction r with
  | nil => rw [List.suffix_nil.mp h]
  | cons placed r ih =>
    rcases List.suffix_cons_iff.mp h with rfl | h
    · exact Nat.le.refl
    · exact (ih h).trans (Nat.le_max_right ..)

-- ---------------------------------------------------------------------------
-- Room
-- ---------------------------------------------------------------------------

/-- A state from which operands may be read inside each other. The parenthesis of a call
takes room for one operand and its signs, and so does every other one that may still be
entered; `more` operands have room beside them. -/
structure State.HasRoom (signs more room : Nat) (s : State) : Prop where
  signs_le : signsInRow s.queue ≤ signs
  room_le : (maxDepth - s.depth) * (signs + 1) + more ≤ room

namespace State.HasRoom

variable {signs more room : Nat} {s : State} (h : s.HasRoom signs more room)
include h

/-- Room that is there stays so while the depth does. -/
theorem after {s' : State} (hs : Stays s s') : s'.HasRoom signs more room where
  signs_le := (signsInRow_le_of_suffix hs.suffix).trans h.signs_le
  room_le := by
    rw [hs.depth]
    exact h.room_le

theorem fewer {less : Nat} (hle : less ≤ more) : s.HasRoom signs less room :=
  ⟨h.signs_le, (Nat.add_le_add_left hle _).trans h.room_le⟩

/-- A parenthesis that is entered gives its room to the operand behind it. -/
theorem enter {inside : State} (henter : s.enter = (true, inside)) :
    inside.HasRoom signs (signs + 1) room := by
  obtain ⟨hlt, hinside⟩ := State.depth_of_enter_true henter
  have hdepth : maxDepth - s.depth = maxDepth - inside.depth + 1 := by omega
  have hroom := h.room_le
  rw [hdepth, Nat.succ_mul] at hroom
  refine ⟨?_, by omega⟩
  rw [State.queue_eq_of_enter henter]
  exact h.signs_le

end State.HasRoom

-- ---------------------------------------------------------------------------
-- A parser with limited room
-- ---------------------------------------------------------------------------

/-- What reads an operand. -/
abbrev OperandReader : Type :=
  State → Option (Value × Bool) × List Call × State

/-- The functions of the parser with `fuel` steps, of which `primary` may be active as many
times at once as there is room for. When it is needed once more the alarm goes off. -/
def limited (alarm : OperandReader) : Nat → Nat → Parsers
  | 0, _ => Parsers.level 0
  | fuel + 1, room =>
    { (limited alarm fuel room).next with
      primary :=
        match room with
        | 0 => alarm
        | room + 1 => (limited alarm fuel room).nextPrimary }

/-- The readers of a parse with limited room. -/
def limitedReaders (alarm : OperandReader) (room : Nat) : Readers :=
  .ofLevels fun fuel => limited alarm fuel room

/-- Functions that do the same in all states from which there is room for what they read. -/
structure Parsers.AgreesInRoom (signs room : Nat) (p q : Parsers) : Prop where
  primary : ∀ {s : State}, s.HasRoom signs (leadingSigns s.queue + 1) room →
    p.primary s = q.primary s
  expression : ∀ setting {s : State}, s.HasRoom signs (signs + 1) room →
    p.expression setting s = q.expression setting s
  tail : ∀ setting depth consumed {s : State}, s.HasRoom signs 0 room →
    p.tail setting depth consumed s = q.tail setting depth consumed s
  call : ∀ {s : State}, s.HasRoom signs 0 room → p.call s = q.call s
  arguments : ∀ hasNamed afterComma position {s : State}, s.HasRoom signs (signs + 1) room →
    p.arguments hasNamed afterComma position s = q.arguments hasNamed afterComma position s

namespace Parsers.AgreesInRoom

variable {signs room fuel : Nat} {p : Parsers} (h : p.AgreesInRoom signs room (level fuel))
  {s : State}
include h

/-- Inside an operand there is room for one operand less. -/
theorem nextPrimary (hs : s.HasRoom signs (leadingSigns s.queue) room) :
    p.nextPrimary s = (level fuel).nextPrimary s := by
  refine nextPrimary_congr (h.call (hs.fewer (Nat.zero_le _))) ?_ ?_
  · intro inside _ henter
    exact h.expression .arguments ((hs.enter henter).after (.pop inside 1))
  -- the operand behind a sign has one sign less before it
  · intro front rest hqueue hunary
    have hsigns : leadingSigns s.queue = leadingSigns (s.pop 1).queue + 1 := by
      show leadingSigns s.queue = leadingSigns (s.queue.drop 1) + 1
      rw [hqueue]
      exact leadingSigns_cons hunary rest
    exact h.primary (hsigns ▸ hs.after (.pop s 1))

/-- With room enough, a step of an expression does not raise the alarm. -/
theorem nextExpression (hs : s.HasRoom signs (signs + 1) room) (setting : Setting) :
    p.nextExpression setting s = (level fuel).nextExpression setting s := by
  have hfirst : leadingSigns s.queue + 1 ≤ signs + 1 :=
    Nat.succ_le_succ ((leadingSigns_le_signsInRow s.queue).trans hs.signs_le)
  have hstays := Stays.of_reaches ((level_moves fuel).primary s)
    ((level_fitting fuel).primary s).depth
  exact nextExpression_congr (h.primary (hs.fewer hfirst))
    (h.tail setting 0 false ((hs.after hstays).fewer (Nat.zero_le _)))

/-- With room enough, a step of a tail does not raise the alarm. -/
theorem nextTail (hs : s.HasRoom signs 0 room) (setting : Setting) (depth : Nat)
    (consumed : Bool) :
    p.nextTail setting depth consumed s = (level fuel).nextTail setting depth consumed s := by
  have hstays := Stays.of_reaches ((level_moves fuel).call s) ((level_fitting fuel).call s).depth
  exact nextTail_congr (h.call hs)
    (fun depth consumed => h.tail setting depth consumed (hs.after (.pop s 1)))
    (fun depth => h.tail setting depth true (hs.after hstays)) depth consumed

/-- With room enough, a step of a call does not raise the alarm. -/
theorem nextCall (hs : s.HasRoom signs 0 room) :
    p.nextCall s = (level fuel).nextCall s := by
  have hopen : Stays s s.openCall := .of_reaches (openCall_reaches s) s.depth_openCall
  unfold Parsers.nextCall
  rcases henter : s.openCall.enter with ⟨entered, inside⟩
  cases entered with
  | false => rfl
  | true => simp only [h.arguments false false 0 ((hs.after hopen).enter henter)]

/-- With room enough, a step of an argument list does not raise the alarm. -/
theorem nextArguments (hs : s.HasRoom signs (signs + 1) room) (hasNamed afterComma : Bool)
    (position : Nat) :
    p.nextArguments hasNamed afterComma position s =
      (level fuel).nextArguments hasNamed afterComma position s := by
  have hname := Stays.of_reaches
    ((argumentName_yields s.skipLayout).reaches.trans (.recordIf _ _ (by decide)))
    (depth_afterName hasNamed s.skipLayout)
  have hround := Stays.of_reaches
    (round_reaches ((level_moves fuel).expression .arguments) hasNamed afterComma position s)
    ((level_fitting fuel).round hasNamed afterComma position s).depth
  exact nextArguments_congr
    (round_congr (h.expression .arguments ((hs.after (.pop s _)).after hname)) afterComma position)
    fun _ _ _ => h.arguments _ _ _ (hs.after hround)

end Parsers.AgreesInRoom

/-- Where there is room for what is read, the alarm does not go off. -/
theorem limited_agrees (alarm : OperandReader) (signs fuel room : Nat) :
    (limited alarm fuel room).AgreesInRoom signs room (Parsers.level fuel) := by
  induction fuel generalizing room with
  | zero => exact ⟨fun _ => rfl, fun _ _ _ => rfl, fun _ _ _ _ _ => rfl, fun _ => rfl,
      fun _ _ _ _ _ => rfl⟩
  | succ fuel ih =>
    rw [Parsers.level_succ]
    refine {
      primary := ?_
      expression := fun setting _ hs => (ih room).nextExpression hs setting
      tail := fun setting depth consumed _ hs => (ih room).nextTail hs setting depth consumed
      call := fun hs => (ih room).nextCall hs
      arguments := fun hasNamed afterComma position _ hs =>
        (ih room).nextArguments hs hasNamed afterComma position }
    intro s hs
    cases room with
    | zero => exact absurd hs.room_le (Nat.not_succ_le_zero _)
    | succ room => exact (ih room).nextPrimary ⟨hs.signs_le, Nat.le_of_succ_le_succ hs.room_le⟩

/-- Wherever a parse may go, there is room for an expression. -/
theorem limitedReaders_agrees (alarm : OperandReader) {signs room : Nat} {s : State}
    (hs : s.HasRoom signs (signs + 1) room) : (limitedReaders alarm room).AgreesFrom s :=
  .of_levels
    (fun fuel setting _ hstays =>
      (limited_agrees alarm signs fuel room).expression setting (hs.after hstays))
    (fun fuel _ hstays =>
      (limited_agrees alarm signs fuel room).call ((hs.after hstays).fewer (Nat.zero_le _)))

-- ---------------------------------------------------------------------------
-- Signs without end
-- ---------------------------------------------------------------------------

/-- A queue with leading signs starts with one. -/
theorem exists_sign_of_pos {q : Queue} (h : 0 < leadingSigns q) :
    ∃ front rest, q = front :: rest ∧ isUnary front.token = true := by
  cases q with
  | nil => cases h
  | cons front rest =>
    refine ⟨front, rest, rfl, ?_⟩
    by_contra hnot
    unfold leadingSigns at h
    rw [List.takeWhile_cons, if_neg hnot] at h
    cases h

/-- A sign in front is taken, and an operand is read behind it. -/
theorem Parsers.nextPrimary_of_sign (p : Parsers) {s : State} {front : Placed} {rest : Queue}
    (hqueue : s.queue = front :: rest) (hunary : isUnary front.token = true) :
    p.nextPrimary s = signed (p.primary (s.pop 1)) := by
  obtain ⟨token, span⟩ := front
  revert hqueue hunary
  fun_cases isUnary token with
  | case1 | case2 | case3 =>
    intro hqueue _
    unfold Parsers.nextPrimary
    rw [hqueue]
    rfl
  | case4 => exact fun _ hfalse => absurd hfalse Bool.false_ne_true

/-- Signs take up all the room there is, with no parenthesis among them. -/
theorem limited_primary_of_signs {calls : List Call} {s' : State} {fuel room : Nat} {s : State}
    (hfuel : room < fuel) (hroom : room ≤ leadingSigns s.queue) :
    (limited (fun _ => (none, calls, s')) fuel room).primary s = (none, calls, s') := by
  induction room generalizing fuel s with
  | zero =>
    obtain ⟨fuel, rfl⟩ := Nat.exists_eq_add_of_lt hfuel
    rfl
  | succ room ih =>
    obtain ⟨fuel, rfl⟩ : ∃ k, fuel = k + 1 := ⟨fuel - 1, by omega⟩
    obtain ⟨front, rest, hqueue, hunary⟩ :=
      exists_sign_of_pos ((Nat.succ_pos room).trans_le hroom)
    have hrest : room ≤ leadingSigns (s.pop 1).queue := by
      rw [hqueue, leadingSigns_cons hunary] at hroom
      show room ≤ leadingSigns (s.queue.drop 1)
      rw [hqueue]
      exact Nat.le_of_succ_le_succ hroom
    show (limited _ fuel room).nextPrimary s = _
    rw [Parsers.nextPrimary_of_sign _ hqueue hunary, ih (by omega) hrest]
    rfl

/-- More signs than there is room for raise the alarm. -/
theorem limited_expression_of_signs {calls : List Call} {s' : State} {fuel room : Nat} {s : State}
    (setting : Setting) (hfuel : room < fuel) (hroom : room ≤ leadingSigns s.queue) :
    (limited (fun _ => (none, calls, s')) (fuel + 1) room).expression setting s =
      (none, calls, s') := by
  show Parsers.withTail _ setting ((limited _ fuel room).primary s) = _
  rw [limited_primary_of_signs hfuel hroom]
  rfl

-- ---------------------------------------------------------------------------
-- Scripts with many signs
-- ---------------------------------------------------------------------------

/-- A state that a parse has halted in. -/
def halted (attempts : Nat) : State where
  queue := []
  last := default
  errors := []
  warnings := []
  attempts := attempts
  allowed := 0
  isHalted := true
  depth := 0

/-- The tokens of an assignment to a variable with signs before the value. -/
def signedAssignment (signs : Nat) : List Lexed :=
  [⟨.ok (.identifier "x"), default⟩, ⟨.ok (.operator .assignment), default⟩] ++
    List.replicate signs ⟨.ok (.operator .minus), default⟩ ++ [⟨.ok (.identifier "a"), default⟩]

/-- The tokens of the assignment, all of them kept. -/
theorem kept_signedAssignment (signs : Nat) : State.kept (signedAssignment signs) =
    ⟨.identifier "x", default⟩ :: ⟨.operator .assignment, default⟩ ::
      (List.replicate signs ⟨.operator .minus, default⟩ ++ [⟨.identifier "a", default⟩]) := by
  simp [State.kept, signedAssignment]

/-- Signs in a row in front are leading ones. -/
theorem le_leadingSigns_replicate (signs : Nat) (rest : Queue) :
    signs ≤ leadingSigns (List.replicate signs ⟨.operator .minus, default⟩ ++ rest) := by
  induction signs with
  | zero => exact Nat.zero_le _
  | succ signs ih =>
    rw [List.replicate_succ, List.cons_append, leadingSigns_cons rfl]
    exact Nat.succ_le_succ ih

/-- The readers of a parse that halts when there is no room left. -/
def haltingReaders (room attempts : Nat) : Readers :=
  limitedReaders (fun _ => (none, [], halted attempts)) room

/-- The expression behind the assignment halts the parse. -/
theorem expression_of_signs (room attempts : Nat) (setting : Setting) {s : State}
    (h : room ≤ leadingSigns s.queue) :
    (haltingReaders room attempts).expression s setting = (none, [], halted attempts) := by
  have hlength : leadingSigns s.queue ≤ s.queue.length := (List.takeWhile_prefix _).length_le
  exact limited_expression_of_signs setting (show room < 2 * s.queue.length + 7 by omega) h

/-- The assignment halts the parse. -/
theorem statement_of_signs (room attempts : Nat) {s : State} {rest : Queue}
    (hqueue : s.queue = ⟨.identifier "x", default⟩ :: ⟨.operator .assignment, default⟩ ::
      ⟨.operator .minus, default⟩ :: rest)
    (h : room ≤ leadingSigns (⟨.operator .minus, default⟩ :: rest)) :
    ((haltingReaders room attempts).statement s).2 = halted attempts := by
  -- the value starts with the signs
  have hvalue : (haltingReaders room attempts).assignedValue (s.pop 2) =
      (none, [], halted attempts) := by
    have hread := expression_of_signs room attempts .statement (s := s.pop 2)
      (by rw [State.pop, hqueue]; exact h)
    have hfront : (s.pop 2).front? = some (.operator .minus) := by
      rw [State.front?, State.pop, hqueue]
      rfl
    unfold Readers.assignedValue
    simp only [hfront, hread]
    rfl
  have hfront : s.front? = some (.identifier "x") := s.front?_of_queue hqueue
  -- the name and the operator announce a declaration without a type
  have htype : declaredType? s.queue = some [] := by
    rw [hqueue]
    rfl
  have hvar : s.startsVar = false := by
    rw [State.startsVar, hfront]
    rfl
  have hahead : isDefinitionAhead s.queue = false := by
    rw [hqueue]
    rfl
  have hdeclaration : ((haltingReaders room attempts).declaration s).2.2 = halted attempts := by
    unfold Readers.declaration Readers.declared
    simp only [hvar, Bool.false_eq_true, if_false, htype, List.length_nil, State.pop_zero]
    simp only [hqueue, hvalue]
    rfl
  unfold Readers.statement
  simp only [hfront, hahead, htype, Bool.false_eq_true, if_false, Option.isSome_some, if_true]
  exact hdeclaration

/-- A parse that halts when there is no room left does so among more signs than that. -/
theorem attempts_of_signs (room attempts allowed : Nat) :
    ((haltingReaders room attempts).parseTokens (signedAssignment (room + 1)) allowed).attempts =
      attempts := by
  have hqueue : (State.start (signedAssignment (room + 1)) allowed).queue = _ :=
    kept_signedAssignment (room + 1)
  have hsigns : room ≤ leadingSigns (List.replicate (room + 1) ⟨.operator .minus, default⟩ ++
      [⟨.identifier "a", default⟩]) :=
    (Nat.le_succ room).trans (le_leadingSigns_replicate ..)
  have hhalted : (State.start (signedAssignment (room + 1)) allowed).isHalted = false := rfl
  unfold Readers.parseTokens
  generalize State.start (signedAssignment (room + 1)) allowed = start at hqueue hhalted
  have hstatement := statement_of_signs room attempts hqueue hsigns
  have hfront := start.front?_of_queue hqueue
  dsimp only
  unfold Readers.statements
  simp only [hhalted, Bool.false_eq_true, if_false, hfront, hstatement]
  cases start.queue.length <;> rfl

end Parser

open PineCheck.Parser

/-- **The room that is enough for a parse.** As many operands may be read inside each other
as one operand and its signs for every parenthesis that may be open, and one and its signs
beside them. A parse never needs more room, and neither does the search for calls alone. -/
theorem parse_within_room (alarm : OperandReader) (tokens : List Lexed) (allowed : Nat) :
    let room := (State.maxDepth + 1) * (signsInRow (State.kept tokens) + 1)
    (limitedReaders alarm room).parseTokens tokens allowed = parseTokens tokens allowed ∧
      ∀ fuel, (limitedReaders alarm room).looseCalls fuel (State.start tokens allowed) =
        looseCalls fuel (State.start tokens allowed) := by
  intro room
  have hroom : (State.start tokens allowed).HasRoom (signsInRow (State.kept tokens))
      (signsInRow (State.kept tokens) + 1) room :=
    ⟨Nat.le.refl, (Nat.succ_mul State.maxDepth _).ge⟩
  have hagrees := limitedReaders_agrees alarm hroom
  exact ⟨Readers.parseTokens_eq hagrees, fun fuel => Readers.looseCalls_eq hagrees fuel⟩

/-- **No room is enough for all scripts**: the signs of an assignment may need any. -/
theorem no_room_suffices : ¬ ∃ room, ∀ alarm tokens allowed,
    (limitedReaders alarm room).parseTokens tokens allowed = parseTokens tokens allowed := by
  rintro ⟨room, h⟩
  have hattempts (attempts : Nat) :
      (parseTokens (signedAssignment (room + 1)) 0).attempts = attempts := by
    rw [← h (fun _ => (none, [], halted attempts))]
    exact attempts_of_signs room attempts 0
  exact absurd ((hattempts 0).symm.trans (hattempts 1)) Nat.zero_ne_one

end PineCheck
