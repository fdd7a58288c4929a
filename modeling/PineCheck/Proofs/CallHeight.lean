import PineCheck.Proofs.CallOrder
import PineCheck.Proofs.Expressions

/-!
# PineCheck — the height of calls

Calls are given to calls, and whatever goes through a tree goes down as many calls as are
nested into each other. The parser counts the parentheses that it is inside of and enters
no more than `State.maxDepth`. A call whose parenthesis it does not enter has no
arguments, so the calls that are read at some depth are at most one higher than the
parentheses that may still be entered there: this is `State.room`.

`Fits` says this of a stretch of a parse, and also that the count is the same behind it as
before it. Both go together: the room of a later stretch is that of an earlier one only if
every parenthesis that was entered has been left.

Main results:

* `Call.height_le_of_mem_walk` — a call is no higher than the one that it is reached from.
* `Parsers.level_fitting` — the functions of the parser read calls that fit in, and leave
  the count of parentheses as it was, whatever they return.
* `statements_fits`, `looseCalls_fits` — so do a parse and the search for calls alone.
-/

namespace PineCheck

-- ---------------------------------------------------------------------------
-- Calls in calls
-- ---------------------------------------------------------------------------

mutual

/-- How many calls are nested into each other in a value. -/
def Value.height : Value → Nat
  | .literal _ => 0
  | .identifier _ => 0
  | .call call => call.height

/-- How many calls are nested into each other, this one included. -/
def Call.height : Call → Nat
  | ⟨_, arguments, _⟩ => Argument.heightAll arguments + 1

/-- The greatest height among those of arguments. -/
def Argument.heightAll : List Argument → Nat
  | [] => 0
  | argument :: arguments => max argument.height (Argument.heightAll arguments)

/-- The height of what an argument is given. -/
def Argument.height : Argument → Nat
  | ⟨_, value, _, _, _⟩ => value.height

end

/-- The calls that arguments are given. -/
abbrev argumentCalls (arguments : List Argument) : List Call :=
  arguments.flatMap fun argument => Parser.outerCalls argument.value

/-- A value is no higher than any bound on the calls that it is made of. -/
theorem Value.height_le_iff {value : Value} {n : Nat} :
    value.height ≤ n ↔ ∀ call ∈ Parser.outerCalls value, call.height ≤ n := by
  cases value with
  | call call => simp [Value.height, Parser.outerCalls]
  | _ => simp [Value.height, Parser.outerCalls]

/-- Arguments are no higher than any bound on the calls among them. -/
theorem Argument.heightAll_le_iff {arguments : List Argument} {n : Nat} :
    Argument.heightAll arguments ≤ n ↔ ∀ call ∈ argumentCalls arguments, call.height ≤ n := by
  induction arguments with
  | nil => simp [Argument.heightAll]
  | cons argument arguments ih =>
    obtain ⟨name, value, position, isExpression, span⟩ := argument
    rw [Argument.heightAll, Argument.height, Nat.max_le, Value.height_le_iff, ih, argumentCalls,
      argumentCalls, List.flatMap_cons, List.forall_mem_append]

/-- A call adds one level to the calls that are given to it. -/
theorem Call.height_le_succ_iff {call : Call} {n : Nat} :
    call.height ≤ n + 1 ↔ ∀ inner ∈ argumentCalls call.arguments, inner.height ≤ n := by
  obtain ⟨name, arguments, span⟩ := call
  rw [Call.height, Nat.succ_le_succ_iff, Argument.heightAll_le_iff]

mutual

/-- A call anywhere inside a value is no higher than the value. The three statements below go down
the tree together, as the walk does. -/
theorem Value.height_le_of_mem_walk {value : Value} {call : Call} (h : call ∈ value.walk) :
    call.height ≤ value.height := by
  cases value with
  | literal => cases h
  | identifier => cases h
  | call outer =>
    rw [Value.walk] at h
    rw [Value.height]
    exact Call.height_le_of_mem_walk h

/-- A call is no higher than the one that it is reached from. -/
theorem Call.height_le_of_mem_walk {outer call : Call} (h : call ∈ outer.walk) :
    call.height ≤ outer.height := by
  obtain ⟨name, arguments, span⟩ := outer
  rw [Call.walk] at h
  rcases List.mem_cons.mp h with rfl | h
  · exact Nat.le.refl
  · rw [Call.height]
    exact Nat.le_succ_of_le (Argument.heightAll_le_of_mem_walkAll h)

theorem Argument.heightAll_le_of_mem_walkAll {arguments : List Argument} {call : Call}
    (h : call ∈ Argument.walkAll arguments) : call.height ≤ Argument.heightAll arguments := by
  cases arguments with
  | nil => cases h
  | cons argument arguments =>
    rw [Argument.walkAll] at h
    rw [Argument.heightAll]
    rcases List.mem_append.mp h with h | h
    · exact (Argument.height_le_of_mem_walk h).trans (Nat.le_max_left ..)
    · exact (Argument.heightAll_le_of_mem_walkAll h).trans (Nat.le_max_right ..)

/-- A call anywhere inside an argument is no higher than the argument. -/
theorem Argument.height_le_of_mem_walk {argument : Argument} {call : Call}
    (h : call ∈ argument.walk) : call.height ≤ argument.height := by
  obtain ⟨name, value, position, isExpression, span⟩ := argument
  rw [Argument.walk] at h
  rw [Argument.height]
  exact Value.height_le_of_mem_walk h

end

namespace Parser

-- ---------------------------------------------------------------------------
-- The count of parentheses
-- ---------------------------------------------------------------------------

namespace State

/-- How many calls may be nested into each other from here on. The innermost one is not
entered. -/
def room (s : State) : Nat :=
  maxDepth - s.depth + 1

/-- Only the count of parentheses decides how much room there is. -/
theorem room_eq_of_depth {s s' : State} (h : s'.depth = s.depth) : s'.room = s.room := by
  rw [room, h, room]

/-- Each parenthesis that is entered leaves room for one call less. -/
theorem room_succ {s s' : State} (hs : s.depth < maxDepth) (hs' : s'.depth = s.depth + 1) :
    s'.room + 1 = s.room := by
  rw [room, room, hs']
  omega

@[simp] theorem depth_record (s : State) (problem : ParseProblem) :
    (s.record problem).depth = s.depth := by
  fun_cases State.record s problem <;> rfl

@[simp] theorem depth_skipBrackets (s : State) : s.skipBrackets.depth = s.depth := rfl

@[simp] theorem depth_skipToClosing (s : State) : s.skipToClosing.depth = s.depth := rfl

@[simp] theorem depth_skipLayout (s : State) : s.skipLayout.depth = s.depth := rfl

@[simp] theorem depth_skipLine (s : State) : s.skipLine.depth = s.depth := rfl

@[simp] theorem depth_skipHead (s : State) : s.skipHead.depth = s.depth := rfl

@[simp] theorem depth_openCall (s : State) : s.openCall.depth = s.depth := rfl

@[simp] theorem depth_leave (s : State) : s.leave.depth = s.depth - 1 := rfl

@[simp] theorem depth_skipIndex (s : State) : s.skipIndex.depth = s.depth := by
  rw [skipIndex]
  split <;> rfl

@[simp] theorem depth_skipDefinition (s : State) : s.skipDefinition.depth = s.depth := by
  fun_cases State.skipDefinition s <;> rfl

@[simp] theorem depth_argumentName (s : State) : s.argumentName.2.depth = s.depth := by
  fun_cases State.argumentName s <;> rfl

@[simp] theorem depth_close (s : State) : s.close.depth = s.depth - 1 := by
  rw [close, depth_leave]
  split <;> simp

/-- A parenthesis that is entered is counted, and it is one of those that may be. -/
theorem depth_of_enter_true {s inside : State} (h : s.enter = (true, inside)) :
    s.depth < maxDepth ∧ inside.depth = s.depth + 1 := by
  obtain ⟨hdepth, rfl⟩ := enter_eq_true h
  exact ⟨hdepth, rfl⟩

/-- A parenthesis that is nested too deeply is not counted. -/
theorem depth_of_enter_false {s outside : State} (h : s.enter = (false, outside)) :
    outside.depth = s.depth := by
  obtain ⟨-, rfl⟩ := enter_eq_false h
  exact depth_record ..

end State

/-- The name of an argument is read, and missed if it should have one. -/
theorem depth_afterName (hasNamed : Bool) (s : State) :
    (if s.argumentName.1.isNone && hasNamed then s.argumentName.2.record .positionalAfterNamed
      else s.argumentName.2).depth = s.depth := by
  split <;> simp

/-- Making an argument of what was read leaves the count of parentheses alone. -/
theorem depth_given (name : Option Identifier) (position : Nat) (start : Span)
    (operand : Option (Value × Bool)) (s : State) :
    (given name position start operand s).2.depth = s.depth := by
  fun_cases given name position start operand s with
  | case1 => rfl
  | case2 => simp +zetaDelta [apply_ite State.depth]

/-- So does what is looked at behind an argument. -/
theorem depth_afterArgument (given : List Argument) (calls : List Call) (hasNamed : Bool)
    (position : Nat) (s : State) :
    (afterArgument given calls hasNamed position s).2.depth = s.depth := by
  fun_cases afterArgument given calls hasNamed position s <;> simp +zetaDelta

-- ---------------------------------------------------------------------------
-- Stretches of a parse
-- ---------------------------------------------------------------------------

/-- Between two states of a parse calls are read that have room there, and as many
parentheses are left as are entered. -/
structure Fits (s : State) (calls : List Call) (s' : State) : Prop where
  depth : s'.depth = s.depth
  height : ∀ call ∈ calls, call.height ≤ s.room

namespace Fits

variable {s s' s'' : State} {calls later : List Call}

/-- A stretch without calls only has to leave as many parentheses as it entered. -/
theorem of_depth (h : s'.depth = s.depth) : Fits s [] s' :=
  ⟨h, nofun⟩

theorem refl (s : State) : Fits s [] s :=
  of_depth rfl

/-- Two stretches that fit, one behind the other, fit together. -/
theorem append (h : Fits s calls s') (h' : Fits s' later s'') : Fits s (calls ++ later) s'' where
  depth := h'.depth.trans h.depth
  height := by
    refine List.forall_mem_append.mpr ⟨h.height, ?_⟩
    rw [← State.room_eq_of_depth h.depth]
    exact h'.height

theorem after (h : s'.depth = s.depth) (h' : Fits s' later s'') : Fits s later s'' :=
  (of_depth h).append h'

theorem before (h : Fits s calls s') (h' : s''.depth = s'.depth) : Fits s calls s'' where
  depth := h'.trans h.depth
  height := h.height

theorem mono (h : Fits s calls s') (hsubset : later ⊆ calls) : Fits s later s' where
  depth := h.depth
  height call hmem := h.height call (hsubset hmem)

/-- Two lists of calls that are read in the same stretch. -/
theorem both (h : Fits s calls s') (h' : Fits s later s') : Fits s (calls ++ later) s' :=
  ⟨h.depth, List.forall_mem_append.mpr ⟨h.height, h'.height⟩⟩

/-- What fits in inside of a parenthesis, when that is left. -/
theorem leave (h : Fits s' calls s'') (hs : s.depth < State.maxDepth)
    (hs' : s'.depth = s.depth + 1) : Fits s calls s''.leave where
  depth := by
    rw [State.depth_leave, h.depth, hs']
    rfl
  height call hmem := by
    have hroom := State.room_succ hs hs'
    have hheight := h.height call hmem
    omega

/-- A call that is given what fits in inside of its parenthesis. -/
theorem call {name : String} {arguments : List Argument} {span : Span}
    (h : Fits s' (argumentCalls arguments) s'') (hs : s.depth < State.maxDepth)
    (hs' : s'.depth = s.depth + 1) : Fits s [⟨name, arguments, span⟩] s''.leave where
  depth := (h.leave hs hs').depth
  height other hmem := by
    rw [List.mem_singleton.mp hmem, ← State.room_succ hs hs']
    exact Call.height_le_succ_iff.mpr h.height

/-- There is room for a call without arguments everywhere. -/
theorem empty (h : s'.depth = s.depth) (name : String) (span : Span) :
    Fits s [⟨name, [], span⟩] s' where
  depth := h
  height other hmem := by
    rw [List.mem_singleton.mp hmem, State.room]
    exact Call.height_le_succ_iff.mpr nofun

end Fits

-- ---------------------------------------------------------------------------
-- Expressions and calls
-- ---------------------------------------------------------------------------

/-- An operand fits in, and so do the calls that are met beside it. -/
def FitsOperand (s : State) (r : Option (Value × Bool) × List Call × State) : Prop :=
  Fits s ((operandValues r).flatMap outerCalls) r.2.2

theorem fitsOperand_none {s s' : State} {calls : List Call} :
    FitsOperand s (none, calls, s') ↔ Fits s calls s' := by
  rw [FitsOperand, operandValues_none, flatMap_outerCalls]

theorem fitsOperand_some {s s' : State} {value : Value} {isCompound : Bool} {calls : List Call} :
    FitsOperand s (some (value, isCompound), calls, s') ↔
      Fits s (outerCalls value ++ calls) s' := by
  rw [FitsOperand, operandValues_some, List.flatMap_cons, flatMap_outerCalls]

/-- An operand that is no call. -/
theorem FitsOperand.quiet {s s' : State} {value : Value} (h : s'.depth = s.depth)
    (hvalue : outerCalls value = []) (isCompound : Bool) :
    FitsOperand s (some (value, isCompound), [], s') := by
  rw [fitsOperand_some, hvalue]
  exact .of_depth h

/-- A round of an argument list fits in: what its argument is given, and the calls that
are met beside it. -/
def FitsRound (s : State) (r : Round × State) : Prop :=
  Fits s (argumentCalls r.1.given ++ r.1.calls) r.2

/-- Functions that read what fits in. -/
structure Parsers.Fitting (p : Parsers) : Prop where
  primary : ∀ s, FitsOperand s (p.primary s)
  expression : ∀ setting s, FitsOperand s (p.expression setting s)
  tail : ∀ setting depth consumed s,
    Fits s (p.tail setting depth consumed s).2.1 (p.tail setting depth consumed s).2.2
  call : ∀ s, Fits s ((p.call s).1 :: (p.call s).2.1) (p.call s).2.2
  arguments : ∀ hasNamed afterComma position s,
    Fits s (argumentCalls (p.arguments hasNamed afterComma position s).1 ++
      (p.arguments hasNamed afterComma position s).2.1)
      (p.arguments hasNamed afterComma position s).2.2

/-- What stands in parentheses has less room. -/
theorem closed_fits {s inside : State} {r : Option (Value × Bool) × List Call × State}
    (h : FitsOperand inside r) (hs : s.depth < State.maxDepth)
    (hinside : inside.depth = s.depth + 1) : FitsOperand s (closed r) := by
  obtain ⟨operand, calls, behind⟩ := r
  have hleave := Fits.leave h hs hinside
  cases operand with
  | none => exact hleave.before (State.depth_close behind)
  | some => exact hleave.before ((State.depth_skipIndex _).trans (State.depth_close behind))

/-- A sign before an operand takes no room. -/
theorem signed_fits {s : State} {r : Option (Value × Bool) × List Call × State}
    (h : FitsOperand s r) : FitsOperand s (signed r) := by
  obtain ⟨operand, calls, behind⟩ := r
  cases operand with
  | none => exact h
  | some => exact Fits.before h (State.depth_skipIndex behind)

/-- Behind an argument, the calls of the round are those that were read. -/
theorem afterArgument_fits {s s' : State} {given : List Argument} {calls : List Call}
    (h : Fits s (argumentCalls given ++ calls) s') (hasNamed : Bool) (position : Nat) :
    FitsRound s (afterArgument given calls hasNamed position s') := by
  have hbefore := h.before (depth_afterArgument given calls hasNamed position s')
  revert hbefore
  fun_cases afterArgument given calls hasNamed position s' <;> exact id

/-- An operand becomes an argument with the same calls. -/
theorem afterOperand_fits {s : State} {r : Option (Value × Bool) × List Call × State}
    (h : FitsOperand s r) (name : Option Identifier) (hasNamed : Bool) (position : Nat)
    (start : Span) : FitsRound s (afterOperand name hasNamed position start r) := by
  obtain ⟨operand, calls, s'⟩ := r
  have hgiven := depth_given name position start operand s'
  cases operand with
  | none => exact afterArgument_fits ((fitsOperand_none.mp h).before hgiven) ..
  | some operand =>
    refine afterArgument_fits ((fitsOperand_some.mp h).mono ?_) ..
    rw [argumentCalls, List.flatMap_singleton]
    exact List.Subset.refl _

namespace Parsers.Fitting

variable {p : Parsers} (h : p.Fitting)
include h

/-- An operand fits if what is read inside of it does. -/
theorem nextPrimary (s : State) : FitsOperand s (p.nextPrimary s) := by
  fun_cases Parsers.nextPrimary p s with
  | case1 => exact .refl s
  | case2 => exact .quiet (by simp) rfl _
  | case3 front rest hq hlit word hword hahead found calls s' hcall =>
    have hfits := h.call s
    rw [hcall] at hfits
    exact fitsOperand_some.mpr (hfits.before (State.depth_skipIndex s'))
  | case4 front rest hq hlit word hword hahead words s' span text value =>
    have houter : outerCalls value = [] := by
      simp only [value]
      split <;> rfl
    exact .quiet (by simp [s']) houter _
  -- a parenthesis: nested too deeply, or around an operand
  | case5 front rest hq hlit hparen s' henter =>
    exact Fits.of_depth (State.depth_of_enter_false henter)
  | case6 front rest hq hlit hparen inside henter =>
    obtain ⟨hs, hinside⟩ := State.depth_of_enter_true henter
    exact closed_fits (h.expression .arguments (inside.pop 1)) hs hinside
  | case7 front rest hq hlit hbracket s' => exact .quiet (by simp [s']) rfl _
  -- the operand behind a sign
  | case8 => exact signed_fits (Fits.after (State.depth_pop s 1) (h.primary (s.pop 1)))
  | case9 => exact .refl s

/-- An operator and what stands behind it take no more room than the operand did. -/
theorem withTail (setting : Setting) {s : State}
    {r : Option (Value × Bool) × List Call × State} (hr : FitsOperand s r) :
    FitsOperand s (p.withTail setting r) := by
  obtain ⟨operand, calls, s'⟩ := r
  cases operand with
  | none => exact hr
  | some operand =>
    have hboth := (fitsOperand_some.mp hr).append (h.tail setting 0 false s')
    rw [List.append_assoc] at hboth
    exact fitsOperand_some.mpr hboth

/-- What stands behind an operand fits, operator by operator and call by call. -/
theorem nextTail (setting : Setting) (depth : Nat) (consumed : Bool) (s : State) :
    Fits s (p.nextTail setting depth consumed s).2.1
      (p.nextTail setting depth consumed s).2.2 := by
  have hgo (depth : Nat) (consumed : Bool) :
      Fits s (p.tail setting depth consumed (s.pop 1)).2.1
        (p.tail setting depth consumed (s.pop 1)).2.2 :=
    (h.tail setting depth consumed (s.pop 1)).after (State.depth_pop s 1)
  fun_cases Parsers.nextTail p setting depth consumed s with
  | case22 _ name hahead found inner s₁ hcall hasTail later s₂ htail hfront =>
    have hfits := h.call s
    have hlater := h.tail setting depth true s₁
    rw [hcall] at hfits
    rw [htail] at hlater
    exact hfits.append hlater
  | _ =>
    -- every other branch stops here or takes one token and goes on
    first
    | exact .refl s
    | exact hgo ..

/-- The arguments of a call have one level less, because its parenthesis is open around them. -/
theorem nextCall (s : State) :
    Fits s ((p.nextCall s).1 :: (p.nextCall s).2.1) (p.nextCall s).2.2 := by
  fun_cases Parsers.nextCall p s with
  | case1 text inside henter arguments calls behind harguments =>
    obtain ⟨hs, hinside⟩ := State.depth_of_enter_true henter
    have hfits := h.arguments false false 0 inside
    rw [harguments] at hfits
    -- inside the parenthesis: the arguments, and the calls that were met beside them
    have hgiven := hfits.mono (List.subset_append_left ..)
    have hbeside := hfits.mono (List.subset_append_right ..)
    refine Fits.after (State.depth_openCall s) ?_
    exact (hgiven.call hs hinside).both (hbeside.leave hs hinside)
  -- nested too deeply, so that there are no arguments
  | case2 text inside henter =>
    have houtside := (State.depth_of_enter_false henter).trans (State.depth_openCall s)
    exact .empty ((State.depth_skipToClosing inside).trans houtside) ..

theorem argument (hasNamed : Bool) (position : Nat) (s : State) :
    FitsRound s (p.argument hasNamed position s) := by
  rw [Parsers.argument]
  exact afterOperand_fits ((h.expression .arguments _).after (depth_afterName hasNamed s)) ..

/-- One round of an argument list fits. -/
theorem round (hasNamed afterComma : Bool) (position : Nat) (s : State) :
    FitsRound s (p.round hasNamed afterComma position s) := by
  fun_cases Parsers.round p hasNamed afterComma position s with
  | case7 => exact (h.argument hasNamed position s.skipLayout).after (State.depth_skipLayout s)
  | _ => exact .of_depth (by simp +zetaDelta [apply_ite State.depth])

/-- The rounds of an argument list fit one behind the other. -/
theorem goOn {s : State} {r : Round × State} (hr : FitsRound s r) :
    Fits s (argumentCalls (p.goOn r).1 ++ (p.goOn r).2.1) (p.goOn r).2.2 := by
  obtain ⟨⟨given, calls, next⟩, s'⟩ := r
  cases next with
  | none => exact hr
  | some next =>
    refine (Fits.append hr (h.arguments next.1 next.2.1 next.2.2 s')).mono ?_
    simp only [Parsers.goOn, List.flatMap_append]
    grind

/-- If the functions fit with some number of steps, they fit with one more. -/
theorem next : p.next.Fitting where
  primary := h.nextPrimary
  expression setting s := h.withTail setting (h.primary s)
  tail := h.nextTail
  call := h.nextCall
  arguments hasNamed afterComma position s := h.goOn (h.round hasNamed afterComma position s)

end Parsers.Fitting

/-- The functions of the parser read what fits in, with any number of steps. -/
theorem Parsers.level_fitting (fuel : Nat) : (level fuel).Fitting := by
  induction fuel with
  | zero =>
    exact {
      primary := .refl
      expression := fun _ => .refl
      tail := fun _ _ _ => .refl
      call := fun s => .empty rfl ..
      arguments := fun _ _ _ => .refl }
  | succ fuel ih =>
    rw [level_succ]
    exact ih.next

-- ---------------------------------------------------------------------------
-- Statements
-- ---------------------------------------------------------------------------

theorem expression_fits (setting : Setting) (s : State) :
    FitsOperand s (s.expression setting) :=
  (Parsers.level_fitting (fuelFor s.queue)).expression setting s

/-- So does a call that stands in a statement. -/
theorem callWithInner_fits (s : State) : Fits s s.callWithInner.1 s.callWithInner.2 :=
  (Parsers.level_fitting (fuelFor s.queue)).call s

theorem scanLine_fits (fuel depth : Nat) (s : State) :
    Fits s (scanLine fuel depth s).1 (scanLine fuel depth s).2 := by
  fun_induction scanLine fuel depth s with
  -- a call, and the rest of the line behind it
  | case17 fuel depth s _ word hahead found s₁ hcall later s₂ hlater _ ih =>
    have h := callWithInner_fits s
    rw [hcall] at h
    rw [hlater] at ih
    exact h.append ih
  -- a closing parenthesis too many is recorded and taken
  | case13 fuel s _ _ ih
  | case15 fuel s _ _ ih => exact ih.after ((State.depth_pop _ 1).trans (State.depth_record s _))
  | _ =>
    -- every other branch stops here or takes one token and goes on
    first
    | exact .refl _
    | exact Fits.after (State.depth_pop _ 1) (by assumption)

/-- The value of a variable fits, with the calls that are met beside it. -/
theorem assignedValue_fits (s : State) :
    Fits s ((assignedValue s).1.toList.flatMap outerCalls ++ (assignedValue s).2.1)
      (assignedValue s).2.2 := by
  have hread := expression_fits .statement s
  fun_cases assignedValue s with
  | case1 | case2 => exact .refl s
  | case3 | case4 | case5 | case6 | case7 => exact .of_depth (State.depth_record s _)
  -- a call alone is the value, and a compound expression is only looked through
  | case8 token _ _ _ _ _ _ _ value calls s' hvalue =>
    rw [hvalue] at hread
    simpa using fitsOperand_some.mp hread
  | case9 token _ _ _ _ _ _ _ found calls s' hvalue =>
    rw [hvalue] at hread
    exact fitsOperand_some.mp hread
  | case10 token _ _ _ _ _ _ _ value calls s' hnot hvalue =>
    rw [hvalue] at hread
    exact (fitsOperand_some.mp hread).mono (List.subset_append_right ..)
  | case11 token _ _ _ _ _ _ _ calls s' hvalue =>
    rw [hvalue] at hread
    exact (fitsOperand_none.mp hread).before (by simp)

theorem declaration_fits (s : State) :
    Fits s (callsOf ((declaration s).1 ++ (declaration s).2.1.map .call)) (declaration s).2.2 := by
  fun_cases declaration s with
  | case1 isVar s₁ => exact .of_depth (by simp +zetaDelta [apply_ite State.depth])
  | case2 start isVar s₁ type _ typeName s₂ name span op rest hq _ value calls s₃ hvalue later s₄
      hlater node =>
    -- neither the word before the type nor the type opens a parenthesis
    have hto : (s₂.pop 2).depth = s.depth := by simp +zetaDelta [apply_ite State.depth]
    have hassigned := assignedValue_fits (s₂.pop 2)
    rw [hvalue] at hassigned
    have hline := scanLine_fits (s₃.queue.length + 1) 0 s₃
    rw [← State.scanLine, hlater] at hline
    rw [callsOf_append, callsOf_declaration, callsOf_map_call, ← List.append_assoc]
    exact (hassigned.append hline).after hto
  | case3 isVar s₁ type _ s₂ => exact .of_depth (by simp +zetaDelta [apply_ite State.depth])

theorem statement_fits (s : State) : Fits s (callsOf (statement s).1) (statement s).2 := by
  have hline := scanLine_fits (s.queue.length + 1) 0 s
  have hdeclaration := declaration_fits s
  fun_cases statement s with
  -- declarations, and then the lines of calls
  | case7 withCalls nodes calls s' h
  | case8 withCalls nodes calls s' h
  | case10 withCalls _ _ _ nodes calls s' h =>
    rwa [h] at hdeclaration
  | case11 withCalls _ _ _ calls s' h
  | case12 withCalls _ _ calls s' h =>
    rw [← State.scanLine, h] at hline
    show Fits s (callsOf (calls.map .call)) s'
    rwa [callsOf_map_call]
  | _ => exact .of_depth (by simp)

/-- The calls of a script fit in. -/
theorem statements_fits (fuel : Nat) (s : State) :
    Fits s (callsOf (statements fuel s).1) (statements fuel s).2 := by
  fun_induction statements fuel s with
  | case8 fuel s _ token _ _ _ _ _ nodes s₁ hnodes others s₂ hothers ih =>
    have h := statement_fits s
    rw [hnodes] at h
    rw [hothers] at ih
    rw [callsOf_append]
    exact h.append ih
  | case5 fuel s _ _ ih | case6 fuel s _ _ ih | case7 fuel s _ _ ih =>
    exact ih.after (State.depth_pop s 1)
  | _ => exact .refl _

/-- So do those that are found token by token. -/
theorem looseCalls_fits (fuel : Nat) (s : State) :
    Fits s (looseCalls fuel s).1 (looseCalls fuel s).2 := by
  fun_induction looseCalls fuel s with
  | case5 fuel s _ _ _ _ ih => exact ih.after (State.depth_skipHead s)
  | case6 fuel s _ word _ _ hahead found s₁ hcall later s₂ hlater ih =>
    have h := callWithInner_fits s
    rw [hcall] at h
    rw [hlater] at ih
    exact h.append ih
  | case7 fuel s _ _ _ _ _ ih | case8 fuel s _ _ _ _ _ ih =>
    exact ih.after (State.depth_pop s 1)
  | _ => exact .refl _

/-- At the start of a parse there is room for `maxDepth + 1` calls that are nested into each
other, and none that is reached from the calls that fit in is higher. -/
theorem Fits.height_le_of_mem_walk {tokens : List Lexed} {allowed : Nat} {calls : List Call}
    {s : State} (h : Fits (State.start tokens allowed) calls s) {call : Call}
    (hmem : call ∈ calls.flatMap Call.walk) : call.height ≤ State.maxDepth + 1 := by
  obtain ⟨outer, houter, hcall⟩ := List.mem_flatMap.mp hmem
  exact (Call.height_le_of_mem_walk hcall).trans (h.height outer houter)

end Parser
end PineCheck
