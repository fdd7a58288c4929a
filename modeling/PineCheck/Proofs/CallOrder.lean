import PineCheck.Check.Signatures
import PineCheck.Proofs.Nesting
import PineCheck.Proofs.Statements

/-!
# PineCheck — the order of calls

A parse hands calls on in several ways: as what a variable or an argument is given, in
the list of the calls on a line, and in the list of those that are met in arguments and
not kept there. Whatever way a call takes, it begins with a token of its own, and the
lists follow the order of these tokens.

* `Meets` says this of the calls that are read between two states of a parse: those that
  are listed are in order, and all that are found inside them begin at different places.
  `Meets.append` puts two stretches of a parse together.
* `listing_steps` — the functions that read expressions and calls list in order.
* `calls_in_order` — so do a parse and the search for calls alone, and no call is
  reached twice.
-/

namespace PineCheck

namespace Parser

-- ---------------------------------------------------------------------------
-- Where calls begin
-- ---------------------------------------------------------------------------

/-- A call begins with a token that is taken between two states of a parse. -/
def Begins (s s' : State) (call : Call) : Prop :=
  ∃ front rest, front :: rest <:+ s.queue ∧ s'.queue <:+ rest ∧
    Lexer.isUnspelled front.token = false ∧ call.span.start = front.span.start

theorem Begins.mono {r s s' s'' : State} {call : Call} (h : Begins s s' call)
    (hs : Reaches r s) (hs' : Reaches s' s'') : Begins r s'' call := by
  obtain ⟨front, rest, hfront, hrest, hspelled, hstart⟩ := h
  exact ⟨front, rest, hfront.trans hs.queue_suffix, hs'.queue_suffix.trans hrest, hspelled, hstart⟩

/-- What begins with a token that is taken first begins first. -/
theorem Begins.lt {s s' s'' : State} {a b : Call} (ho : s.Ordered) (ha : Begins s s' a)
    (hb : Begins s' s'' b) : a.span.start < b.span.start := by
  obtain ⟨front, rest, hfront, hrest, hspelled, hstart⟩ := ha
  obtain ⟨front', rest', hfront', -, hspelled', hstart'⟩ := hb
  have hmem : front ∈ s.queue := hfront.subset List.mem_cons_self
  have hmem' : front' ∈ rest := hrest.subset (hfront'.subset List.mem_cons_self)
  have hcovers := ho.covers front hmem hspelled
  have hstarts := List.pairwise_cons.mp (ho.starts.sublist hfront.sublist)
  have hbehind := hstarts.1 front' hmem' hspelled'
  omega

/-- A parse goes from `s` to `s'` and lists calls in the order in which they begin. No
two of the calls `walked`, which are the listed ones and others inside them, begin at the
same place. -/
structure Meets (s : State) (listed walked : List Call) (s' : State) : Prop where
  reaches : Reaches s s'
  subset : listed ⊆ walked
  begins : ∀ call ∈ walked, Begins s s' call
  ascending : s.Ordered → listed.Pairwise fun a b => a.span.start < b.span.start
  distinct : s.Ordered → walked.Pairwise fun a b => a.span.start ≠ b.span.start

/-- All calls inside the listed ones are walked. -/
abbrev MeetsCalls (s : State) (calls : List Call) (s' : State) : Prop :=
  Meets s calls (calls.flatMap Call.walk) s'

namespace Meets

variable {s s' s'' : State} {listed walked listed' walked' : List Call}

/-- A step that reads no call meets none. -/
theorem of_reaches (h : Reaches s s') : Meets s [] [] s' where
  reaches := h
  subset := List.Subset.refl []
  begins := nofun
  ascending _ := .nil
  distinct _ := .nil

theorem refl (s : State) : Meets s [] [] s :=
  of_reaches (.refl s)

/-- A call by itself, without those inside it. -/
theorem single {call : Call} (h : Reaches s s') (hcall : Begins s s' call) :
    Meets s [call] [call] s' where
  reaches := h
  subset := List.Subset.refl [call]
  begins other hmem := by
    rw [List.mem_singleton.mp hmem]
    exact hcall
  ascending _ := List.pairwise_singleton ..
  distinct _ := List.pairwise_singleton ..

/-- One stretch of a parse behind another. -/
theorem append (h : Meets s listed walked s') (h' : Meets s' listed' walked' s'') :
    Meets s (listed ++ listed') (walked ++ walked') s'' where
  reaches := h.reaches.trans h'.reaches
  subset := List.append_subset.mpr ⟨List.subset_append_of_subset_left _ h.subset,
    List.subset_append_of_subset_right _ h'.subset⟩
  begins call hmem := by
    rcases List.mem_append.mp hmem with hmem | hmem
    · exact (h.begins call hmem).mono (.refl s) h'.reaches
    · exact (h'.begins call hmem).mono h.reaches (.refl s'')
  ascending ho := by
    refine List.pairwise_append.mpr ⟨h.ascending ho, h'.ascending (ho.reaches h.reaches), ?_⟩
    intro a ha b hb
    exact (h.begins a (h.subset ha)).lt ho (h'.begins b (h'.subset hb))
  distinct ho := by
    refine List.pairwise_append.mpr ⟨h.distinct ho, h'.distinct (ho.reaches h.reaches), ?_⟩
    intro a ha b hb
    exact Nat.ne_of_lt ((h.begins a ha).lt ho (h'.begins b hb))

theorem after (h : Reaches s s') (h' : Meets s' listed walked s'') : Meets s listed walked s'' :=
  (of_reaches h).append h'

theorem before (h : Meets s listed walked s') (h' : Reaches s' s'') :
    Meets s listed walked s'' := by
  simpa using h.append (of_reaches h')

/-- Some of the listed calls, with all that are walked in another order. -/
theorem mono (h : Meets s listed walked s') (hlisted : listed'.Sublist listed)
    (hwalked : walked.Perm walked') : Meets s listed' walked' s' where
  reaches := h.reaches
  subset := fun _ hmem => hwalked.subset (h.subset (hlisted.subset hmem))
  begins call hmem := h.begins call (hwalked.symm.subset hmem)
  ascending ho := (h.ascending ho).sublist hlisted
  distinct ho := (h.distinct ho).perm hwalked fun hne => hne.symm

end Meets

/-- Calls met on two stretches are met on both together. -/
theorem MeetsCalls.append {s s' s'' : State} {calls later : List Call}
    (h : MeetsCalls s calls s') (h' : MeetsCalls s' later s'') :
    MeetsCalls s (calls ++ later) s'' := by
  rw [MeetsCalls, List.flatMap_append]
  exact Meets.append h h'

-- ---------------------------------------------------------------------------
-- Expressions and calls
-- ---------------------------------------------------------------------------

/-- The outermost calls of values that are calls are these calls. -/
theorem flatMap_outerCalls (calls : List Call) :
    (calls.map Value.call).flatMap outerCalls = calls := by
  induction calls with
  | nil => rfl
  | cons call calls ih => exact congrArg (call :: ·) ih

/-- Every call of a value is below one of its outermost ones. -/
theorem walk_outerCalls (value : Value) : (outerCalls value).flatMap Call.walk = value.walk := by
  cases value with
  | call call => exact List.append_nil _
  | _ => rfl

/-- An operand is listed before the calls that are met beside it. -/
def MeetsOperand (s : State) (r : Option (Value × Bool) × List Call × State) : Prop :=
  MeetsCalls s ((operandValues r).flatMap outerCalls) r.2.2

theorem meetsOperand_none {s s' : State} {calls : List Call} :
    MeetsOperand s (none, calls, s') ↔ MeetsCalls s calls s' := by
  rw [MeetsOperand, operandValues_none, flatMap_outerCalls]

/-- The calls of an operand are met before those beside it. -/
theorem meetsOperand_some {s s' : State} {value : Value} {isCompound : Bool} {calls : List Call} :
    MeetsOperand s (some (value, isCompound), calls, s') ↔
      MeetsCalls s (outerCalls value ++ calls) s' := by
  rw [MeetsOperand, operandValues_some, List.flatMap_cons, flatMap_outerCalls]

/-- The functions that read expressions and calls list calls in their order. -/
def listing : Contract where
  primary s := MeetsOperand s (Parsers.full.primary s)
  expression setting s := MeetsOperand s (Parsers.full.expression setting s)
  tail setting depth consumed s :=
    MeetsCalls s (Parsers.full.tail setting depth consumed s).2.1
      (Parsers.full.tail setting depth consumed s).2.2
  call s :=
    MeetsCalls s ((Parsers.full.call s).1 :: (Parsers.full.call s).2.1) (Parsers.full.call s).2.2
  arguments hasNamed afterComma position s :=
    Meets s (Parsers.full.arguments hasNamed afterComma position s).2.1
      (Argument.walkAll (Parsers.full.arguments hasNamed afterComma position s).1 ++
        (Parsers.full.arguments hasNamed afterComma position s).2.1.flatMap Call.walk)
      (Parsers.full.arguments hasNamed afterComma position s).2.2

/-- An operand that is no call. -/
theorem MeetsOperand.quiet {s s' : State} {value : Value} (h : Reaches s s')
    (hvalue : outerCalls value = []) (isCompound : Bool) :
    MeetsOperand s (some (value, isCompound), [], s') := by
  rw [meetsOperand_some, hvalue]
  exact .of_reaches h

/-- Closing a parenthesised expression meets no call. -/
theorem closed_meets {s : State} {r : Option (Value × Bool) × List Call × State}
    (h : MeetsOperand s r) : MeetsOperand s (closed r) := by
  obtain ⟨operand, calls, s'⟩ := r
  have hbefore := h.before (closed_reaches (operand, calls, s'))
  cases operand <;> exact hbefore

/-- The sign before an operand meets no call. -/
theorem signed_meets {s : State} {r : Option (Value × Bool) × List Call × State}
    (h : MeetsOperand s r) : MeetsOperand s (signed r) := by
  obtain ⟨operand, calls, s'⟩ := r
  have hbefore := h.before (signed_reaches (operand, calls, s'))
  cases operand <;> exact hbefore

/-- The calls of an operand are met in the order of their names. -/
theorem listing_primary (s : State) (hcall : isCallAhead s.queue = true → listing.call s)
    (hprimary : ∀ t, t.queue.length < s.queue.length → listing.primary t)
    (hexpression : ∀ t, t.queue.length < s.queue.length → listing.expression .arguments t) :
    listing.primary s := by
  show MeetsOperand s _
  rw [Parsers.full_primary]
  fun_cases Parsers.nextPrimary Parsers.full s with
  | case1 => exact .refl s
  | case2 front rest hq kind raw hlit => exact .quiet ((Reaches.pop s 1).trans (.skipIndex _)) rfl _
  -- a call is its own outermost one
  | case3 front rest hq hlit word hword hahead found calls s' heq =>
    have h : MeetsCalls s _ _ := hcall hahead
    rw [heq] at h
    exact meetsOperand_some.mpr (h.before (.skipIndex s'))
  | case4 front rest hq hlit word hword hahead words s' span text value =>
    -- a dotted name, or a literal that is spelled like one
    have houter : outerCalls value = [] := by
      simp only [value]
      split <;> rfl
    exact .quiet ((Reaches.pop s _).trans (.skipIndex s')) houter _
  | case5 front rest hq hlit hparen s' henter =>
    exact .of_reaches (.of_enter henter)
  | case6 front rest hq hlit hparen s' henter =>
    have hto := Reaches.of_enter henter
    have hlt := State.length_lt_of_enter (s.front?_of_queue hq) henter
    exact closed_meets ((hexpression _ hlt).after (hto.trans (.pop s' 1)))
  | case7 front rest hq hlit hbracket s' =>
    exact .quiet ((Reaches.skipBrackets s).trans (.skipIndex s')) rfl _
  | case8 front rest hq =>
    have hlt := (Reaches.refl (s.pop 1)).length_lt_of_pop (s.front?_of_queue hq) Nat.one_pos
    exact signed_meets ((hprimary _ hlt).after (.pop s 1))
  | case9 => exact .refl s

/-- The calls of an expression are met in order: those of its operand, then those of its tail. -/
theorem listing_expression (setting : Setting) (s : State) (hprimary : listing.primary s)
    (htail : ∀ t, t.queue.length ≤ s.queue.length → listing.tail setting 0 false t) :
    listing.expression setting s := by
  have h : MeetsOperand s _ := hprimary
  show MeetsOperand s _
  rw [Parsers.full_expression, Parsers.nextExpression]
  rcases heq : Parsers.full.primary s with ⟨operand, calls, s₁⟩
  rw [heq] at h
  cases operand with
  | none => exact h
  | some operand =>
    have h' : MeetsCalls s₁ _ _ := htail s₁ h.reaches.length_le
    have hboth := (meetsOperand_some.mp h).append h'
    rw [List.append_assoc] at hboth
    exact meetsOperand_some.mpr hboth

/-- The calls in the tail of an expression are met in order. -/
theorem listing_tail (setting : Setting) (depth : Nat) (consumed : Bool) (s : State)
    (hcall : isCallAhead s.queue = true → listing.call s)
    (htail : ∀ depth consumed t, t.queue.length < s.queue.length →
      listing.tail setting depth consumed t) : listing.tail setting depth consumed s := by
  show MeetsCalls s _ _
  rw [Parsers.full_tail]
  have hgo {token : Token} (hfront : s.front? = some token) (depth : Nat) (consumed : Bool) :
      MeetsCalls s (Parsers.full.tail setting depth consumed (s.pop 1)).2.1
        (Parsers.full.tail setting depth consumed (s.pop 1)).2.2 := by
    have hlt := (Reaches.refl (s.pop 1)).length_lt_of_pop hfront Nat.one_pos
    exact (htail depth consumed _ hlt).after (.pop s 1)
  fun_cases Parsers.nextTail Parsers.full setting depth consumed s with
  -- a call in the tail, and the calls behind it
  | case22 _ name hahead found inner s₁ heq hasTail later s₂ heq' hfront =>
    have h : MeetsCalls s _ _ := hcall hahead
    have h' : MeetsCalls s₁ _ _ := htail depth true s₁ (Parsers.full_call_shortens hahead heq)
    rw [heq] at h
    rw [heq'] at h'
    exact MeetsCalls.append h h'
  | _ =>
    -- every other branch stops here or takes one token and goes on
    first
    | exact .refl s
    | exact hgo (by assumption) ..

/-- A call is met before the calls inside it. -/
theorem listing_call (s : State) (hahead : isCallAhead s.queue = true)
    (harguments : ∀ t, t.queue.length + 2 ≤ s.queue.length →
      listing.arguments false false 0 t) : listing.call s := by
  obtain ⟨front, rest, word, hq, hword⟩ := exists_front_of_isCallAhead hahead
  have hspelled : Lexer.isUnspelled front.token = false := by
    rw [hword]
    rfl
  have hopen := length_openCall hahead
  -- the first token is the call's own: it is taken before its parenthesis is entered
  have hbegins {t : State} (h : Reaches s.openCall t) {call : Call}
      (hstart : call.span.start = s.here.start) : Begins s t call := by
    have hsuffix := ((openCall_reaches s).trans h).queue_suffix
    have hle := h.length_le
    rw [hq] at hsuffix hopen
    refine ⟨front, rest, hq ▸ List.suffix_rfl, ?_, hspelled, ?_⟩
    · rcases List.suffix_cons_iff.mp hsuffix with heq | hrest
      · rw [heq] at hle
        omega
      · exact hrest
    · rw [hstart, State.here, hq]
      rfl
  show MeetsCalls s _ _
  rw [Parsers.full_call]
  fun_cases Parsers.nextCall Parsers.full s with
  -- the call begins at its name, the calls inside it behind the parenthesis
  | case1 text inside heq arguments calls behind harg =>
    have henter := Reaches.of_enter heq
    have hto : Reaches s inside := (openCall_reaches s).trans henter
    have hinner : Meets inside _ _ _ := harguments inside (length_of_enter_openCall hahead heq)
    rw [harg] at hinner
    have hfound : Begins s inside ⟨text, arguments, behind.leave.spanFrom s.here⟩ :=
      hbegins henter (start_spanFrom ..)
    exact (Meets.single hto hfound).append (hinner.before (.leave behind))
  -- nested too deeply, so that there are no arguments
  | case2 text inside heq =>
    have henter := Reaches.of_enter heq
    have hskip := henter.trans (Reaches.skipToClosing inside)
    exact .single ((openCall_reaches s).trans hskip) (hbegins hskip (start_spanFrom ..))

-- ---------------------------------------------------------------------------
-- Argument lists
-- ---------------------------------------------------------------------------

/-- The calls below two lists of arguments, one list behind the other. -/
theorem walkAll_append (arguments others : List Argument) :
    Argument.walkAll (arguments ++ others) =
      Argument.walkAll arguments ++ Argument.walkAll others := by
  induction arguments with
  | nil => rfl
  | cons argument arguments ih =>
    rw [List.cons_append, Argument.walkAll, ih, Argument.walkAll, List.append_assoc]

/-- A round of an argument list lists the calls that are met in its argument, and the
argument itself is walked. -/
def MeetsRound (s : State) (r : Round × State) : Prop :=
  Meets s r.1.calls (Argument.walkAll r.1.given ++ r.1.calls.flatMap Call.walk) r.2

/-- What stands behind an argument adds no calls. -/
theorem afterArgument_meets {s s' : State} {given : List Argument} {calls : List Call}
    (h : Meets s calls (Argument.walkAll given ++ calls.flatMap Call.walk) s') (hasNamed : Bool)
    (position : Nat) : MeetsRound s (afterArgument given calls hasNamed position s') := by
  have hbefore := h.before (afterArgument_reaches given calls hasNamed position s')
  revert hbefore
  fun_cases afterArgument given calls hasNamed position s' <;> exact id

/-- What follows an operand in an argument list meets no call. -/
theorem afterOperand_meets {s : State} {r : Option (Value × Bool) × List Call × State}
    (h : MeetsOperand s r) (name : Option Identifier) (hasNamed : Bool) (position : Nat)
    (start : Span) : MeetsRound s (afterOperand name hasNamed position start r) := by
  obtain ⟨operand, calls, s'⟩ := r
  have hgiven := given_reaches name position start operand s'
  cases operand with
  | none => exact afterArgument_meets ((meetsOperand_none.mp h).before hgiven) ..
  | some operand =>
    obtain ⟨value, isExpression⟩ := operand
    have hread := meetsOperand_some.mp h
    refine afterArgument_meets (hread.mono (List.sublist_append_right ..) (.of_eq ?_)) ..
    rw [List.flatMap_append, walk_outerCalls, Argument.walkAll, Argument.walk, Argument.walkAll,
      List.append_nil]

/-- The calls of a round of an argument list are met in order. -/
theorem round_meets (hasNamed afterComma : Bool) (position : Nat) (s : State)
    (hexpression : ∀ t, t.queue.length ≤ s.queue.length → listing.expression .arguments t) :
    MeetsRound s (Parsers.full.round hasNamed afterComma position s) := by
  have hreaches := Parsers.round_reaches (Parsers.full_moves.expression .arguments) hasNamed
    afterComma position s
  revert hreaches
  fun_cases Parsers.round Parsers.full hasNamed afterComma position s with
  -- the only round that reads an expression
  | case7 _ _ s' token =>
    intro _
    have hname : Reaches s' (if s'.argumentName.1.isNone && hasNamed then
        s'.argumentName.2.record .positionalAfterNamed else s'.argumentName.2) :=
      (argumentName_yields s').reaches.trans (.recordIf _ _ (by decide))
    have hto := (Reaches.skipLayout s).trans hname
    rw [Parsers.argument]
    exact afterOperand_meets ((hexpression _ hto.length_le).after hto) ..
  | _ => exact fun hreaches => .of_reaches hreaches

/-- The calls of an argument list are met in order, round by round. -/
theorem listing_arguments (hasNamed afterComma : Bool) (position : Nat) (s : State)
    (hexpression : ∀ t, t.queue.length ≤ s.queue.length → listing.expression .arguments t)
    (hnext : ∀ round t hasNamed' afterComma' position',
      Parsers.full.round hasNamed afterComma position s = (round, t) →
      round.next = some (hasNamed', afterComma', position') →
        listing.arguments hasNamed' afterComma' position' t) :
    listing.arguments hasNamed afterComma position s := by
  have hround := round_meets hasNamed afterComma position s hexpression
  show Meets s _ _ _
  rw [Parsers.full_arguments, Parsers.nextArguments]
  rcases heq : Parsers.full.round hasNamed afterComma position s with ⟨⟨given, calls, next⟩, t⟩
  rw [heq] at hround
  cases next with
  | none => exact hround
  | some next =>
    obtain ⟨hasNamed', afterComma', position'⟩ := next
    have hothers : Meets t _ _ _ := hnext _ t _ _ _ heq rfl
    refine (Meets.append hround hothers).mono (List.Sublist.refl _) ?_
    -- the arguments of all rounds are walked before the calls beside them
    simp only [Parsers.goOn, walkAll_append, List.flatMap_append, List.append_assoc]
    exact (List.perm_append_comm_assoc ..).append_left _

/-- One step of every reader keeps the contract. -/
theorem listing_steps : listing.Steps :=
  ⟨listing_primary, listing_expression, listing_tail, listing_call, listing_arguments⟩

-- ---------------------------------------------------------------------------
-- Statements
-- ---------------------------------------------------------------------------

/-- A call and the calls inside it are met in order. -/
theorem callWithInner_meets {s : State} (h : isCallAhead s.queue = true) :
    MeetsCalls s s.callWithInner.1 s.callWithInner.2 :=
  listing_steps.holds_call h

/-- The calls on the rest of a line are met in order. -/
theorem scanLine_meets (fuel depth : Nat) (s : State) :
    MeetsCalls s (scanLine fuel depth s).1 (scanLine fuel depth s).2 := by
  fun_induction scanLine fuel depth s with
  -- a call, and the line behind it
  | case17 fuel depth s _ word hahead found s₁ hcall later s₂ hlater _ ih =>
    have h := callWithInner_meets hahead
    rw [hcall] at h
    rw [hlater] at ih
    exact h.append ih
  -- a closing that nothing opened is recorded and passed over
  | case13 fuel s _ _ ih
  | case15 fuel s _ _ ih =>
    exact ih.after ((Reaches.record s (by decide)).trans (.pop _ 1))
  | _ =>
    -- every other branch stops here or takes one token and goes on
    first
    | exact .refl _
    | exact Meets.after (.pop _ 1) (by assumption)

/-- The calls behind an assignment are met in order. -/
theorem assignedValue_meets (s : State) :
    MeetsCalls s ((assignedValue s).1.toList.flatMap outerCalls ++ (assignedValue s).2.1)
      (assignedValue s).2.2 := by
  have hread : MeetsOperand s (s.expression .statement) :=
    listing_steps.holds_expression .statement s
  fun_cases assignedValue s with
  | case1 | case2 => exact .refl s
  | case3 | case4 | case5 | case6 | case7 => exact .of_reaches (.record s (by decide))
  -- the value is a call: it is a node of its own, not one of the calls beside
  | case8 token _ _ _ _ _ _ _ value calls s' hvalue =>
    rw [hvalue] at hread
    simpa using meetsOperand_some.mp hread
  | case9 token _ _ _ _ _ _ _ found calls s' hvalue =>
    rw [hvalue] at hread
    exact meetsOperand_some.mp hread
  -- part of an expression, and no call
  | case10 token _ _ _ _ _ _ _ value calls s' hnot hvalue =>
    rw [hvalue] at hread
    have houter : outerCalls value = [] := by
      cases value with
      | call found => exact (hnot found rfl).elim
      | _ => rfl
    simpa [houter] using meetsOperand_some.mp hread
  | case11 token _ _ _ _ _ _ _ calls s' hvalue =>
    rw [hvalue] at hread
    exact (meetsOperand_none.mp hread).before
      ((Reaches.record s' (by decide)).trans (.skipLine _))

/-- The calls of a declaration and of its line are met in order. -/
theorem declaration_meets (s : State) :
    MeetsCalls s (callsOf ((declaration s).1 ++ (declaration s).2.1.map .call))
      (declaration s).2.2 := by
  fun_cases declaration s with
  | case1 isVar s₁ =>
    exact .of_reaches (((Reaches.popIf s isVar).trans (.record s₁ (by decide))).trans (.skipLine _))
  | case2 start isVar s₁ type _ typeName s₂ name span op rest' hq₂ _ value calls s₃ hvalue later s₄
      hlater node =>
    have hto : Reaches s s₂ := (Reaches.popIf s isVar).trans (.pop s₁ type.length)
    have hassigned := assignedValue_meets (s₂.pop 2)
    rw [hvalue] at hassigned
    have hline := scanLine_meets (s₃.queue.length + 1) 0 s₃
    rw [← State.scanLine, hlater] at hline
    -- the calls of the value, and then those on the rest of its line
    have hread := (hassigned.append hline).after (hto.trans (.pop s₂ 2))
    rw [callsOf_append, callsOf_declaration, callsOf_map_call, ← List.append_assoc]
    exact hread
  | case3 isVar s₁ type _ s₂ =>
    exact .of_reaches (((Reaches.popIf s isVar).trans (.pop s₁ _)).trans (.pop s₂ 1))

/-- The calls of a statement are met in order. -/
theorem statement_meets (s : State) : MeetsCalls s (callsOf (statement s).1) (statement s).2 := by
  have hline := scanLine_meets (s.queue.length + 1) 0 s
  have hdeclaration := declaration_meets s
  fun_cases statement s with
  | case1 => exact .refl s
  | case2 | case3 => exact .of_reaches (.skipDefinition s)
  | case4 => exact .of_reaches (.skipLine s)
  | case5 | case6 => exact .of_reaches (.pop s 1)
  | case7 withCalls nodes calls s' h
  | case8 withCalls nodes calls s' h
  | case10 withCalls _ _ _ nodes calls s' h =>
    rwa [h] at hdeclaration
  | case9 => exact .of_reaches (.skipHead s)
  | case11 withCalls _ _ _ calls s' h
  | case12 withCalls _ _ calls s' h =>
    rw [← State.scanLine, h] at hline
    show MeetsCalls s (callsOf (calls.map .call)) s'
    rwa [callsOf_map_call]

/-- The statements of a script list their calls in order. -/
theorem statements_meets (fuel : Nat) (s : State) :
    MeetsCalls s (callsOf (statements fuel s).1) (statements fuel s).2 := by
  fun_induction statements fuel s with
  | case8 fuel s _ token _ _ _ _ _ nodes s₁ hnodes others s₂ hothers ih =>
    have h := statement_meets s
    rw [hnodes] at h
    rw [hothers] at ih
    rw [callsOf_append]
    exact h.append ih
  | case5 fuel s _ _ ih | case6 fuel s _ _ ih | case7 fuel s _ _ ih => exact ih.after (.pop s 1)
  | _ => exact .refl _

/-- So does the search, token by token. -/
theorem looseCalls_meets (fuel : Nat) (s : State) :
    MeetsCalls s (looseCalls fuel s).1 (looseCalls fuel s).2 := by
  fun_induction looseCalls fuel s with
  | case5 fuel s _ _ _ _ ih => exact ih.after (.skipHead s)
  | case6 fuel s _ word _ _ hahead found s₁ hcall later s₂ hlater ih =>
    have h := callWithInner_meets hahead
    rw [hcall] at h
    rw [hlater] at ih
    exact h.append ih
  | case7 fuel s _ _ _ _ _ ih | case8 fuel s _ _ _ _ _ ih => exact ih.after (.pop s 1)
  | _ => exact .refl _

end Parser

/-- The calls of a script, together with those inside them, are met in their order. -/
theorem parse_meets (source : String) (allowed : Nat) :
    ∃ s, Parser.MeetsCalls (Parser.State.start (lex source) allowed)
      (parse source allowed).program.calls s :=
  ⟨_, Parser.statements_meets ((Parser.State.kept (lex source)).length + 1) _⟩

/-- No two calls of a script begin at the same place. -/
theorem parse_calls_distinct (source : String) (allowed : Nat) :
    ((parse source allowed).program.calls.flatMap Call.walk).Pairwise
      fun a b => a.span.start ≠ b.span.start := by
  obtain ⟨s, hmeets⟩ := parse_meets source allowed
  exact hmeets.distinct (Parser.start_ordered source allowed)

open Check in
/-- **Calls are listed in the order of the script, and none is reached twice.** Whatever
number of errors a parse goes on behind, the outermost calls of its tree begin one behind
the other, and so do the calls that are found without a tree. No two calls that are
reached through the tree begin at the same place, and these are the calls that are
checked against their signatures. -/
theorem calls_in_order (source : String) (allowed : Nat) :
    ((parse source allowed).program.calls.map (·.span.start)).Pairwise (· < ·) ∧
    ((extractCalls source).map (·.span.start)).Pairwise (· < ·) ∧
    (∀ docs, Signatures.check docs (parse source allowed).program =
      Signatures.checkCalls docs ((parse source allowed).program.calls.flatMap Call.walk)) ∧
    (((parse source allowed).program.calls.flatMap Call.walk).map (·.span.start)).Nodup := by
  obtain ⟨s, hparse⟩ := parse_meets source allowed
  have hsearch := Parser.looseCalls_meets ((Parser.State.kept (lex source)).length + 1)
    (Parser.State.start (lex source) Parser.defaultAllowed)
  exact ⟨List.pairwise_map.mpr (hparse.ascending (Parser.start_ordered source allowed)),
    List.pairwise_map.mpr (hsearch.ascending (Parser.start_ordered source _)),
    fun _ => rfl, List.pairwise_map.mpr (parse_calls_distinct source allowed)⟩

end PineCheck
