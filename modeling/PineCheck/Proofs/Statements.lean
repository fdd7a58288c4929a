import PineCheck.Proofs.Passage

/-!
# PineCheck — how a parse without errors goes over statements

What `Passes` says of expressions and calls holds of lines, declarations and
statements.

* `passes_declaredType` — the type of a declaration is passed, and a variable with an
  assignment stands behind it.
* `statements_passes` — the statements of a script are passed, if no definition of a
  type or of a function is among them and nothing is imported.
-/

namespace PineCheck.Parser

-- ---------------------------------------------------------------------------
-- Lines
-- ---------------------------------------------------------------------------

/-- A call that is read without an error is passed. -/
theorem callWithInner_passes {s : State} (h : isCallAhead s.queue = true)
    (hclean : s.callWithInner.2.Clean) (depth : Nat) :
    Passes s depth s.callWithInner.1 s.callWithInner.2 depth :=
  passing_steps.holds_call h hclean depth

/-- A line that is scanned without an error is passed. What it leaves open is
forgotten. -/
theorem scanLine_passes (fuel depth : Nat) (s : State) :
    (scanLine fuel depth s).2.Clean → ∀ outer,
      Passes s (outer + depth) (scanLine fuel depth s).1 (scanLine fuel depth s).2 outer := by
  fun_induction scanLine fuel depth s with
  -- a call, and the line behind it
  | case17 fuel depth s _ word hahead found s₁ hcall later s₂ hlater _ ih =>
    intro hclean outer
    have hto := (scanLine_yields fuel depth s₁).reaches
    have hread := callWithInner_passes hahead
    rw [hcall] at hread
    rw [hlater] at ih hto
    exact (hread (hto.clean hclean) _).trans (ih hclean outer)
  | case13 fuel s _ _ ih | case15 fuel s _ _ ih =>
    -- a bracket that closes nothing is an error
    intro hclean
    have hto := (scanLine_yields fuel 0 ((s.record .unmatchedClosing).pop 1)).reaches
    exact absurd hclean (not_clean_of_record ((Reaches.pop _ 1).trans hto) (by decide))
  -- an opening counts one up
  | case11 fuel depth s _ hfront ih | case12 fuel depth s _ hfront ih =>
    intro hclean outer
    exact (Passes.opening hfront rfl (outer + depth)).after (ih hclean outer)
  -- a closing counts one down, since something is open
  | case14 fuel depth s _ hdepth hfront ih | case16 fuel depth s _ hdepth hfront ih =>
    intro hclean outer
    obtain ⟨depth, rfl⟩ := Nat.exists_eq_succ_of_ne_zero hdepth
    exact (Passes.closing hfront rfl (outer + depth)).after (ih hclean outer)
  | case6 fuel depth s _ _ hfront ih | case8 fuel depth s _ _ hfront ih
  | case10 fuel depth s _ _ hfront ih =>
    intro hclean outer
    exact (passes_inert hfront rfl (outer + depth)).after (ih hclean outer)
  | case18 fuel depth s _ word hahead hfront ih =>
    intro hclean outer
    exact (passes_word hfront hahead (outer + depth)).after (ih hclean outer)
  | case19 fuel depth s _ token hfront _ _ _ _ _ _ _ _ _ ih =>
    intro hclean outer
    have hinert : isInert token = true := by
      unfold isInert
      split <;> simp_all
    exact (passes_inert hfront hinert (outer + depth)).after (ih hclean outer)
  | _ =>
    -- the other branches stop
    intro _ outer
    exact .forget _ (Nat.le_add_right ..)

/-- What stands behind an assignment is passed. -/
theorem assignedValue_passes (s : State) (hclean : (assignedValue s).2.2.Clean) (depth : Nat) :
    Passes s depth ((assignedValue s).1.toList.flatMap outerCalls ++ (assignedValue s).2.1)
      (assignedValue s).2.2 depth := by
  have hread : PassesOperand s (s.expression .statement) :=
    passing_steps.holds_expression .statement s
  revert hclean
  fun_cases assignedValue s with
  | case1 | case2 => exact fun _ => .refl s depth
  | case3 | case4 | case5 | case6 | case7 =>
    exact fun hclean => absurd hclean (not_clean_record (by decide))
  -- the value is kept, with its outermost calls
  | case8 token _ _ _ _ _ _ _ value calls s' hvalue =>
    intro hclean
    rw [hvalue] at hread
    simpa using hread value false rfl hclean depth
  | case9 token _ _ _ _ _ _ _ found calls s' hvalue =>
    intro hclean
    rw [hvalue] at hread
    exact hread (.call found) true rfl hclean depth
  -- of a compound value only the calls are kept
  | case10 token _ _ _ _ _ _ _ value calls s' hnot hvalue =>
    intro hclean
    rw [hvalue] at hread
    have houter : outerCalls value = [] := by
      cases value with
      | call found => exact (hnot found rfl).elim
      | _ => rfl
    have hpasses := hread value true rfl hclean depth
    rw [houter] at hpasses
    exact hpasses
  | case11 token _ _ _ _ _ _ _ calls s' hvalue =>
    intro hclean
    exact absurd hclean (not_clean_of_record (.skipLine _) (by decide))

-- ---------------------------------------------------------------------------
-- Declarations
-- ---------------------------------------------------------------------------

theorem arrayMark_append (q : Queue) : (arrayMark q).1 ++ (arrayMark q).2 = q := by
  fun_cases arrayMark q <;> rfl

/-- An array mark is passed, its two brackets together. -/
theorem passes_arrayMark {s : State} {mark rest : Queue} (h : arrayMark s.queue = (mark, rest))
    (depth : Nat) : Passes s depth [] (s.pop mark.length) depth := by
  revert h
  generalize hqueue : s.queue = q
  fun_cases arrayMark q with
  | case1 left right rest' hmark =>
    rintro ⟨⟩
    rw [Bool.and_eq_true, decide_eq_true_eq, decide_eq_true_eq] at hmark
    have hleft : s.front? = some (.punctuation .bracketLeft) := by
      rw [s.front?_of_queue hqueue, hmark.1]
    have hqueue' : (s.pop 1).queue = right :: rest := by
      rw [State.pop, hqueue]
      rfl
    have hright : (s.pop 1).front? = some (.punctuation .bracketRight) := by
      rw [(s.pop 1).front?_of_queue hqueue', hmark.2]
    have hboth := (Passes.opening hleft rfl depth).after (.closing hright rfl depth)
    rwa [State.pop_pop] at hboth
  | case2 | case3 =>
    rintro ⟨⟩
    exact .refl s depth

/-- Before a word that may have a mark of an array type in front of it, no parenthesis
stands. -/
theorem startsWith_of_arrayMark {q mark rest : Queue} {word : Placed} {text : String}
    (h : arrayMark q = (mark, word :: rest)) (hword : word.token = .identifier text) :
    startsWith q (.punctuation .parenLeft) = false := by
  have hstarts {placed : Placed} (behind : Queue) (hne : placed.token ≠ .punctuation .parenLeft) :
      startsWith (placed :: behind) (.punctuation .parenLeft) = false := by
    rw [startsWith, List.head?_cons, Option.any_some]
    exact decide_eq_false hne
  revert h
  fun_cases arrayMark q with
  | case1 left right rest' hmark =>
    intro _
    rw [Bool.and_eq_true, decide_eq_true_eq] at hmark
    exact hstarts _ (by rw [hmark.1]; rintro ⟨⟩)
  | case2 | case3 =>
    rintro ⟨⟩
    exact hstarts _ (by rw [hword]; rintro ⟨⟩)

/-- An assignment starts with a variable and an operator that gives it a value. -/
theorem exists_of_startsAssignment {q : Queue} (h : startsAssignment q = true) :
    ∃ word op rest text, q = word :: op :: rest ∧ word.token = .identifier text ∧
      assigns op.token = true := by
  revert h
  fun_cases startsAssignment q with
  | case1 word op rest text hword =>
    intro h
    refine ⟨word, op, rest, text, rfl, hword, ?_⟩
    rw [Bool.or_eq_true, decide_eq_true_eq, decide_eq_true_eq] at h
    rcases h with h | h
    · rw [h]
      rfl
    · rw [h]
      rfl
  | case2 | case3 => exact nofun

/-- A name that is not empty starts with a word. -/
theorem name_eq_cons {q words rest : Queue} (h : name q = (words, rest)) (hwords : words ≠ []) :
    ∃ word others text, words = word :: others ∧ word.token = .identifier text := by
  revert h
  fun_cases name q with
  | case1 =>
    rintro ⟨⟩
    exact absurd rfl hwords
  | case2 word q text hword taken rest' _ =>
    rintro ⟨⟩
    exact ⟨word, taken, text, rfl, hword⟩
  | case3 =>
    rintro ⟨⟩
    exact absurd rfl hwords

/-- The variable of a declaration stands behind its type. If the type is not left out, it is a
name with type arguments and the mark of an array type. -/
theorem declaredType?_eq_some {q type : Queue} (h : declaredType? q = some type) :
    ∃ word op rest text, q = type ++ word :: op :: rest ∧ word.token = .identifier text ∧
      assigns op.token = true ∧
      (type = [] ∨ ∃ words arguments mark behind behind', type = words ++ arguments ++ mark ∧
        name q = (words, behind) ∧ generics behind = (arguments, behind') ∧
        arrayMark behind' = (mark, word :: op :: rest)) := by
  have happend := name_append q
  revert h
  fun_cases declaredType? q with
  | case1 => exact nofun
  | case3 => exact nofun
  | case5 => exact nofun
  -- a name alone: there is no type
  | case2 words rest hwords hname hassigns hone =>
    rintro ⟨⟩
    obtain ⟨word, others, text, rfl, hword⟩ := name_eq_cons hname hwords
    obtain rfl : others = [] := List.length_eq_zero_iff.mp (Nat.succ.inj hone)
    rw [hname] at happend
    cases rest with
    | nil => cases hassigns
    | cons op rest => exact ⟨word, op, rest, text, happend.symm, hword, hassigns, .inl rfl⟩
  -- a type, and the name behind it
  | case4 words behind hwords hname hassigns arguments behind' hgenerics mark rest hmark hstarts =>
    rintro ⟨⟩
    obtain ⟨word, op, rest, text, rfl, hword, hop⟩ := exists_of_startsAssignment hstarts
    have hgenerics' := generics_append behind
    have hmark' := arrayMark_append behind'
    rw [hname] at happend
    rw [hgenerics] at hgenerics'
    rw [hmark] at hmark'
    refine ⟨word, op, rest, text, ?_, hword, hop,
      .inr ⟨words, arguments, mark, behind, behind', rfl, hname, hgenerics, hmark⟩⟩
    rw [← happend, ← hgenerics', ← hmark', List.append_assoc, List.append_assoc]

/-- Behind the type of a declaration stand a word and an operator. -/
theorem queue_behind_type {s : State} {type : Queue} (h : declaredType? s.queue = some type) :
    ∃ word op rest text, (s.pop type.length).queue = word :: op :: rest ∧
      word.token = .identifier text ∧ assigns op.token = true := by
  obtain ⟨word, op, rest, text, hqueue, hword, hop, -⟩ := declaredType?_eq_some h
  exact ⟨word, op, rest, text, by rw [State.pop, hqueue, List.drop_left], hword, hop⟩

/-- The type of a declaration is passed. -/
theorem passes_declaredType {s : State} {type : Queue} (h : declaredType? s.queue = some type)
    (depth : Nat) : Passes s depth [] (s.pop type.length) depth := by
  obtain ⟨word, op, rest, text, hqueue, hword, -, htype⟩ := declaredType?_eq_some h
  rcases htype with rfl | ⟨words, arguments, mark, behind, behind', rfl, hname, hgenerics, hmark⟩
  · exact .refl s depth
  -- behind the type arguments a bracket or the variable stands, and no parenthesis
  have hcall : isCallAhead s.queue = false := by
    unfold isCallAhead
    rw [hname]
    split
    · rfl
    · next heq =>
      cases heq
      rw [hgenerics]
      exact startsWith_of_arrayMark hmark hword
  have hbehind : behind' = mark ++ word :: op :: rest := by
    have hmark' := arrayMark_append behind'
    rw [hmark] at hmark'
    exact hmark'.symm
  have hcut : s.queue = (words ++ arguments) ++ behind' := by
    rw [hqueue, hbehind, List.append_assoc]
  have hwords := allPlain_name hcall
  have harguments := allPlain_generics behind
  rw [hname, ← generics_append behind] at hwords
  rw [hgenerics] at hwords harguments
  have htype := (hwords.append harguments).passes hcut depth
  have hrest : (s.pop (words ++ arguments).length).queue = behind' := by
    rw [State.pop, hcut, List.drop_left]
  have hall := htype.after (passes_arrayMark (hrest ▸ hmark) depth)
  rwa [State.pop_pop, ← List.length_append] at hall

/-- The operator that gives a variable its value. -/
theorem isInert_of_assigns {token : Token} (h : assigns token = true) :
    isInert token = true ∧ token ≠ .punctuation .dot ∧ token ≠ .operator .less ∧
      token ≠ .punctuation .parenLeft := by
  revert h
  fun_cases assigns token with
  | case8 => exact nofun
  | case9 => exact nofun
  | _ => exact fun _ => ⟨rfl, nofun, nofun, nofun⟩

/-- The calls of statements. -/
abbrev callsOf (nodes : List Node) : List Call :=
  Program.calls ⟨nodes, none⟩

theorem callsOf_append (nodes others : List Node) :
    callsOf (nodes ++ others) = callsOf nodes ++ callsOf others :=
  List.filterMap_append

@[simp] theorem callsOf_map_call (calls : List Call) : callsOf (calls.map .call) = calls := by
  induction calls with
  | nil => rfl
  | cons call calls ih => exact congrArg (call :: ·) ih

/-- The calls of a declaration are the outermost ones of its value. -/
theorem callsOf_declaration (declaration : Declaration) :
    callsOf [.declaration declaration] = declaration.value.toList.flatMap outerCalls := by
  obtain ⟨name, typeName, isVar, isReassignment, value, span⟩ := declaration
  rcases value with _ | value
  · rfl
  · cases value <;> rfl

/-- A declaration that is read without an error is passed, with the calls on its line. -/
theorem declaration_passes {s : State} (hclean : (declaration s).2.2.Clean) (depth : Nat) :
    Passes s depth (callsOf ((declaration s).1 ++ (declaration s).2.1.map .call))
      (declaration s).2.2 depth := by
  revert hclean
  fun_cases declaration s with
  | case1 isVar s₁ =>
    intro hclean
    exact absurd hclean (not_clean_of_record (.skipLine _) (by decide))
  | case2 start isVar s₁ type htype typeName s₂ name span op rest hq _ value calls s₃ hvalue
      later s₄ hlater node =>
    intro hclean
    have hline := scanLine_passes (s₃.queue.length + 1) 0 s₃
    have hto := (scanLine_yields (s₃.queue.length + 1) 0 s₃).reaches
    rw [← State.scanLine, hlater] at hline hto
    have hassigned := assignedValue_passes (s₂.pop 2)
    rw [hvalue] at hassigned
    obtain ⟨word, op', rest', text, hqueue, hword, hop⟩ := queue_behind_type htype
    rw [show (s₁.pop type.length).queue = _ from hq] at hqueue
    cases hqueue
    obtain ⟨hinert, hdot, hless, hparen⟩ := isInert_of_assigns hop
    have hplain : AllPlain [⟨.identifier name, span⟩, op] rest :=
      ⟨plain_word rfl (not_call_before hdot hless hparen rest), plain_of_isInert hinert rest,
        trivial⟩
    -- the optional keyword is inert
    have hvar : Passes s depth [] s₁ depth := by
      unfold s₁
      split
      · next hvar =>
        simp only [isVar, Bool.or_eq_true, decide_eq_true_eq] at hvar
        rcases hvar with hfront | hfront
        · exact passes_inert hfront rfl depth
        · exact passes_inert hfront rfl depth
      · exact .refl s depth
    have hhead := (hvar.after (passes_declaredType htype depth)).after (hplain.passes hq depth)
    have hrest := (hassigned (hto.clean hclean) depth).trans (hline hclean depth)
    rw [callsOf_append, callsOf_declaration, callsOf_map_call, ← List.append_assoc]
    exact hhead.after hrest
  | case3 isVar s₁ type htype s₂ hnot =>
    -- a variable and an operator stand behind the type, so that this does not happen
    obtain ⟨word, op, rest, text, hqueue, hword, -⟩ := queue_behind_type htype
    obtain ⟨token, span⟩ := word
    cases hword
    exact (hnot _ _ _ _ hqueue).elim

-- ---------------------------------------------------------------------------
-- Statements
-- ---------------------------------------------------------------------------

/-- No type is defined, nothing is imported, and there is no arrow of a function. -/
def LacksDefinitions (q : Queue) : Prop :=
  ∀ placed ∈ q, placed.token ≠ .keyword .typeKw ∧ placed.token ≠ .keyword .enumKw ∧
    placed.token ≠ .keyword .importKw ∧ placed.token ≠ .operator .arrow

instance (q : Queue) : Decidable (LacksDefinitions q) :=
  inferInstanceAs (Decidable (∀ placed ∈ q, _))

theorem LacksDefinitions.reaches {s s' : State} (hs : LacksDefinitions s.queue)
    (h : Reaches s s') : LacksDefinitions s'.queue :=
  fun placed hp => hs placed (h.queue_suffix.subset hp)

/-- An arrow that is looked for behind a closing parenthesis is not there. -/
theorem arrowBehind_eq_false {q : Queue} (h : LacksDefinitions q) (depth : Nat) :
    arrowBehind depth q = false := by
  induction q generalizing depth with
  | nil => rfl
  | cons placed rest ih =>
    have hrest : LacksDefinitions rest := fun p hp => h p (List.mem_cons_of_mem _ hp)
    have harrow : startsWith rest (.operator .arrow) = false := by
      cases rest with
      | nil => rfl
      | cons next rest =>
        rw [startsWith, List.head?_cons, Option.any_some]
        exact decide_eq_false (hrest next List.mem_cons_self).2.2.2
    rw [arrowBehind]
    split
    · rfl
    · exact ih hrest _
    · split
      · exact harrow
      · exact ih hrest _
    · exact ih hrest _

/-- So none of the heads that the parser skips is met. -/
theorem isDefinitionAhead_eq_false {q : Queue} (h : LacksDefinitions q) :
    isDefinitionAhead q = false := by
  have happend := name_append q
  unfold isDefinitionAhead
  split
  · rfl
  · next words rest _ heq =>
    rw [heq] at happend
    have hrest : LacksDefinitions rest := fun p hp => h p (by
      rw [← happend]
      exact List.mem_append_right _ hp)
    rw [arrowBehind_eq_false hrest, Bool.and_false]

/-- A statement that is read without an error passes over its calls, and it leaves as many brackets
open as it has found. -/
theorem statement_passes {s : State} (hs : LacksDefinitions s.queue)
    (hclean : (statement s).2.Clean) (depth : Nat) :
    Passes s depth (callsOf (statement s).1) (statement s).2 depth := by
  have hlacks {token : Token} (hfront : s.front? = some token) :
      token ≠ .keyword .typeKw ∧ token ≠ .keyword .enumKw ∧ token ≠ .keyword .importKw := by
    obtain ⟨front, rest, hq, rfl⟩ := exists_queue_of_front? hfront
    have hfront := hs front (by rw [hq]; exact List.mem_cons_self)
    exact ⟨hfront.1, hfront.2.1, hfront.2.2.1⟩
  have hline := scanLine_passes (s.queue.length + 1) 0 s
  have hdeclaration := declaration_passes (s := s)
  revert hclean
  fun_cases statement s with
  | case1 => exact fun _ => .refl s depth
  | case2 hfront => exact ((hlacks hfront).1 rfl).elim
  | case3 hfront => exact ((hlacks hfront).2.1 rfl).elim
  | case4 hfront => exact ((hlacks hfront).2.2 rfl).elim
  | case5 hfront | case6 hfront => exact fun _ => passes_inert hfront rfl depth
  | case7 withCalls nodes calls s' h
  | case8 withCalls nodes calls s' h
  | case10 withCalls _ _ _ nodes calls s' h =>
    intro hclean
    rw [h] at hdeclaration
    exact hdeclaration hclean depth
  | case9 word hahead hfront =>
    rw [isDefinitionAhead_eq_false hs] at hahead
    cases hahead
  | case11 withCalls _ _ _ calls s' h
  | case12 withCalls _ _ calls s' h =>
    intro hclean
    rw [← State.scanLine, h] at hline
    show Passes s depth (callsOf (calls.map .call)) s' depth
    rw [callsOf_map_call]
    exact hline hclean depth

/-- **The statements of a script are passed if they are read without an error.** The
calls that are listed are those of the statements. -/
theorem statements_passes (fuel : Nat) (s : State) (hs : LacksDefinitions s.queue)
    (hclean : (statements fuel s).2.Clean) (depth : Nat) :
    Passes s depth (callsOf (statements fuel s).1) (statements fuel s).2 depth := by
  revert hclean
  fun_induction statements fuel s with
  | case8 fuel s _ token _ _ _ _ hfront nodes s₁ hnodes others s₂ hothers ih =>
    intro hclean
    have hstatement := statement_passes hs
    have hto := (statement_yields s).reaches
    have hrest := (statements_yields fuel s₁).reaches
    rw [hnodes] at hstatement hto
    rw [hothers] at ih hrest
    rw [callsOf_append]
    exact (hstatement (hrest.clean hclean) depth).trans (ih (hs.reaches hto) hclean)
  | case5 fuel s _ hfront ih | case6 fuel s _ hfront ih | case7 fuel s _ hfront ih =>
    intro hclean
    exact (passes_inert hfront rfl depth).after (ih (hs.reaches (.pop s 1)) hclean)
  | _ => exact fun _ => .refl _ depth

end PineCheck.Parser

namespace PineCheck

open PineCheck.Parser

/-- A parse without errors has not halted. -/
theorem finalState_clean {tokens : List Lexed} {allowed : Nat}
    (h : (finalState tokens allowed).errors = []) : (finalState tokens allowed).Clean := by
  refine ⟨h, ?_⟩
  by_contra hhalted
  rw [Bool.not_eq_false] at hhalted
  obtain ⟨recorded, span, herrors⟩ := (finalState_accounted tokens allowed).last hhalted
  rw [h] at herrors
  simp at herrors

/-- A parse without errors passes all that it has taken, and stops at the end of the
tokens. -/
theorem parse_passes {source : String} {allowed : Nat}
    (hlacks : LacksDefinitions (State.kept (lex source)))
    (herrors : (parse source allowed).errors = []) :
    Passes (State.start (lex source) allowed) 0 (parse source allowed).program.calls
        (finalState (lex source) allowed) 0 ∧
      (finalState (lex source) allowed).Clean ∧
      ((finalState (lex source) allowed).front? = none ∨
        (finalState (lex source) allowed).front? = some .endOfFile) := by
  rw [errors_parse] at herrors
  have hclean := finalState_clean herrors
  have hends := statements_ends ((State.kept (lex source)).length + 1)
    (State.start (lex source) allowed) Nat.le.refl
  refine ⟨statements_passes _ _ hlacks hclean 0, hclean, hends.resolve_left fun hhalted => ?_⟩
  exact absurd (hclean.2.symm.trans hhalted) (by decide)

end PineCheck
