import PineCheck.Proofs.Lockstep

/-!
# PineCheck — how many errors a parse goes on behind

A parse counts the errors that it goes on behind. This module says what the count
means for the result, and what becomes of the result when more errors are allowed.

* `parse_accounts` — the errors of a parse are the faults of its tokens, one error
  for each attempt to recover, and one last error if the parse has halted.
* `parse_truncates` — a parse that is allowed fewer errors records the beginning of
  what a parse records that is allowed more.
-/

namespace PineCheck.Parser

-- ---------------------------------------------------------------------------
-- The count along a parse
-- ---------------------------------------------------------------------------

/-- An error that counts as an attempt to recover. -/
def IsAttempt (problem : ParseProblem) : Prop :=
  problem.severity = .error ∧ problem.code ≠ .lexicalError ∧ problem.code ≠ .parseTimeout

/-- The errors of a parse, and what it counts of them. -/
structure Accounted (lexical : List ParseError) (s : State) : Prop where
  attempts_le : s.attempts ≤ s.allowed + 1
  isHalted_iff : s.isHalted = true ↔ s.allowed < s.attempts
  errors : ∃ recorded closing, s.errors = lexical ++ recorded ++ closing ∧
    recorded.length = s.attempts ∧
    (∀ error ∈ recorded, IsAttempt error.problem) ∧
    (s.isHalted = true → ∃ span, closing = [⟨.recoveryExhausted s.allowed, span⟩]) ∧
    (s.isHalted = false → closing = [])
  warnings : ∀ warning ∈ s.warnings, warning.problem.severity = .warning

/-- At the start there are the errors of the lexer, and no attempt. -/
theorem Accounted.start (tokens : List Lexed) (allowed : Nat) :
    Accounted (State.lexicalErrors tokens) (State.start tokens allowed) where
  attempts_le := Nat.zero_le _
  isHalted_iff := by simp [State.start]
  errors := ⟨[], [], by simp [State.start], rfl, by simp, by simp [State.start], fun _ => rfl⟩
  warnings := by simp [State.start]

/-- A problem that is neither a fault nor the last one is a warning or an error. -/
theorem isAttempt_of_code {problem : ParseProblem} (hwarning : ¬ problem.severity = .warning)
    (hcode : problem.code ≠ .lexicalError ∧ problem.code ≠ .parseTimeout) :
    IsAttempt problem := by
  refine ⟨?_, hcode⟩
  cases problem
  case trailingComma => exact absurd rfl hwarning
  case recoveryExhausted => exact absurd rfl hcode.2
  all_goals rfl

/-- Recording a problem keeps the account. -/
theorem Accounted.record {lexical : List ParseError} {s : State} (h : Accounted lexical s)
    {problem : ParseProblem}
    (hcode : problem.code ≠ .lexicalError ∧ problem.code ≠ .parseTimeout) :
    Accounted lexical (s.record problem) := by
  by_cases hhalted : s.isHalted = true
  · rwa [State.record_of_isHalted hhalted]
  by_cases hwarning : problem.severity = .warning
  · rw [State.record_warning hhalted hwarning]
    refine ⟨h.attempts_le, h.isHalted_iff, h.errors, fun warning hmem => ?_⟩
    rcases List.mem_append.mp hmem with hmem | hmem
    · exact h.warnings warning hmem
    · rw [List.mem_singleton.mp hmem]
      exact hwarning
  have hle : s.attempts ≤ s.allowed :=
    Nat.not_lt.mp fun hlt => hhalted (h.isHalted_iff.mpr hlt)
  obtain ⟨recorded, closing, herrors, hlength, hrecorded, _, hclosing⟩ := h.errors
  -- the parse had not halted, so that the new error stands behind the recorded ones
  rw [hclosing (Bool.eq_false_iff.mpr hhalted), List.append_nil] at herrors
  have hnew : ∀ error ∈ recorded ++ [⟨problem, s.here⟩], IsAttempt error.problem := by
    intro error hmem
    rcases List.mem_append.mp hmem with hmem | hmem
    · exact hrecorded error hmem
    · rw [List.mem_singleton.mp hmem]
      exact isAttempt_of_code hwarning hcode
  -- within the budget the parse goes on, behind it the parse halts
  by_cases hlt : s.attempts < s.allowed
  · rw [State.record_error hhalted hwarning hlt]
    refine ⟨?_, ?_, ⟨recorded ++ [⟨problem, s.here⟩], [], ?_, ?_, hnew, ?_, fun _ => rfl⟩,
      h.warnings⟩
    · dsimp only
      omega
    · exact iff_of_false hhalted (Nat.not_lt.mpr hlt)
    · simp only [herrors, List.append_assoc, List.append_nil]
    · simp [hlength]
    · exact fun h => absurd h hhalted
  · rw [State.record_last hhalted hwarning (by omega)]
    refine ⟨?_, ?_, ⟨recorded ++ [⟨problem, s.here⟩], _, ?_, ?_, hnew, fun _ => ⟨s.here, rfl⟩, ?_⟩,
      h.warnings⟩
    · dsimp only
      omega
    · exact iff_of_true rfl (Nat.lt_succ_of_le (Nat.not_lt.mp hlt))
    · simp only [herrors, List.append_assoc]
    · simp [hlength]
    · intro h
      cases h

/-- Whatever a parse does keeps the account. -/
theorem Accounted.reaches {lexical : List ParseError} {s s' : State} (h : Accounted lexical s)
    (hs : Reaches s s') : Accounted lexical s' := by
  induction hs with
  | refl => exact h
  | tail _ hmove ih =>
    cases hmove with
    | record hcode => exact ih.record hcode
    | pop | deepen | leave => exact ⟨ih.attempts_le, ih.isHalted_iff, ih.errors, ih.warnings⟩

/-- A halted parse has recorded that it halts. -/
theorem Accounted.last {lexical : List ParseError} {s : State} (h : Accounted lexical s)
    (hhalted : s.isHalted = true) :
    ∃ recorded span, s.errors = recorded ++ [⟨.recoveryExhausted s.allowed, span⟩] := by
  obtain ⟨recorded, closing, herrors, _, _, hlast, _⟩ := h.errors
  obtain ⟨span, rfl⟩ := hlast hhalted
  exact ⟨lexical ++ recorded, span, herrors⟩

/-- The errors of the lexer have their own code. -/
theorem code_lexicalErrors {tokens : List Lexed} {error : ParseError}
    (h : error ∈ State.lexicalErrors tokens) : error.problem.code = .lexicalError := by
  rw [State.lexicalErrors, List.mem_filterMap] at h
  obtain ⟨lexed, _, hfault⟩ := h
  split at hfault
  · cases hfault
  · cases hfault
    rfl

end PineCheck.Parser

namespace PineCheck

open PineCheck.Parser

-- ---------------------------------------------------------------------------
-- Results
-- ---------------------------------------------------------------------------

/-- What a parse of tokens has read, and the state that it ends in. -/
def finish (tokens : List Lexed) (allowed : Nat) : List Node × State :=
  statements ((State.kept tokens).length + 1) (State.start tokens allowed)

/-- The state that a parse of tokens ends in. -/
def finalState (tokens : List Lexed) (allowed : Nat) : State :=
  (finish tokens allowed).2

/-- A parse reads the statements and keeps what was recorded. -/
theorem parseTokens_eq (tokens : List Lexed) (allowed : Nat) :
    parseTokens tokens allowed =
      { program := ⟨(finish tokens allowed).1,
          tokens.head?.map fun first => first.span.through (finalState tokens allowed).last⟩
        errors := (finalState tokens allowed).errors
        warnings := (finalState tokens allowed).warnings
        tokenCount := tokens.length
        attempts := (finalState tokens allowed).attempts } :=
  rfl

theorem start_reaches_finalState (tokens : List Lexed) (allowed : Nat) :
    Reaches (State.start tokens allowed) (finalState tokens allowed) :=
  (statements_yields _ _).reaches

theorem finalState_accounted (tokens : List Lexed) (allowed : Nat) :
    Accounted (State.lexicalErrors tokens) (finalState tokens allowed) :=
  (Accounted.start tokens allowed).reaches (start_reaches_finalState tokens allowed)

/-- At the end as many attempts are allowed as at the start. -/
theorem allowed_finalState (tokens : List Lexed) (allowed : Nat) :
    (finalState tokens allowed).allowed = allowed :=
  (start_reaches_finalState tokens allowed).allowed_eq

/-- The last error tells whether a parse has halted. -/
theorem isHalted_parseTokens (tokens : List Lexed) (allowed : Nat) :
    (parseTokens tokens allowed).isHalted = (finalState tokens allowed).isHalted := by
  have haccount := finalState_accounted tokens allowed
  obtain ⟨recorded, closing, herrors, _, hrecorded, hlast, hnone⟩ := haccount.errors
  -- neither the errors of the lexer nor the recorded ones have the code of the halt
  have hlexical : ∀ error ∈ State.lexicalErrors tokens, ¬ error.problem.code = .parseTimeout := by
    intro error hmem
    rw [code_lexicalErrors hmem]
    decide
  have hrecorded' : ∀ error ∈ recorded, ¬ error.problem.code = .parseTimeout :=
    fun error hmem => (hrecorded error hmem).2.2
  show (finalState tokens allowed).errors.any _ = _
  rw [herrors, List.any_append, List.any_append, List.any_eq_false.mpr (by simpa using hlexical),
    List.any_eq_false.mpr (by simpa using hrecorded'), Bool.false_or, Bool.false_or]
  cases hhalted : (finalState tokens allowed).isHalted with
  | false =>
    rw [hnone hhalted]
    rfl
  | true =>
    obtain ⟨span, hclosing⟩ := hlast hhalted
    rw [hclosing]
    rfl

@[simp] theorem errors_parse (source : String) (allowed : Nat) :
    (parse source allowed).errors = (finalState (lex source) allowed).errors := by
  rw [parse, parseTokens_eq]

@[simp] theorem warnings_parse (source : String) (allowed : Nat) :
    (parse source allowed).warnings = (finalState (lex source) allowed).warnings := by
  rw [parse, parseTokens_eq]

@[simp] theorem attempts_parse (source : String) (allowed : Nat) :
    (parse source allowed).attempts = (finalState (lex source) allowed).attempts := by
  rw [parse, parseTokens_eq]

@[simp] theorem isHalted_parse (source : String) (allowed : Nat) :
    (parse source allowed).isHalted = (finalState (lex source) allowed).isHalted :=
  isHalted_parseTokens (lex source) allowed

/-- **The account of a parse.** The parse goes on behind at most as many errors as
allowed, and halts at the next one. Its errors are the faults of the tokens, in
their order, then one error for each attempt to recover, and then a critical one
if and only if the parse has halted. -/
theorem parse_accounts (source : String) (allowed : Nat) :
    (parse source allowed).attempts ≤ allowed + 1 ∧
    ((parse source allowed).isHalted = true ↔ allowed < (parse source allowed).attempts) ∧
    (∃ recorded closing,
      (parse source allowed).errors =
        State.lexicalErrors (lex source) ++ recorded ++ closing ∧
      (∀ error ∈ State.lexicalErrors (lex source), error.problem.code = .lexicalError) ∧
      recorded.length = (parse source allowed).attempts ∧
      (∀ error ∈ recorded, error.problem.severity = .error ∧
        error.problem.code ≠ .lexicalError ∧ error.problem.code ≠ .parseTimeout) ∧
      ((parse source allowed).isHalted = true → ∃ last, closing = [last] ∧
        last.problem.code = .parseTimeout ∧ last.problem.severity = .critical) ∧
      ((parse source allowed).isHalted = false → closing = [])) ∧
    ∀ warning ∈ (parse source allowed).warnings, warning.problem.severity = .warning := by
  have haccount := finalState_accounted (lex source) allowed
  have hle := haccount.attempts_le
  have hiff := haccount.isHalted_iff
  rw [allowed_finalState] at hle hiff
  obtain ⟨recorded, closing, herrors, hlength, hrecorded, hlast, hnone⟩ := haccount.errors
  simp only [errors_parse, warnings_parse, attempts_parse, isHalted_parse]
  refine ⟨hle, hiff, ⟨recorded, closing, herrors, fun _ => code_lexicalErrors, hlength, hrecorded,
    fun h => ?_, hnone⟩, haccount.warnings⟩
  obtain ⟨span, hclosing⟩ := hlast h
  exact ⟨_, hclosing, rfl, rfl⟩

-- ---------------------------------------------------------------------------
-- Two numbers of errors
-- ---------------------------------------------------------------------------

/-- Two parses of the same tokens agree. -/
theorem finish_agrees (tokens : List Lexed) {fewer more : Nat} (h : fewer ≤ more) :
    AgreesOn fewer more (finish tokens fewer) (finish tokens more) := by
  have hstart : State.start tokens more = (State.start tokens fewer).withAllowed more := rfl
  have hagrees := statements_agrees h (.level 0) (fun _ => Parsers.iterate_moves)
    ((State.kept tokens).length + 1) (.same () (s := State.start tokens fewer) rfl)
    (.inl Nat.le.refl)
  rw [← Parsers.level_eq_iterate, ← hstart] at hagrees
  exact hagrees

/-- **Fewer errors allowed cut a parse off.** A parse that does not halt gives the same
whatever more it is allowed. What a halted one has recorded, but for its last
error, is the beginning of what is recorded when more errors are allowed. -/
theorem parse_truncates (source : String) {fewer more : Nat} (h : fewer ≤ more) :
    ((parse source fewer).isHalted = false → parse source more = parse source fewer) ∧
    ((parse source fewer).isHalted = true → ∃ recorded last,
      (parse source fewer).errors = recorded ++ [last] ∧
      last.problem.code = .parseTimeout ∧
      recorded <+: (parse source more).errors ∧
      (parse source fewer).warnings <+: (parse source more).warnings) := by
  rcases (finish_agrees (lex source) h).cut_or_same with hcut | ⟨_, heq⟩
  -- the first parse was cut off
  · refine ⟨fun hfalse => ?_, fun htrue => ?_⟩
    · rw [isHalted_parse, finalState, hcut.isHalted] at hfalse
      cases hfalse
    · rw [isHalted_parse] at htrue
      simp only [errors_parse, warnings_parse]
      obtain ⟨recorded, span, herrors⟩ := (finalState_accounted (lex source) fewer).last htrue
      have hprefix := hcut.errors
      rw [← finalState, ← finalState, herrors, List.dropLast_concat] at hprefix
      exact ⟨recorded, _, herrors, rfl, hprefix, hcut.warnings⟩
  -- both parses are the same
  · have hsame : parse source more = parse source fewer := by
      rw [parse, parse, parseTokens_eq, parseTokens_eq, finalState, finalState, heq]
      rfl
    refine ⟨fun _ => hsame, fun htrue => ?_⟩
    rw [hsame]
    rw [isHalted_parse] at htrue
    simp only [errors_parse, warnings_parse]
    obtain ⟨recorded, span, herrors⟩ := (finalState_accounted (lex source) fewer).last htrue
    exact ⟨recorded, _, herrors, rfl, herrors ▸ List.prefix_append .., List.prefix_rfl⟩

/-- A script halts at the first of its two errors when none is allowed. -/
theorem parse_truncates_at_first_error :
    (parse "x = )\ny = )\n" 0).isHalted = true ∧
    (∃ recorded last, (parse "x = )\ny = )\n" 0).errors = recorded ++ [last] ∧
      last.problem.code = .parseTimeout ∧
      recorded <+: (parse "x = )\ny = )\n" 10).errors ∧
      (parse "x = )\ny = )\n" 0).warnings <+: (parse "x = )\ny = )\n" 10).warnings) :=
  have hhalted : (parse "x = )\ny = )\n" 0).isHalted = true := by decide +kernel
  ⟨hhalted, (parse_truncates "x = )\ny = )\n" (Nat.zero_le 10)).2 hhalted⟩

end PineCheck
