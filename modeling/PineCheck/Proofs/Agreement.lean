import PineCheck.Proofs.Progress

/-!
# PineCheck — two parses side by side

Two parses of the same tokens may go on behind different numbers of errors. They
do the same until the first one halts. From there on the first one records
nothing, and the second one only adds to what both have recorded.

* `Agrees` says that two parses are where they could be if they have read the same
  tokens: in the same state, or one of them cut off.
* The lemmas in its namespace say that each move of the parser keeps this.
-/

namespace PineCheck.Parser

-- ---------------------------------------------------------------------------
-- What moves keep
-- ---------------------------------------------------------------------------

namespace State

@[simp] theorem allowed_record (s : State) (problem : ParseProblem) :
    (s.record problem).allowed = s.allowed := by
  fun_cases State.record s problem <;> rfl

/-- Recording a problem never removes an error that is there already. -/
theorem errors_prefix_record (s : State) (problem : ParseProblem) :
    s.errors <+: (s.record problem).errors := by
  fun_cases State.record s problem with
  | case1 | case2 => exact List.prefix_rfl
  | case3 => exact (List.prefix_append ..).trans (List.prefix_append ..)
  | case4 => exact List.prefix_append ..

/-- Recording a problem never removes a warning that is there already. -/
theorem warnings_prefix_record (s : State) (problem : ParseProblem) :
    s.warnings <+: (s.record problem).warnings := by
  fun_cases State.record s problem with
  | case1 | case3 | case4 => exact List.prefix_rfl
  | case2 => exact List.prefix_append ..

/-- A parse that has halted records nothing. -/
theorem record_of_isHalted {s : State} (h : s.isHalted = true) (problem : ParseProblem) :
    s.record problem = s := by
  rw [State.record, if_pos h]

/-- A parse that runs on appends a warning, whatever is left of its budget. -/
theorem record_warning {s : State} (h : ¬ s.isHalted = true) {problem : ParseProblem}
    (hwarning : problem.severity = .warning) :
    s.record problem = { s with warnings := s.warnings ++ [⟨problem, s.here⟩] } := by
  rw [State.record, if_neg h, if_pos hwarning]

/-- An error that the parse may go on behind. -/
theorem record_error {s : State} (h : ¬ s.isHalted = true) {problem : ParseProblem}
    (hwarning : ¬ problem.severity = .warning) (hlt : s.attempts < s.allowed) :
    s.record problem =
      { s with errors := s.errors ++ [⟨problem, s.here⟩], attempts := s.attempts + 1 } := by
  rw [State.record, if_neg h, if_neg hwarning, if_neg (by omega)]

/-- The error that the parse halts at. -/
theorem record_last {s : State} (h : ¬ s.isHalted = true) {problem : ParseProblem}
    (hwarning : ¬ problem.severity = .warning) (hle : s.allowed ≤ s.attempts) :
    s.record problem =
      { s with
        errors := s.errors ++ [⟨problem, s.here⟩] ++ [⟨.recoveryExhausted s.allowed, s.here⟩]
        attempts := s.attempts + 1
        isHalted := true } := by
  rw [State.record, if_neg h, if_neg hwarning, if_pos (by omega)]

end State

namespace Reaches

variable {s s' : State}

/-- No step of a parse changes how many attempts it is allowed. -/
theorem allowed_eq (h : Reaches s s') : s'.allowed = s.allowed := by
  induction h with
  | refl => rfl
  | tail _ hmove ih =>
    cases hmove with
    | record => rwa [State.allowed_record]
    | pop | deepen | leave => exact ih

/-- A parse only adds to its errors and warnings. -/
theorem grows (h : Reaches s s') : s.errors <+: s'.errors ∧ s.warnings <+: s'.warnings := by
  induction h with
  | refl => exact ⟨List.prefix_rfl, List.prefix_rfl⟩
  | tail _ hmove ih =>
    cases hmove with
    | record =>
      exact ⟨ih.1.trans (State.errors_prefix_record ..),
        ih.2.trans (State.warnings_prefix_record ..)⟩
    | pop | deepen | leave => exact ih

/-- A parse that has halted adds nothing any more. -/
theorem halted (h : Reaches s s') (hs : s.isHalted = true) :
    s'.isHalted = true ∧ s'.errors = s.errors ∧ s'.warnings = s.warnings := by
  induction h with
  | refl => exact ⟨hs, rfl, rfl⟩
  | tail _ hmove ih =>
    cases hmove with
    | record => rwa [State.record_of_isHalted ih.1]
    | pop | deepen | leave => exact ih

end Reaches

-- ---------------------------------------------------------------------------
-- Two states
-- ---------------------------------------------------------------------------

/-- A state that may go on behind another number of errors. -/
def State.withAllowed (s : State) (allowed : Nat) : State :=
  { s with allowed := allowed }

namespace State

variable (s : State) (allowed : Nat)

@[simp] theorem queue_withAllowed : (s.withAllowed allowed).queue = s.queue := rfl

@[simp] theorem isHalted_withAllowed : (s.withAllowed allowed).isHalted = s.isHalted := rfl

@[simp] theorem depth_withAllowed : (s.withAllowed allowed).depth = s.depth := rfl

@[simp] theorem front?_withAllowed : (s.withAllowed allowed).front? = s.front? := rfl

@[simp] theorem here_withAllowed : (s.withAllowed allowed).here = s.here := rfl

@[simp] theorem isInterrupted_withAllowed :
    (s.withAllowed allowed).isInterrupted = s.isInterrupted := rfl

@[simp] theorem pop_withAllowed (n : Nat) :
    (s.withAllowed allowed).pop n = (s.pop n).withAllowed allowed := rfl

@[simp] theorem spanFrom_withAllowed (start : Span) :
    (s.withAllowed allowed).spanFrom start = s.spanFrom start := rfl

@[simp] theorem skipLayout_withAllowed :
    (s.withAllowed allowed).skipLayout = s.skipLayout.withAllowed allowed := rfl

/-- An optional pop does not look at the attempts that are allowed. -/
theorem popIf_withAllowed (c : Bool) (n : Nat) :
    (if c then (s.withAllowed allowed).pop n else s.withAllowed allowed) =
      (if c then s.pop n else s).withAllowed allowed := by
  split <;> rfl

/-- Skipping a definition does not look at the attempts that are allowed. -/
theorem skipDefinition_withAllowed :
    (s.withAllowed allowed).skipDefinition = s.skipDefinition.withAllowed allowed := by
  rw [skipDefinition, skipDefinition, apply_ite (withAllowed · allowed)]
  rfl

/-- Reading the name of an argument does not look at the attempts that are allowed. -/
theorem argumentName_withAllowed : (s.withAllowed allowed).argumentName =
    (s.argumentName.1, s.argumentName.2.withAllowed allowed) := by
  simp only [argumentName, queue_withAllowed, pop_withAllowed]
  split
  · split
    · split <;> rfl
    · rfl
  · rfl

end State

/-- The first of two parses has halted, and what it has recorded up to there has
been recorded by the second one, which may go on behind more errors. -/
structure Cut (a b : Nat) (s t : State) : Prop where
  lt : a < b
  isHalted : s.isHalted = true
  errors : s.errors.dropLast <+: t.errors
  warnings : s.warnings <+: t.warnings

/-- Wherever two parses go behind a cut, the cut stays. -/
theorem Cut.mono {a b : Nat} {s t s' t' : State} (h : Cut a b s t) (hs : Reaches s s')
    (ht : Reaches t t') : Cut a b s' t' := by
  obtain ⟨hhalted, herrors, hwarnings⟩ := hs.halted h.isHalted
  exact ⟨h.lt, hhalted, herrors ▸ h.errors.trans ht.grows.1,
    hwarnings ▸ h.warnings.trans ht.grows.2⟩

/-- Two parses agree: they have read the same and are in the same state, but for
the number of errors that they may go on behind, or the first one is cut off. -/
inductive Agrees (a b : Nat) {α : Type} : α → State → α → State → Prop
  | same (x : α) {s : State} (h : s.allowed = a) : Agrees a b x s x (s.withAllowed b)
  | cut {x x' : α} {s t : State} (h : Cut a b s t) : Agrees a b x s x' t

/-- Two parses agree up to here. -/
abbrev Follows (a b : Nat) (s t : State) : Prop :=
  Agrees a b () s () t

/-- Two functions of the parser agree in all that they return. -/
abbrev AgreesOn (a b : Nat) {α : Type} (r r' : α × State) : Prop :=
  Agrees a b r.1 r.2 r'.1 r'.2

/-- Two functions of the parser agree in all that they return, calls included. -/
abbrev AgreesWithCalls (a b : Nat) {α : Type} (r r' : α × List Call × State) : Prop :=
  Agrees a b (r.1, r.2.1) r.2.2 (r'.1, r'.2.1) r'.2.2

namespace Agrees

variable {a b : Nat} {α : Type} {x x' : α} {s t : State}

/-- A parse agrees with itself. -/
theorem refl (x : α) (h : s.allowed = a) : Agrees a a x s x s := by
  have hs : s.withAllowed a = s := by rw [← h]; rfl
  have hsame := same (b := a) x h
  rwa [hs] at hsame

theorem follows (h : Agrees a b x s x' t) : Follows a b s t := by
  cases h with
  | same h => exact .same () h
  | cut h => exact .cut h

/-- Two parses make the same of what they have read and of where they are. -/
theorem reading {β : Type} (h : Agrees a b x s x' t) (f : α → State → β)
    (hf : ∀ x s, f x (s.withAllowed b) = f x s) : Agrees a b (f x s) s (f x' t) t := by
  cases h with
  | same h =>
    rw [hf]
    exact .same (f x s) h
  | cut h => exact .cut h

theorem payload {β : Type} (h : Agrees a b x s x' t) (f : α → β) :
    Agrees a b (f x) s (f x') t :=
  h.reading (fun x _ => f x) fun _ _ => rfl

/-- Two parses agree on two readings, one behind the other. -/
theorem both {β : Type} {y y' : β} {s₁ t₁ : State} (h : Agrees a b x s x' t)
    (h₁ : Agrees a b y s₁ y' t₁) (hs : Reaches s s₁) (ht : a < b → Reaches t t₁) :
    Agrees a b (x, y) s₁ (x', y') t₁ := by
  cases h with
  | same => exact h₁.payload (x, ·)
  | cut h => exact .cut (h.mono hs (ht h.lt))

/-- Two parses that take the same branch agree if they do in each. -/
theorem ite {r₁ r₁' r₂ r₂' : α × State} {c : Prop} [Decidable c]
    (h₁ : c → AgreesOn a b r₁ r₁') (h₂ : ¬ c → AgreesOn a b r₂ r₂') :
    AgreesOn a b (if c then r₁ else r₂) (if c then r₁' else r₂') := by
  split
  · next h => exact h₁ h
  · next h => exact h₂ h

/-- Two parses that take the same branch agree when they do in each of the two. -/
theorem iteWithCalls {r₁ r₁' r₂ r₂' : α × List Call × State} {c : Prop} [Decidable c]
    (h₁ : c → AgreesWithCalls a b r₁ r₁') (h₂ : ¬ c → AgreesWithCalls a b r₂ r₂') :
    AgreesWithCalls a b (if c then r₁ else r₂) (if c then r₁' else r₂') := by
  split
  · next h => exact h₁ h
  · next h => exact h₂ h

/-- Where two parses agree, the first one is cut off, or the second one is the first with another
number of attempts. -/
theorem cut_or_same {r r' : α × State} (h : AgreesOn a b r r') :
    Cut a b r.2 r'.2 ∨ r.2.allowed = a ∧ r' = (r.1, r.2.withAllowed b) := by
  obtain ⟨x, s⟩ := r
  obtain ⟨x', t⟩ := r'
  cases h with
  | same h => exact .inr ⟨h, rfl⟩
  | cut h => exact .inl h

/-- The same for a result that carries the calls that were read. -/
theorem cut_or_eq {r r' : α × List Call × State} (h : AgreesWithCalls a b r r') :
    Cut a b r.2.2 r'.2.2 ∨ r.2.2.allowed = a ∧ r' = (r.1, r.2.1, r.2.2.withAllowed b) := by
  obtain ⟨x, calls, s⟩ := r
  obtain ⟨x', calls', t⟩ := r'
  cases h with
  | same h => exact .inr ⟨h, rfl⟩
  | cut h => exact .inl h

/-- What two parses do next agrees, if it does from the same state. -/
theorem step {β : Type} {y y' : β} {s₁ t₁ : State} (h : Follows a b s t) (hs : Reaches s s₁)
    (ht : a < b → Reaches t t₁)
    (hsame : s.allowed = a → t = s.withAllowed b → Agrees a b y s₁ y' t₁) :
    Agrees a b y s₁ y' t₁ := by
  cases h with
  | same h => exact hsame h rfl
  | cut h => exact .cut (h.mono hs (ht h.lt))

/-- A move that does not depend on the number of errors allowed. -/
theorem map (h : Agrees a b x s x' t) {f : State → State} (hf : ∀ s, Reaches s (f s))
    (hb : ∀ s, f (s.withAllowed b) = (f s).withAllowed b) :
    Agrees a b x (f s) x' (f t) := by
  cases h with
  | same h =>
    rw [hb]
    exact .same x ((hf _).allowed_eq.trans h)
  | cut h => exact .cut (h.mono (hf _) (hf _))

theorem pop (h : Agrees a b x s x' t) (n : Nat) : Agrees a b x (s.pop n) x' (t.pop n) :=
  h.map (.pop · n) fun _ => rfl

/-- Both parses record a problem. This is where the first one may be cut off. -/
theorem record (hab : a ≤ b) (h : Agrees a b x s x' t) {problem : ParseProblem}
    (hproblem : problem.code ≠ .lexicalError ∧ problem.code ≠ .parseTimeout) :
    Agrees a b x (s.record problem) x' (t.record problem) := by
  cases h with
  | cut h => exact .cut (h.mono (.record _ hproblem) (.record _ hproblem))
  | same hs =>
    rcases Nat.eq_or_lt_of_le hab with rfl | hlt
    -- with equal budgets the two states are one
    · have hsame : s.withAllowed a = s := by rw [← hs]; rfl
      rw [hsame]
      exact .refl x (by rw [State.allowed_record, hs])
    -- behind the halt nothing is recorded on either side
    by_cases hhalted : s.isHalted = true
    · rw [State.record_of_isHalted hhalted, State.record_of_isHalted (s := s.withAllowed b) hhalted]
      exact .same x hs
    -- a warning is counted by neither budget
    by_cases hwarning : problem.severity = .warning
    · rw [State.record_warning hhalted hwarning,
        State.record_warning (s := s.withAllowed b) hhalted hwarning]
      exact .same x hs
    -- an error within the first budget is within the second one too
    by_cases ha : s.attempts < a
    · rw [State.record_error hhalted hwarning (by omega),
        State.record_error (s := s.withAllowed b) hhalted hwarning (Nat.lt_of_lt_of_le ha hab)]
      exact .same x hs
    -- the first parse halts, and the second one records the same error at least
    refine .cut ⟨hlt, ?_, ?_, ?_⟩
    · rw [State.record_last hhalted hwarning (by omega)]
    · have hfirst : (s.record problem).errors.dropLast = s.errors ++ [⟨problem, s.here⟩] := by
        rw [State.record_last hhalted hwarning (by omega)]
        exact List.dropLast_concat
      rw [hfirst]
      by_cases hb : s.attempts < b
      · rw [State.record_error (s := s.withAllowed b) hhalted hwarning hb]
        exact List.prefix_rfl
      · rw [State.record_last (s := s.withAllowed b) hhalted hwarning (Nat.not_lt.mp hb)]
        exact List.prefix_append ..
    · rw [State.record_last hhalted hwarning (by omega)]
      exact State.warnings_prefix_record (s.withAllowed b) problem

/-- Both parses record a problem under the same condition. -/
theorem recordIf (hab : a ≤ b) (h : Agrees a b x s x' t) (c : Bool) {problem : ParseProblem}
    (hproblem : problem.code ≠ .lexicalError ∧ problem.code ≠ .parseTimeout) :
    Agrees a b x (if c then s.record problem else s) x' (if c then t.record problem else t) := by
  split
  · exact h.record hab hproblem
  · exact h

theorem leave (h : Agrees a b x s x' t) : Agrees a b x s.leave x' t.leave :=
  h.map .leave fun _ => rfl

theorem skipToClosing (h : Agrees a b x s x' t) :
    Agrees a b x s.skipToClosing x' t.skipToClosing :=
  h.map .skipToClosing fun _ => rfl

theorem skipLine (h : Agrees a b x s x' t) : Agrees a b x s.skipLine x' t.skipLine :=
  h.map .skipLine fun _ => rfl

/-- Both parses skip an index behind an operand. -/
theorem skipIndex (h : Agrees a b x s x' t) : Agrees a b x s.skipIndex x' t.skipIndex := by
  refine h.map .skipIndex fun s => ?_
  by_cases hfront : s.front? = some (.punctuation .bracketLeft)
  · simp only [State.skipIndex, State.front?_withAllowed, hfront, ↓reduceIte]
    rfl
  · simp only [State.skipIndex, State.front?_withAllowed, hfront, ↓reduceIte]

/-- Both parses expect a closing parenthesis, and record its absence alike. -/
theorem close (hab : a ≤ b) (h : Agrees a b x s x' t) : Agrees a b x s.close x' t.close := by
  cases h with
  | cut h => exact .cut (h.mono (.close s) (.close t))
  | same hs =>
    refine leave ?_
    by_cases hclosed : s.front? = some (.punctuation .parenRight)
    · simp only [State.front?_withAllowed, hclosed, ↓reduceIte]
      exact pop (.same x hs) 1
    · simp only [State.front?_withAllowed, hclosed, ↓reduceIte]
      exact record hab (.same x hs) (by decide)

end Agrees

end PineCheck.Parser
