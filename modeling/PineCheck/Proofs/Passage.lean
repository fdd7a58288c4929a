import PineCheck.Proofs.Expressions
import PineCheck.Proofs.Nesting

/-!
# PineCheck — how a parse without errors goes over its tokens

A parse that meets no error takes every token for one of a few reasons, whichever of
its functions takes it. `Passes s depth calls s' depth'` tells such a stretch of a
parse, with the calls that it lists and with a count of open brackets. Every function
counts brackets for itself, and drops what it has counted when it ends; so the count
of a stretch may be lower than that of the brackets in it (`Passes.forget`).

What is between square brackets behind an operand is skipped without a look
(`Passes.brackets`), and this is the only stretch of which nothing more is said.

* `AllPlain.passes` — a parse may take any tokens that do not start calls.
* `passing_steps` — the functions that read expressions and calls pass.
-/

namespace PineCheck.Parser

-- ---------------------------------------------------------------------------
-- Parses without errors
-- ---------------------------------------------------------------------------

/-- A parse that has met no error. -/
def State.Clean (s : State) : Prop :=
  s.errors = [] ∧ s.isHalted = false

/-- A parse without errors had none before. -/
theorem Reaches.clean {s s' : State} (h : Reaches s s') (hs' : s'.Clean) : s.Clean := by
  refine ⟨?_, ?_⟩
  · have hprefix := h.grows.1
    rw [hs'.1] at hprefix
    exact List.prefix_nil.mp hprefix
  · by_contra hhalted
    have hhalted' := (h.halted (Bool.not_eq_false _ ▸ hhalted)).1
    rw [hs'.2] at hhalted'
    cases hhalted'

/-- An error that is recorded, or that is not because the parse has halted. -/
theorem not_clean_record {s : State} {problem : ParseProblem}
    (h : problem.severity ≠ .warning) : ¬ (s.record problem).Clean := by
  rintro ⟨herrors, hhalted⟩
  revert herrors hhalted
  fun_cases State.record s problem with
  | case1 hs =>
    intro _ hhalted
    rw [hs] at hhalted
    cases hhalted
  | case2 _ hwarning => exact absurd hwarning h
  | case3 =>
    intro _ hhalted
    cases hhalted
  | case4 =>
    intro herrors
    exact absurd herrors (List.append_ne_nil_of_right_ne_nil _ (List.cons_ne_nil _ _))

/-- A parse that records an error does not end clean. -/
theorem not_clean_of_record {s s' : State} {problem : ParseProblem}
    (h : Reaches (s.record problem) s') (hseverity : problem.severity ≠ .warning) :
    ¬ s'.Clean :=
  fun hs' => not_clean_record hseverity (h.clean hs')

-- ---------------------------------------------------------------------------
-- Stretches of a parse
-- ---------------------------------------------------------------------------

/-- Whether a token opens a bracket of either kind. -/
def isOpening : Token → Bool
  | .punctuation .parenLeft | .punctuation .bracketLeft => true
  | _ => false

/-- Whether a token closes a bracket of either kind. -/
def isClosing : Token → Bool
  | .punctuation .parenRight | .punctuation .bracketRight => true
  | _ => false

/-- A token is plain where it stands: it is no bracket, the tokens go on behind it, and
it does not start a call. -/
structure Plain (placed : Placed) (rest : Queue) : Prop where
  opening : isOpening placed.token = false
  closing : isClosing placed.token = false
  end_ : placed.token ≠ .endOfFile
  call : isCallAhead (placed :: rest) = false

/-- A stretch of a parse without errors from `s` to `s'`, the calls that it lists, and
the brackets that are counted as open before it and behind it. -/
inductive Passes : State → Nat → List Call → State → Nat → Prop
  | refl (s : State) (depth : Nat) : Passes s depth [] s depth
  | trans {s s' s'' : State} {depth depth' depth'' : Nat} {calls later : List Call}
      (first : Passes s depth calls s' depth') (next : Passes s' depth' later s'' depth'') :
      Passes s depth (calls ++ later) s'' depth''
  | plain {s : State} {placed : Placed} {rest : Queue} (queue : s.queue = placed :: rest)
      (plain : Plain placed rest) (depth : Nat) : Passes s depth [] (s.pop 1) depth
  | opening {s : State} {token : Token} (front : s.front? = some token)
      (opens : isOpening token = true) (depth : Nat) : Passes s depth [] (s.pop 1) (depth + 1)
  | closing {s : State} {token : Token} (front : s.front? = some token)
      (closes : isClosing token = true) (depth : Nat) : Passes s (depth + 1) [] (s.pop 1) depth
  | forget (s : State) {depth depth' : Nat} (le : depth' ≤ depth) : Passes s depth [] s depth'
  | brackets {s : State} (front : s.front? = some (.punctuation .bracketLeft)) (depth : Nat) :
      Passes s depth [] s.skipBrackets depth
  | call {s : State} {inner : List Call} (ahead : isCallAhead s.queue = true)
      (clean : (Parsers.full.call s).2.2.Clean)
      (inside : Passes s.openCall 1 inner (Parsers.full.call s).2.2 0) (depth : Nat) :
      Passes s depth ((Parsers.full.call s).1 :: (Parsers.full.call s).2.1)
        (Parsers.full.call s).2.2 depth
  | aside {s s' : State} (queue : s'.queue = s.queue) (last : s'.last = s.last) (depth : Nat) :
      Passes s depth [] s' depth

namespace Passes

variable {s s' s'' : State} {depth depth' depth'' : Nat} {calls : List Call}

/-- A stretch without calls before another one. -/
theorem after (h : Passes s depth [] s' depth') (h' : Passes s' depth' calls s'' depth'') :
    Passes s depth calls s'' depth'' :=
  h.trans h'

/-- A stretch without calls behind another one. -/
theorem before (h : Passes s depth calls s' depth') (h' : Passes s' depth' [] s'' depth'') :
    Passes s depth calls s'' depth'' := by
  have hboth := h.trans h'
  rwa [List.append_nil] at hboth

/-- An index behind an operand is skipped. -/
theorem skipIndex (s : State) (depth : Nat) : Passes s depth [] s.skipIndex depth := by
  unfold State.skipIndex
  split
  · next hfront => exact .brackets hfront depth
  · exact .refl s depth

end Passes

-- ---------------------------------------------------------------------------
-- Plain tokens
-- ---------------------------------------------------------------------------

/-- All tokens of a stretch are plain where they stand. -/
def AllPlain : Queue → Queue → Prop
  | [], _ => True
  | placed :: taken, rest => Plain placed (taken ++ rest) ∧ AllPlain taken rest

/-- Two plain stretches are plain together. -/
theorem AllPlain.append {a b rest : Queue} (ha : AllPlain a (b ++ rest)) (hb : AllPlain b rest) :
    AllPlain (a ++ b) rest := by
  induction a with
  | nil => exact hb
  | cons placed a ih =>
    obtain ⟨hplaced, ha⟩ := ha
    rw [← List.append_assoc] at hplaced
    exact ⟨hplaced, ih ha⟩

/-- A parse may take plain tokens. -/
theorem AllPlain.passes {taken rest : Queue} {s : State} (h : AllPlain taken rest)
    (hq : s.queue = taken ++ rest) (depth : Nat) :
    Passes s depth [] (s.pop taken.length) depth := by
  induction taken generalizing s with
  | nil => exact .refl s depth
  | cons placed taken ih =>
    have hqueue : (s.pop 1).queue = taken ++ rest := by
      rw [State.pop, hq]
      rfl
    have hrest := ih h.2 hqueue
    rw [State.pop_pop, Nat.add_comm] at hrest
    exact (Passes.plain hq h.1 depth).after hrest

/-- Whether a token is no word, no bracket and not the end. -/
def isInert : Token → Bool
  | .identifier _ | .endOfFile => false
  | .punctuation .parenLeft | .punctuation .parenRight => false
  | .punctuation .bracketLeft | .punctuation .bracketRight => false
  | _ => true

/-- An inert token is plain wherever it stands. -/
theorem plain_of_isInert {placed : Placed} (h : isInert placed.token = true) (rest : Queue) :
    Plain placed rest := by
  obtain ⟨token, span⟩ := placed
  have hname : name (⟨token, span⟩ :: rest) = ([], ⟨token, span⟩ :: rest) := by
    cases token with
    | identifier text => cases h
    | _ => rfl
  have hbracket : isOpening token = false ∧ isClosing token = false := by
    cases token with
    | punctuation mark => cases mark <;> first | exact ⟨rfl, rfl⟩ | cases h
    | _ => exact ⟨rfl, rfl⟩
  refine ⟨hbracket.1, hbracket.2, ?_, ?_⟩
  · rintro rfl
    cases h
  · unfold isCallAhead
    rw [hname]

/-- Layout is inert. -/
theorem isInert_of_isLayout {token : Token} (h : isLayout token = true) :
    isInert token = true := by
  revert h
  fun_cases isLayout token with
  | case1 => exact fun _ => rfl
  | case2 => exact fun _ => rfl
  | case3 => exact fun _ => rfl
  | case4 => exact nofun

/-- Whether a name is the name of a call is told behind it. -/
theorem isCallAhead_cons {placed : Placed} {text : String}
    (h : placed.token = .identifier text) (rest : Queue) :
    isCallAhead (placed :: rest) =
      startsWith (generics (nameTail rest).2).2 (.punctuation .parenLeft) := by
  simp only [isCallAhead, name, h]

/-- A word that starts no call is plain. -/
theorem plain_word {placed : Placed} {text : String} (h : placed.token = .identifier text)
    {rest : Queue}
    (hcall : startsWith (generics (nameTail rest).2).2 (.punctuation .parenLeft) = false) :
    Plain placed rest := by
  refine ⟨?_, ?_, ?_, ?_⟩
  · rw [h]
    rfl
  · rw [h]
    rfl
  · rw [h]
    nofun
  · rw [isCallAhead_cons h, hcall]

/-- The rest of a dotted name is plain if no call starts with the name. -/
theorem allPlain_nameTail {q : Queue}
    (hcall : startsWith (generics (nameTail q).2).2 (.punctuation .parenLeft) = false) :
    AllPlain (nameTail q).1 (nameTail q).2 := by
  fun_induction nameTail q with
  | case1 dot word rest text hword hdot taken rest' heq ih =>
    rw [heq] at ih
    have happend := nameTail_append rest
    rw [heq] at happend
    refine ⟨plain_of_isInert (by rw [hdot]; rfl) _, plain_word hword ?_, ih hcall⟩
    rw [show taken ++ rest' = rest from happend, heq]
    exact hcall
  | case2 => trivial
  | case3 => trivial

/-- The words of a name are plain, unless it is the name of a call. -/
theorem allPlain_name {q : Queue} (h : isCallAhead q = false) :
    AllPlain (name q).1 (name q).2 := by
  fun_cases name q with
  | case1 => trivial
  | case2 word rest text hword taken rest' heq =>
    rw [isCallAhead_cons hword] at h
    have htail := allPlain_nameTail h
    have happend := nameTail_append rest
    rw [heq] at htail happend h
    refine ⟨plain_word hword ?_, htail⟩
    rw [show taken ++ rest' = rest from happend, heq]
    exact h
  | case3 => trivial

/-- Type arguments start with `<`. -/
theorem generics_cons {placed : Placed} (h : placed.token ≠ .operator .less) (rest : Queue) :
    generics (placed :: rest) = ([], placed :: rest) := by
  rw [generics, if_neg h]

/-- A name before a token that is none of those of a call is not the name of one. -/
theorem not_call_before {placed : Placed} (hdot : placed.token ≠ .punctuation .dot)
    (hless : placed.token ≠ .operator .less) (hparen : placed.token ≠ .punctuation .parenLeft)
    (rest : Queue) :
    startsWith (generics (nameTail (placed :: rest)).2).2 (.punctuation .parenLeft) = false := by
  have htail : nameTail (placed :: rest) = ([], placed :: rest) := by
    unfold nameTail
    split
    · next heq =>
      cases heq
      split
      · contradiction
      · rfl
    · rfl
  rw [htail, generics_cons hless, startsWith, List.head?_cons, Option.any_some]
  exact decide_eq_false hparen

/-- No parenthesis stands where type arguments go on. -/
theorem not_call_of_genericTail? {q : Queue} (h : (genericTail? q).isSome = true) :
    startsWith (generics q).2 (.punctuation .parenLeft) = false := by
  revert h
  fun_cases genericTail? q with
  | case1
  | case6 =>
    intro h
    cases h
  | case2 placed rest hplaced
  | case3 placed rest _ hplaced
  | case4 placed rest hplaced
  | case5 placed rest hplaced =>
    intro _
    have hless : placed.token ≠ .operator .less := by simp [hplaced]
    rw [generics_cons hless, startsWith, List.head?_cons, Option.any_some, hplaced]
    rfl

/-- Names inside type arguments are not names of calls. -/
theorem not_call_in_generics {q taken rest : Queue} (h : genericTail? q = some (taken, rest)) :
    startsWith (generics (nameTail q).2).2 (.punctuation .parenLeft) = false := by
  fun_induction nameTail q generalizing taken with
  | case1 dot word rest' text hword hdot taken' rest'' heq ih =>
    rw [genericTail?, hdot] at h
    obtain ⟨⟨inner, _⟩, hinner, hpair⟩ := Option.map_eq_some_iff.mp h
    rw [genericTail?, hword] at hinner
    obtain ⟨⟨inner', _⟩, hinner', hpair'⟩ := Option.map_eq_some_iff.mp hinner
    cases hpair
    cases hpair'
    rw [heq] at ih
    exact ih hinner'
  | case2 => exact not_call_of_genericTail? (by rw [h]; rfl)
  | case3 => exact not_call_of_genericTail? (by rw [h]; rfl)

/-- A list of type arguments is plain: no call starts inside it. -/
theorem allPlain_genericTail? {q taken rest : Queue} (h : genericTail? q = some (taken, rest)) :
    AllPlain taken rest := by
  fun_induction genericTail? q generalizing taken with
  | case1 => cases h
  | case2 placed q hplaced =>
    cases h
    exact ⟨plain_of_isInert (by rw [hplaced]; rfl) _, trivial⟩
  | case3 placed q text hplaced ih =>
    obtain ⟨⟨inner, _⟩, hinner, hpair⟩ := Option.map_eq_some_iff.mp h
    cases hpair
    refine ⟨plain_word hplaced ?_, ih hinner⟩
    rw [genericTail?_append hinner]
    exact not_call_in_generics hinner
  | case4 placed q hplaced ih
  | case5 placed q hplaced ih =>
    obtain ⟨⟨inner, _⟩, hinner, hpair⟩ := Option.map_eq_some_iff.mp h
    cases hpair
    exact ⟨plain_of_isInert (by rw [hplaced]; rfl) _, ih hinner⟩
  | case6 => cases h

/-- Type arguments are plain. -/
theorem allPlain_generics (q : Queue) : AllPlain (generics q).1 (generics q).2 := by
  fun_cases generics q with
  | case1 => trivial
  | case2 placed rest hless taken rest' h =>
    exact ⟨plain_of_isInert (by rw [hless]; rfl) _, allPlain_genericTail? h⟩
  | case3 => trivial
  | case4 => trivial

/-- Marks of layout are plain. -/
theorem allPlain_layout (q : Queue) :
    AllPlain (q.takeWhile fun placed => isLayout placed.token)
      (q.dropWhile fun placed => isLayout placed.token) := by
  induction q with
  | nil => trivial
  | cons placed rest ih =>
    by_cases h : isLayout placed.token = true
    · rw [List.takeWhile_cons, List.dropWhile_cons, if_pos h, if_pos h]
      exact ⟨plain_of_isInert (isInert_of_isLayout h) _, ih⟩
    · rw [List.takeWhile_cons, if_neg h]
      trivial

theorem Passes.skipLayout (s : State) (depth : Nat) : Passes s depth [] s.skipLayout depth :=
  (allPlain_layout s.queue).passes List.takeWhile_append_dropWhile.symm depth

-- ---------------------------------------------------------------------------
-- Expressions and calls
-- ---------------------------------------------------------------------------

/-- The call that a value is. -/
def outerCalls : Value → List Call
  | .call call => [call]
  | _ => []

/-- An operand that is read without an error is passed, and the calls that are listed
are the operand itself and those that were met beside it. -/
def PassesOperand (s : State) (r : Option (Value × Bool) × List Call × State) : Prop :=
  ∀ value isCompound, r.1 = some (value, isCompound) → r.2.2.Clean →
    ∀ depth, Passes s depth (outerCalls value ++ r.2.1) r.2.2 depth

/-- The functions that read expressions and calls pass, if they meet no error. -/
def passing : Contract where
  primary s := PassesOperand s (Parsers.full.primary s)
  expression setting s := PassesOperand s (Parsers.full.expression setting s)
  tail setting depth consumed s :=
    (Parsers.full.tail setting depth consumed s).2.2.Clean → ∀ outer,
      Passes s (outer + depth) (Parsers.full.tail setting depth consumed s).2.1
        (Parsers.full.tail setting depth consumed s).2.2 outer
  call s :=
    (Parsers.full.call s).2.2.Clean → ∀ depth,
      Passes s depth ((Parsers.full.call s).1 :: (Parsers.full.call s).2.1)
        (Parsers.full.call s).2.2 depth
  arguments hasNamed afterComma position s :=
    (Parsers.full.arguments hasNamed afterComma position s).2.2.Clean →
      ∃ inner, Passes s 1 inner (Parsers.full.arguments hasNamed afterComma position s).2.2 0

theorem isInert_of_literalOf? {token : Token} {kind : LiteralKind} {raw : String}
    (h : literalOf? token = some (kind, raw)) : isInert token = true := by
  cases token <;> first | rfl | cases h

/-- A sign is inert. -/
theorem isInert_of_isUnary {token : Token} (h : isUnary token = true) :
    isInert token = true := by
  revert h
  fun_cases isUnary token with
  | case4 => exact nofun
  | _ => exact fun _ => rfl

/-- An inert token is passed over. -/
theorem passes_inert {s : State} {token : Token} (hfront : s.front? = some token)
    (h : isInert token = true) (depth : Nat) : Passes s depth [] (s.pop 1) depth := by
  obtain ⟨front, rest, hq, rfl⟩ := exists_queue_of_front? hfront
  exact .plain hq (plain_of_isInert h rest) depth

/-- A word that does not start a call is taken. -/
theorem passes_word {s : State} {word : String} (hfront : s.front? = some (.identifier word))
    (hahead : ¬ isCallAhead s.queue = true) (depth : Nat) :
    Passes s depth [] (s.pop 1) depth := by
  obtain ⟨front, rest, hq, hword⟩ := exists_queue_of_front? hfront
  rw [hq, Bool.not_eq_true, isCallAhead_cons hword] at hahead
  exact .plain hq (plain_word hword hahead) depth

/-- Entering a level passes over nothing. -/
theorem passes_enter {s s' : State} (h : s.enter = (true, s')) (depth : Nat) :
    Passes s depth [] s' depth := by
  obtain ⟨-, rfl⟩ := State.enter_eq_true h
  exact .aside (by rfl) (by rfl) depth

/-- A parse that cannot enter a level does not end clean. -/
theorem not_clean_enter {s s' : State} (h : s.enter = (false, s')) : ¬ s'.Clean := by
  obtain ⟨-, rfl⟩ := State.enter_eq_false h
  exact not_clean_record (by decide)

/-- A parenthesis that is left without an error is closed. -/
theorem passes_close {s : State} (h : s.close.Clean) (depth : Nat) :
    Passes s (depth + 1) [] s.close depth := by
  have hs := (Reaches.leave _).clean h
  unfold State.close
  split at hs
  · next hfront =>
    rw [if_pos hfront]
    exact (Passes.closing hfront rfl depth).after (.aside (by rfl) (by rfl) depth)
  · exact absurd hs (not_clean_record (by decide))

/-- What a parenthesised expression reads is passed with both parentheses. -/
theorem closed_passes {s s' : State} {r : Option (Value × Bool) × List Call × State}
    (hto : ∀ depth, Passes s depth [] s' (depth + 1)) (h : PassesOperand s' r) :
    PassesOperand s (closed r) := by
  obtain ⟨operand, calls, s''⟩ := r
  intro value isCompound hvalue hclean depth
  cases operand with
  | none => cases hvalue
  | some operand =>
    cases hvalue
    have hclosed := (Reaches.skipIndex _).clean hclean
    have hinner := h value isCompound rfl ((Reaches.close s'').clean hclosed) (depth + 1)
    have hopen := ((hto depth).after hinner).before (passes_close hclosed depth)
    exact hopen.before (.skipIndex _ depth)

/-- What an operand behind a sign reads is passed with the sign. -/
theorem signed_passes {s s' : State} {r : Option (Value × Bool) × List Call × State}
    (hto : ∀ depth, Passes s depth [] s' depth) (h : PassesOperand s' r) :
    PassesOperand s (signed r) := by
  obtain ⟨operand, calls, s''⟩ := r
  intro value isCompound hvalue hclean depth
  cases operand with
  | none => cases hvalue
  | some operand =>
    cases hvalue
    have hinner := h operand.1 operand.2 rfl ((Reaches.skipIndex s'').clean hclean) depth
    exact ((hto depth).after hinner).before (.skipIndex s'' depth)

/-- What an operand reads without an error is passed. -/
theorem passing_primary (s : State) (hcall : isCallAhead s.queue = true → passing.call s)
    (hprimary : ∀ t, t.queue.length < s.queue.length → passing.primary t)
    (hexpression : ∀ t, t.queue.length < s.queue.length → passing.expression .arguments t) :
    passing.primary s := by
  show PassesOperand s _
  rw [Parsers.full_primary]
  fun_cases Parsers.nextPrimary Parsers.full s with
  | case1 => rintro _ _ ⟨⟩
  -- a literal
  | case2 front rest hq kind raw hlit =>
    rintro _ _ ⟨⟩ _ depth
    exact (passes_inert (s.front?_of_queue hq) (isInert_of_literalOf? hlit) depth).after
      (.skipIndex _ depth)
  -- a call, which is clean itself since what follows it is
  | case3 front rest hq hlit word hword hahead found calls s' heq =>
    rintro _ _ ⟨⟩ hclean depth
    have hpasses : (Parsers.full.call s).2.2.Clean → ∀ depth, _ := hcall hahead
    rw [heq] at hpasses
    exact (hpasses ((Reaches.skipIndex s').clean hclean) depth).before (.skipIndex s' depth)
  -- a dotted name: no call starts at it, nor inside it
  | case4 front rest hq hlit word hword hahead words s' span text value =>
    rintro _ _ ⟨⟩ _ depth
    have hplain := allPlain_name (Bool.eq_false_iff.mpr hahead)
    have houter : outerCalls value = [] := by
      simp only [value]
      split <;> rfl
    rw [houter]
    exact (hplain.passes (name_append s.queue).symm depth).before (.skipIndex s' depth)
  | case5 => rintro _ _ ⟨⟩
  -- an expression in parentheses, one level deeper
  | case6 front rest hq hlit hparen s' henter =>
    have hlt := State.length_lt_of_enter (s.front?_of_queue hq) henter
    have hfront : s'.front? = some (.punctuation .parenLeft) := by
      rw [s'.front?_of_queue ((State.queue_eq_of_enter henter).trans hq), hparen]
    exact closed_passes (fun depth => (passes_enter henter depth).after
      (.opening hfront rfl depth)) (hexpression _ hlt)
  -- an array literal, which is passed as a bracket
  | case7 front rest hq hlit hbracket s' =>
    rintro _ _ ⟨⟩ _ depth
    have hfront : s.front? = some (.punctuation .bracketLeft) := by
      rw [s.front?_of_queue hq, hbracket]
    exact (Passes.brackets hfront depth).after (.skipIndex s' depth)
  | case8 front rest hq _ _ _ _ hunary =>
    have hlt := (Reaches.refl (s.pop 1)).length_lt_of_pop (s.front?_of_queue hq) Nat.one_pos
    exact signed_passes (passes_inert (s.front?_of_queue hq) (isInert_of_isUnary hunary))
      (hprimary _ hlt)
  | case9 => rintro _ _ ⟨⟩

/-- What an expression reads without an error is passed. -/
theorem passing_expression (setting : Setting) (s : State) (hprimary : passing.primary s)
    (htail : ∀ t, t.queue.length ≤ s.queue.length → passing.tail setting 0 false t) :
    passing.expression setting s := by
  have hoperand : PassesOperand s _ := hprimary
  show PassesOperand s _
  rw [Parsers.full_expression, Parsers.nextExpression]
  have hle := (Parsers.full_moves.primary s).length_le
  generalize Parsers.full.primary s = r at hoperand hle ⊢
  obtain ⟨operand, calls, s₁⟩ := r
  cases operand with
  | none => rintro _ _ ⟨⟩
  | some operand =>
    rintro value isCompound ⟨⟩ hclean depth
    have hto := Parsers.full_moves.tail setting 0 false s₁
    have hfirst := hoperand operand.1 operand.2 rfl (hto.clean hclean) depth
    have hrest := htail s₁ hle hclean depth
    exact List.append_assoc .. ▸ hfirst.trans hrest

/-- What the tail of an expression reads without an error is passed, with the parentheses it counts.
-/
theorem passing_tail (setting : Setting) (depth : Nat) (consumed : Bool) (s : State)
    (hcall : isCallAhead s.queue = true → passing.call s)
    (htail : ∀ depth consumed t, t.queue.length < s.queue.length →
      passing.tail setting depth consumed t) : passing.tail setting depth consumed s := by
  show (_ → ∀ outer, Passes s (outer + depth) _ _ outer)
  rw [Parsers.full_tail]
  have hgo {token : Token} {depth' : Nat} {consumed' : Bool} (hfront : s.front? = some token)
      (hstep : ∀ outer, Passes s (outer + depth) [] (s.pop 1) (outer + depth')) :
      (Parsers.full.tail setting depth' consumed' (s.pop 1)).2.2.Clean → ∀ outer,
        Passes s (outer + depth) (Parsers.full.tail setting depth' consumed' (s.pop 1)).2.1
          (Parsers.full.tail setting depth' consumed' (s.pop 1)).2.2 outer := by
    intro hclean outer
    have hlt := (Reaches.refl (s.pop 1)).length_lt_of_pop hfront Nat.one_pos
    exact (hstep outer).after (htail depth' consumed' _ hlt hclean outer)
  fun_cases Parsers.nextTail Parsers.full setting depth consumed s with
  -- a call, and the tail behind it
  | case22 _ word hahead found calls s₁ heq _ later s₂ heq' hfront =>
    intro hclean outer
    have hlt := Parsers.full_call_shortens hahead heq
    have hread : (Parsers.full.call s).2.2.Clean → ∀ depth, _ := hcall hahead
    have hrest : (Parsers.full.tail setting depth true s₁).2.2.Clean → ∀ outer, _ :=
      htail depth true s₁ hlt
    have hto := Parsers.full_moves.tail setting depth true s₁
    rw [heq] at hread
    rw [heq'] at hrest hto
    exact (hread (hto.clean hclean) _).trans (hrest hclean outer)
  -- an opening counts one up
  | case10 _ hfront | case11 _ hfront =>
    exact hgo hfront fun outer => .opening hfront rfl (outer + depth)
  -- a closing counts one down, since something is open
  | case13 _ hdepth hfront | case15 _ hdepth hfront =>
    obtain ⟨depth, rfl⟩ := Nat.exists_eq_succ_of_ne_zero hdepth
    exact hgo hfront fun outer => .closing hfront rfl (outer + depth)
  | case5 _ _ hfront | case7 _ _ hfront | case9 _ _ hfront | case17 _ _ hfront | case19 _ _ hfront
  | case21 _ _ hfront =>
    exact hgo hfront fun outer => passes_inert hfront rfl (outer + depth)
  | case23 _ word hahead hfront =>
    exact hgo hfront fun outer => passes_word hfront hahead (outer + depth)
  | case24 _ token hfront =>
    have hinert : isInert token = true := by
      unfold isInert
      split <;> simp_all
    exact hgo hfront fun outer => passes_inert hfront hinert (outer + depth)
  | _ =>
    -- the other branches stop, and what was counted is forgotten
    exact fun _ outer => .forget s (Nat.le_add_right ..)

/-- What a call reads without an error is passed. -/
theorem passing_call (s : State) (hahead : isCallAhead s.queue = true)
    (harguments : ∀ t, t.queue.length + 2 ≤ s.queue.length →
      passing.arguments false false 0 t) : passing.call s := by
  show (_ → ∀ depth, _)
  intro hclean depth
  -- the arguments end with the parenthesis that the call opened
  have hinside : ∃ inner, Passes s.openCall 1 inner (Parsers.full.call s).2.2 0 := by
    revert hclean
    rw [Parsers.full_call]
    fun_cases Parsers.nextCall Parsers.full s with
    | case1 text inside henter arguments calls behind heq =>
      intro hclean
      have hpasses : (Parsers.full.arguments false false 0 inside).2.2.Clean → _ :=
        harguments inside (length_of_enter_openCall hahead henter)
      rw [heq] at hpasses
      obtain ⟨inner, hinner⟩ := hpasses ((Reaches.leave behind).clean hclean)
      exact ⟨inner, ((passes_enter henter 1).after hinner).before (.aside (by rfl) (by rfl) 0)⟩
    | case2 text inside henter =>
      intro hclean
      exact absurd ((Reaches.skipToClosing inside).clean hclean) (not_clean_enter henter)
  obtain ⟨inner, hinner⟩ := hinside
  exact .call hahead hclean hinner depth

-- ---------------------------------------------------------------------------
-- Argument lists
-- ---------------------------------------------------------------------------

/-- A round of an argument list is passed if it meets no error, and closes the list if
no other round follows. -/
def PassesRound (s : State) (r : Round × State) : Prop :=
  r.2.Clean → ∃ inner, Passes s 1 inner r.2 (if r.1.next.isSome then 1 else 0)

/-- What stands behind an argument. -/
theorem afterArgument_passes {s s' : State} {inner : List Call} (h : Passes s 1 inner s' 1)
    (given : List Argument) (calls : List Call) (hasNamed : Bool) (position : Nat) :
    PassesRound s (afterArgument given calls hasNamed position s') := by
  fun_cases afterArgument given calls hasNamed position s' with
  | case1 => exact fun _ => ⟨inner, h⟩
  | case2 _ s'' hfront =>
    exact fun _ => ⟨inner, (h.before (.skipLayout s' 1)).before (passes_inert hfront rfl 1)⟩
  | case3 | case4 | case5 => exact fun _ => ⟨inner, h.before (.skipLayout s' 1)⟩
  | case6 =>
    intro hclean
    exact absurd hclean (not_clean_of_record (.skipToClosing _) (by decide))

/-- The name of an argument is taken with the sign behind it. -/
theorem passes_argumentName (s : State) (depth : Nat) :
    Passes s depth [] s.argumentName.2 depth := by
  fun_cases State.argumentName s with
  | case1 word op rest hq text hword hop =>
    have hplain : AllPlain [word, op] rest := by
      refine ⟨plain_word hword (not_call_before ?_ ?_ ?_ rest),
        plain_of_isInert (by rw [hop]; rfl) rest, trivial⟩
      all_goals
        rw [hop]
        rintro ⟨⟩
    exact hplain.passes hq depth
  | _ => exact .refl s depth

/-- What an argument reads without an error is passed. -/
theorem argument_passes (hasNamed : Bool) (position : Nat) (s : State)
    (hexpression : ∀ t, t.queue.length ≤ s.queue.length → passing.expression .arguments t) :
    PassesRound s (Parsers.full.argument hasNamed position s) := by
  have hname := passes_argumentName s 1
  have hle := (argumentName_yields s).reaches.length_le
  rw [Parsers.argument]
  dsimp only
  -- an argument without a name behind one with a name is an error
  by_cases hpositional : (s.argumentName.1.isNone && hasNamed) = true
  · rw [if_pos hpositional]
    intro hclean
    have hexpression := Parsers.full_moves.expression .arguments
      (s.argumentName.2.record .positionalAfterNamed)
    exact absurd hclean (not_clean_of_record (hexpression.trans
      ((given_reaches ..).trans (afterArgument_reaches ..))) (by decide))
  rw [if_neg hpositional]
  have hread : PassesOperand s.argumentName.2 _ := hexpression s.argumentName.2 hle
  generalize Parsers.full.expression .arguments s.argumentName.2 = r at hread ⊢
  obtain ⟨operand, calls, s'⟩ := r
  cases operand with
  -- an argument without a value is an error
  | none =>
    intro hclean
    have hskip := Reaches.popIf (s'.record .expectedArgumentValue)
      ((s'.record .expectedArgumentValue).front?.any (!endsArgument ·))
    exact absurd hclean (not_clean_of_record (hskip.trans (afterArgument_reaches ..)) (by decide))
  | some operand =>
    intro hclean
    have hclean' : s'.Clean := (afterArgument_reaches ..).clean hclean
    have hvalue := hread operand.1 operand.2 rfl hclean' 1
    exact afterArgument_passes (hname.after hvalue) _ _ _ _ hclean

/-- What a round of an argument list reads without an error is passed. -/
theorem round_passes (hasNamed afterComma : Bool) (position : Nat) (s : State)
    (hexpression : ∀ t, t.queue.length ≤ s.queue.length → passing.expression .arguments t) :
    PassesRound s (Parsers.full.round hasNamed afterComma position s) := by
  fun_cases Parsers.round Parsers.full hasNamed afterComma position s with
  | case1 hhalted =>
    intro hclean
    exact absurd hclean.2 (by rw [hhalted]; decide)
  | case2 | case3 | case4 => exact fun hclean => absurd hclean (not_clean_record (by decide))
  | case5 _ _ s' hfront s'' =>
    -- a comma before the parenthesis is no error
    intro _
    have hqueue : s''.queue = s'.queue ∧ s''.last = s'.last := by
      unfold s''
      split
      · exact ⟨State.queue_record .., State.last_record ..⟩
      · exact ⟨rfl, rfl⟩
    have hfront' : s''.front? = some (.punctuation .parenRight) := by
      rw [State.front?, hqueue.1]
      exact hfront
    exact ⟨[], ((Passes.skipLayout s 1).after (.aside hqueue.1 hqueue.2 1)).after
      (.closing hfront' rfl 0)⟩
  | case6 =>
    exact fun hclean => absurd hclean (not_clean_of_record (.pop _ 1) (by decide))
  | case7 _ _ s' =>
    intro hclean
    have hle := (Reaches.skipLayout s).length_le
    obtain ⟨inner, hinner⟩ := argument_passes hasNamed position s'
      (fun t ht => hexpression t (ht.trans hle)) hclean
    exact ⟨inner, (Passes.skipLayout s 1).after hinner⟩

/-- What an argument list reads without an error is passed, round by round. -/
theorem passing_arguments (hasNamed afterComma : Bool) (position : Nat) (s : State)
    (hexpression : ∀ t, t.queue.length ≤ s.queue.length → passing.expression .arguments t)
    (hnext : ∀ round t hasNamed' afterComma' position',
      Parsers.full.round hasNamed afterComma position s = (round, t) →
      round.next = some (hasNamed', afterComma', position') →
        passing.arguments hasNamed' afterComma' position' t) :
    passing.arguments hasNamed afterComma position s := by
  have hround := round_passes hasNamed afterComma position s hexpression
  show (_ → ∃ inner, _)
  rw [Parsers.full_arguments, Parsers.nextArguments]
  rcases heq : Parsers.full.round hasNamed afterComma position s with ⟨⟨given, calls, next⟩, t⟩
  rw [heq] at hround
  cases next with
  | none => exact hround
  | some next =>
    obtain ⟨hasNamed', afterComma', position'⟩ := next
    rw [Parsers.goOn_some]
    intro hclean
    -- the rounds behind this one are clean, and so is this one
    obtain ⟨later, hlater⟩ := hnext _ t _ _ _ heq rfl hclean
    obtain ⟨inner, hinner⟩ := hround ((Parsers.full_moves.arguments ..).clean hclean)
    exact ⟨_, hinner.trans hlater⟩

/-- One step of every reader keeps the contract. -/
theorem passing_steps : passing.Steps :=
  ⟨passing_primary, passing_expression, passing_tail, passing_call, passing_arguments⟩

end PineCheck.Parser
