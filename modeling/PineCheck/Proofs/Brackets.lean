import Mathlib.Data.List.Infix
import PineCheck.Proofs.Statements

/-!
# PineCheck — brackets

Brackets of a script are **matched** when every closing one stands behind an opening
one of its kind that is still open, and none is open at the end. The parser does not
tell all scripts in which they are not: it counts brackets without a look at their
kind, it forgets at the end of a line what it has counted, and it skips what is
between square brackets behind an operand.

What it does tell is a closing bracket too many, as long as that does not stand in
brackets that are skipped.

* `Passes.covered` — over every stretch that a parse passes, at most as many brackets
  close as are open.
* `parse_reports_surplus` — a script in which more brackets close than open has an
  error.
* `parse_keeps_silent` — a script in which a parenthesis is left open may have none.
-/

namespace PineCheck.Parser

-- ---------------------------------------------------------------------------
-- Matched brackets
-- ---------------------------------------------------------------------------

/-- The closing brackets that are still expected behind tokens, the next one first, or
none if another one stands where it is expected. -/
def expectedBehind : List Token → Queue → Option (List Token)
  | expected, [] => some expected
  | expected, placed :: rest =>
    match placed.token with
    | .punctuation .parenLeft => expectedBehind (.punctuation .parenRight :: expected) rest
    | .punctuation .bracketLeft => expectedBehind (.punctuation .bracketRight :: expected) rest
    | .punctuation .parenRight | .punctuation .bracketRight =>
      match expected with
      | next :: expected => if placed.token = next then expectedBehind expected rest else none
      | [] => none
    | _ => expectedBehind expected rest

/-- The brackets of a queue are nested and closed, each by one of its kind. -/
def Matched (q : Queue) : Prop :=
  expectedBehind [] q = some []

instance (q : Queue) : Decidable (Matched q) :=
  inferInstanceAs (Decidable (_ = _))

/-- The number of opening brackets in a queue. -/
def openings (q : Queue) : Nat :=
  q.countP fun placed => isOpening placed.token

/-- The number of closing brackets in a queue. -/
def closings (q : Queue) : Nat :=
  q.countP fun placed => isClosing placed.token

/-- From `depth` open brackets on, the closing brackets of a queue find one that is
open, and at least `depth'` are open behind them. -/
structure Covered (depth : Nat) (q : Queue) (depth' : Nat) : Prop where
  within : ∀ taken, taken <+: q → closings taken ≤ depth + openings taken
  behind : depth' + closings q ≤ depth + openings q

/-- No bracket closes where none is open. -/
def NoSurplus (q : Queue) : Prop :=
  ∀ taken, taken <+: q → closings taken ≤ openings taken

instance (q : Queue) : Decidable (NoSurplus q) :=
  decidable_of_iff (∀ taken ∈ q.inits, closings taken ≤ openings taken) (by
    simp only [NoSurplus, List.mem_inits])

namespace Covered

variable {depth depth' depth'' : Nat} {a b : Queue}

theorem nil (h : depth' ≤ depth) : Covered depth [] depth' := by
  refine ⟨fun taken htaken => ?_, h⟩
  rw [List.prefix_nil.mp htaken]
  exact Nat.zero_le _

/-- One stretch of tokens behind another. -/
theorem append (ha : Covered depth a depth') (hb : Covered depth' b depth'') :
    Covered depth (a ++ b) depth'' := by
  have hopenings (p q : Queue) : openings (p ++ q) = openings p + openings q :=
    List.countP_append
  have hclosings (p q : Queue) : closings (p ++ q) = closings p + closings q :=
    List.countP_append
  have hbehind := ha.behind
  refine ⟨fun taken htaken => ?_, ?_⟩
  · rcases List.prefix_or_prefix_of_prefix htaken (List.prefix_append a b) with hp | ⟨inside, rfl⟩
    · exact ha.within taken hp
    · have hinside := hb.within inside ((List.prefix_append_right_inj a).mp htaken)
      rw [hopenings, hclosings]
      omega
  · have hbehind' := hb.behind
    rw [hopenings, hclosings]
    omega

/-- An opening bracket leads one level up. -/
theorem opening {placed : Placed} (h : isOpening placed.token = true) (depth : Nat) :
    Covered depth [placed] (depth + 1) := by
  have hclosing : isClosing placed.token = false := by
    revert h
    fun_cases isOpening placed.token with
    | case3 => exact nofun
    | _ => exact fun _ => rfl
  have hcount : closings [placed] = 0 ∧ openings [placed] = 1 := by
    simp [closings, openings, h, hclosing]
  refine ⟨fun taken htaken => ?_, by omega⟩
  have hle : closings taken ≤ closings [placed] := htaken.sublist.countP_le
  omega

/-- A closing bracket leads one level down. -/
theorem closing {placed : Placed} (h : isClosing placed.token = true) (depth : Nat) :
    Covered (depth + 1) [placed] depth := by
  have hcount : closings [placed] = 1 := by
    simp [closings, h]
  refine ⟨fun taken htaken => ?_, by omega⟩
  have hle : closings taken ≤ closings [placed] := htaken.sublist.countP_le
  omega

/-- With more brackets open before, more are open behind. -/
theorem shift (h : Covered depth a depth') (outer : Nat) :
    Covered (outer + depth) a (outer + depth') := by
  have hbehind := h.behind
  refine ⟨fun taken htaken => ?_, by omega⟩
  have hwithin := h.within taken htaken
  omega

end Covered

/-- No token of a queue is a bracket. -/
def Bracketless (q : Queue) : Prop :=
  ∀ placed ∈ q, isOpening placed.token = false ∧ isClosing placed.token = false

theorem Bracketless.nil : Bracketless [] :=
  fun _ hmem => absurd hmem List.not_mem_nil

/-- Tokens that are no brackets keep the depth. -/
theorem Bracketless.covered {q : Queue} (h : Bracketless q) (depth : Nat) :
    Covered depth q depth := by
  have hopenings : openings q = 0 :=
    List.countP_eq_zero.mpr fun placed hp => by rw [(h placed hp).1]; decide
  have hclosings : closings q = 0 :=
    List.countP_eq_zero.mpr fun placed hp => by rw [(h placed hp).2]; decide
  refine ⟨fun taken htaken => ?_, by omega⟩
  have hle : closings taken ≤ closings q := htaken.sublist.countP_le
  omega

theorem Bracketless.append {a b : Queue} (ha : Bracketless a) (hb : Bracketless b) :
    Bracketless (a ++ b) :=
  fun placed hp => (List.mem_append.mp hp).elim (ha placed) (hb placed)

/-- There are no brackets in what is plain. -/
theorem AllPlain.bracketless {taken rest : Queue} (h : AllPlain taken rest) :
    Bracketless taken := by
  induction taken with
  | nil => exact nofun
  | cons placed taken ih =>
    intro other hmem
    rcases List.mem_cons.mp hmem with rfl | hmem
    · exact ⟨h.1.opening, h.1.closing⟩
    · exact ih h.2 other hmem

/-- There are no brackets in the rest of a dotted name. -/
theorem bracketless_nameTail (q : Queue) : Bracketless (nameTail q).1 := by
  fun_induction nameTail q with
  | case1 dot word rest text hword hdot taken rest' heq ih =>
    rw [heq] at ih
    intro placed hmem
    rcases List.mem_cons.mp hmem with rfl | hmem
    · rw [hdot]
      exact ⟨rfl, rfl⟩
    rcases List.mem_cons.mp hmem with rfl | hmem
    · rw [hword]
      exact ⟨rfl, rfl⟩
    · exact ih placed hmem
  | case2 => exact .nil
  | case3 => exact .nil

/-- There are no brackets in a dotted name. -/
theorem bracketless_name (q : Queue) : Bracketless (name q).1 := by
  fun_cases name q with
  | case1 => exact .nil
  | case2 word rest text hword taken rest' heq =>
    have htail := bracketless_nameTail rest
    rw [heq] at htail
    intro placed hmem
    rcases List.mem_cons.mp hmem with rfl | hmem
    · rw [hword]
      exact ⟨rfl, rfl⟩
    · exact htail placed hmem
  | case3 => exact .nil

/-- The head of a call opens one parenthesis. -/
theorem openCall_covered {s : State} (h : isCallAhead s.queue = true) (depth : Nat) :
    ∃ head, s.queue = head ++ s.openCall.queue ∧ Covered depth head (depth + 1) := by
  have happend := name_append s.queue
  have hname := bracketless_name s.queue
  unfold isCallAhead at h
  split at h
  · cases h
  next words rest _ heq =>
  rw [heq] at happend hname
  have hgenerics := generics_append rest
  have hplain := (allPlain_generics rest).bracketless
  rcases hrest : (generics rest).2 with _ | ⟨paren, inside⟩
  · rw [hrest] at h
    cases h
  rw [hrest, startsWith, List.head?_cons, Option.any_some, decide_eq_true_eq] at h
  rw [hrest] at hgenerics
  have hqueue : s.queue = (words ++ (generics rest).1 ++ [paren]) ++ inside := by
    rw [List.append_assoc, List.append_assoc, List.singleton_append, hgenerics]
    exact happend.symm
  have hopen : s.openCall.queue = inside := by
    have hdrop : s.queue.drop words.length = rest := by
      rw [← happend]
      exact List.drop_left
    have hdrop' : ((generics rest).1 ++ paren :: inside).drop (generics rest).1.length =
        paren :: inside := List.drop_left
    show ((s.queue.drop (name s.queue).1.length).drop
      (generics (s.queue.drop (name s.queue).1.length)).1.length).drop 1 = inside
    rw [hgenerics] at hdrop'
    rw [heq, hdrop, hdrop']
    rfl
  refine ⟨words ++ (generics rest).1 ++ [paren], by rw [hopen, hqueue], ?_⟩
  exact ((hname.append hplain).covered depth).append (.opening (by rw [h]; rfl) depth)

-- ---------------------------------------------------------------------------
-- Brackets in a parse
-- ---------------------------------------------------------------------------

/-- What is skipped in square brackets closes nothing that was opened before it. -/
def SkipsNoSurplus (q : Queue) : Prop :=
  ∀ inner, inner <:+ q → startsWith inner (.punctuation .bracketLeft) = true →
    NoSurplus (inner.take (bracketsLength 0 inner))

instance (q : Queue) : Decidable (SkipsNoSurplus q) :=
  decidable_of_iff (∀ inner ∈ q.tails, startsWith inner (.punctuation .bracketLeft) = true →
    NoSurplus (inner.take (bracketsLength 0 inner))) (by simp only [SkipsNoSurplus, List.mem_tails])

/-- A parse passes at most as many closing brackets as are open. -/
theorem Passes.covered {q : Queue} (hq : SkipsNoSurplus q) {s s' : State} {depth depth' : Nat}
    {calls : List Call} (h : Passes s depth calls s' depth') (hs : s.queue <:+ q) :
    ∃ taken, s.queue = taken ++ s'.queue ∧ Covered depth taken depth' := by
  have hpop {s : State} {front : Placed} {rest : Queue} (hqueue : s.queue = front :: rest) :
      s.queue = [front] ++ (s.pop 1).queue := by
    rw [State.pop, hqueue]
    rfl
  induction h with
  | refl s depth => exact ⟨[], rfl, .nil Nat.le.refl⟩
  | trans first next ih ih' =>
    obtain ⟨taken, hqueue, hcovered⟩ := ih hs
    obtain ⟨taken', hqueue', hcovered'⟩ := ih' ((List.suffix_append ..).trans (hqueue ▸ hs))
    refine ⟨taken ++ taken', ?_, hcovered.append hcovered'⟩
    rw [hqueue, hqueue', List.append_assoc]
  | @plain s placed rest hqueue hplain depth =>
    refine ⟨[placed], hpop hqueue, Bracketless.covered ?_ depth⟩
    intro other hmem
    rw [List.mem_singleton.mp hmem]
    exact ⟨hplain.opening, hplain.closing⟩
  | opening hfront hopens depth =>
    obtain ⟨front, rest, hqueue, rfl⟩ := exists_queue_of_front? hfront
    exact ⟨[front], hpop hqueue, .opening hopens depth⟩
  | closing hfront hcloses depth =>
    obtain ⟨front, rest, hqueue, rfl⟩ := exists_queue_of_front? hfront
    exact ⟨[front], hpop hqueue, .closing hcloses depth⟩
  | forget s hle => exact ⟨[], rfl, .nil hle⟩
  | @brackets s hfront depth =>
    have hskipped := hq s.queue hs (startsWith_of_front? hfront)
    refine ⟨_, (List.take_append_drop (bracketsLength 0 s.queue) s.queue).symm, ?_⟩
    refine ⟨fun taken htaken => ?_, ?_⟩
    · exact (hskipped taken htaken).trans (Nat.le_add_left ..)
    · have hle := hskipped _ List.prefix_rfl
      omega
  | @call s inner hahead hclean hinside depth ih =>
    obtain ⟨head, hhead, hcovered⟩ := openCall_covered hahead depth
    obtain ⟨taken, hqueue, hcovered'⟩ := ih ((List.suffix_append ..).trans (hhead ▸ hs))
    refine ⟨head ++ taken, ?_, hcovered.append (hcovered'.shift depth)⟩
    rw [hhead, hqueue, List.append_assoc]
  | aside hqueue hlast depth => exact ⟨[], hqueue.symm, .nil Nat.le.refl⟩

/-- The brackets that are expected are open. -/
theorem covered_of_expectedBehind {expected behind : List Token} {q : Queue}
    (h : expectedBehind expected q = some behind) :
    Covered expected.length q behind.length := by
  fun_induction expectedBehind expected q with
  | case1 expected =>
    cases h
    exact .nil Nat.le.refl
  -- an opening bracket expects the closing one
  | case2 expected placed rest htoken ih | case3 expected placed rest htoken ih =>
    exact (Covered.opening (by rw [htoken]; rfl) expected.length).append (ih h)
  -- the expected closing bracket
  | case4 placed rest htoken expected ih | case7 placed rest htoken expected ih =>
    exact (Covered.closing (by rw [htoken]; rfl) expected.length).append (ih h)
  -- any other token
  | case10 expected placed rest hparen hbracket hparen' hbracket' ih =>
    have hplain : Bracketless [placed] := by
      intro other hmem
      rw [List.mem_singleton.mp hmem]
      unfold isOpening isClosing
      constructor
      · split <;> simp_all
      · split <;> simp_all
    exact (hplain.covered expected.length).append (ih h)
  | case5 => cases h
  | case6 => cases h
  | case8 => cases h
  | case9 => cases h

/-- Brackets that are matched close nothing that is not open. -/
theorem Matched.noSurplus {q : Queue} (h : Matched q) : NoSurplus q := by
  intro taken htaken
  have hwithin := (covered_of_expectedBehind h).within taken htaken
  rwa [List.length_nil, Nat.zero_add] at hwithin

/-- The end of the file has nothing behind it. -/
theorem bracketless_of_end {source : String} {q : Queue} (hq : q <:+ State.kept (lex source))
    (hend : ∀ placed rest, q = placed :: rest → placed.token = .endOfFile) : Bracketless q := by
  obtain ⟨front, ⟨reading, span⟩, hlex, rfl, -, -, hfront⟩ := (lex_lossless source).ends
  have hkept : State.kept (lex source) = State.kept front ++ [⟨.endOfFile, span⟩] := by
    rw [hlex, State.kept_append]
    rfl
  rw [hkept] at hq
  rcases List.suffix_concat_iff.mp hq with rfl | ⟨others, rfl, hothers⟩
  · exact nofun
  cases others with
  | nil =>
    intro placed hmem
    rw [List.mem_singleton.mp hmem]
    exact ⟨rfl, rfl⟩
  | cons placed others =>
    -- another end of the file would stand before the last one
    have hmem := mem_kept (hothers.subset List.mem_cons_self)
    exact (hfront _ hmem (by rw [hend placed _ rfl])).elim

end PineCheck.Parser

namespace PineCheck

open PineCheck.Parser

/-- **A closing bracket too many is told.** In a script without definitions of types
and functions and without imports, if more brackets close than open somewhere, and not
only inside brackets that are skipped, the brackets do not match and the parse has an
error. -/
theorem parse_reports_surplus (source : String) (allowed : Nat)
    (hlacks : LacksDefinitions (State.kept (lex source)))
    (hskips : SkipsNoSurplus (State.kept (lex source)))
    (hsurplus : ¬ NoSurplus (State.kept (lex source))) :
    ¬ Matched (State.kept (lex source)) ∧ (parse source allowed).errors ≠ [] := by
  refine ⟨fun h => hsurplus h.noSurplus, fun herrors => hsurplus ?_⟩
  obtain ⟨hpasses, hclean, hends⟩ := parse_passes hlacks herrors
  obtain ⟨taken, hqueue, hcovered⟩ := hpasses.covered hskips List.suffix_rfl
  have hrest : Bracketless (finalState (lex source) allowed).queue := by
    refine bracketless_of_end (start_reaches_finalState (lex source) allowed).queue_suffix ?_
    intro placed rest hcons
    rw [State.front?_of_queue hcons] at hends
    rcases hends with hnone | hend
    · cases hnone
    · exact Option.some.inj hend
  have hall := hcovered.append (hrest.covered 0)
  intro first hfirst
  have hwithin := hall.within first (hqueue ▸ hfirst)
  rwa [Nat.zero_add] at hwithin

/-- The parenthesis that closes too much here stands behind others that are matched. -/
theorem parse_reports_surplus_behind_call :
    ¬ NoSurplus (State.kept (lex "x = f(a)[1])\n")) ∧
      ¬ Matched (State.kept (lex "x = f(a)[1])\n")) ∧ (parse "x = f(a)[1])\n" 10).errors ≠ [] :=
  have hsurplus : ¬ NoSurplus (State.kept (lex "x = f(a)[1])\n")) := by decide +kernel
  ⟨hsurplus, parse_reports_surplus "x = f(a)[1])\n" 10 (by decide +kernel) (by decide +kernel)
    hsurplus⟩

/-- **A parenthesis that is left open may not be told.** The brackets of this script are
not matched, and the parse has no error. -/
theorem parse_keeps_silent :
    LacksDefinitions (State.kept (lex "(\n")) ∧ ¬ Matched (State.kept (lex "(\n")) ∧
      (parse "(\n" defaultAllowed).errors = [] := by
  decide +kernel

end PineCheck
