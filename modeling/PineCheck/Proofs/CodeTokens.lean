import PineCheck.Proofs.Declarations
import PineCheck.Proofs.Quotation

/-!
# PineCheck — tokens in masked code

The parse works on tokens, and the checks of lines on the masked script. Here the tokens of a
script without faults are found in its mask, one behind the other. Words, marks and operators
are code that the mask leaves as it is (`isCode`). Before such a token there is a `Gap`: blanks
and the remains of comments. A line break in a gap stands in a comment that goes over several
lines, which ends on a later line and leaves a space there.

`Reads` tells where a parse stands in a script and in its mask, with the tokens that are left.

Main results:

* `Lexer.Run.seek` — a run comes to each of its tokens, and right behind a token the next one
  stands behind a gap.
* `Reads.found`, `Reads.exists_head` — the same of one token and of all tokens of a head.
-/

namespace PineCheck

open Lexer (lexeme Run isWordChar isWordStart)
open PineCheck.Parser (Placed Queue State isHead)
open Text (mask maskFrom maskChar blanked)

-- ---------------------------------------------------------------------------
-- Texts with several lines
-- ---------------------------------------------------------------------------

/-- Behind each line break of a text, a space or another line break of it follows. -/
def Covered (cs : List Char) : Prop :=
  ∀ front behind, cs = front ++ '\n' :: behind →
    behind.head? = some ' ' ∨ behind.head? = some '\n'

/-- A text on one line is covered. -/
theorem covered_of_notMem {cs : List Char} (h : '\n' ∉ cs) : Covered cs := by
  rintro front behind rfl
  exact absurd (List.mem_append_right front List.mem_cons_self) h

/-- Two covered texts are covered together. -/
theorem Covered.append {a b : List Char} (ha : Covered a) (hb : Covered b) : Covered (a ++ b) := by
  intro front behind h
  rcases List.append_eq_append_iff.mp h with ⟨later, -, hlater⟩ | ⟨later, hfront, hlater⟩
  · exact hb later behind hlater
  · cases later with
    | nil => exact hb [] behind hlater.symm
    | cons c later =>
      obtain ⟨rfl, rfl⟩ := List.cons.inj hlater
      -- what follows the line break follows it in the first text
      have hnext := ha front later hfront
      cases later with
      | nil => rcases hnext with hnext | hnext <;> cases hnext
      | cons d later => exact hnext

/-- What stands between two tokens, once it is masked. -/
structure Gap (cs : List Char) : Prop where
  blank : ∀ c ∈ cs, c = ' ' ∨ c = '\t' ∨ c = '\r' ∨ c = '\n'
  covered : Covered cs

theorem Gap.nil : Gap [] :=
  ⟨nofun, covered_of_notMem List.not_mem_nil⟩

theorem Gap.append {a b : List Char} (ha : Gap a) (hb : Gap b) : Gap (a ++ b) :=
  ⟨List.forall_mem_append.mpr ⟨ha.blank, hb.blank⟩, ha.covered.append hb.covered⟩

theorem gap_of_blank {c : Char} (h : c = ' ' ∨ c = '\t' ∨ c = '\r') : Gap [c] := by
  refine ⟨List.forall_mem_singleton.mpr (h.imp_right (Or.imp_right .inl)), covered_of_notMem ?_⟩
  rcases h with rfl | rfl | rfl <;> decide

theorem gap_of_spaces {cs : List Char} (h : ∀ c ∈ cs, Text.isSpace c = true) : Gap cs := by
  have hspace (c : Char) (hc : c ∈ cs) := Lexer.eq_of_isSpace (h c hc)
  refine ⟨fun c hc => (hspace c hc).imp_right .inl, covered_of_notMem fun hmem => ?_⟩
  rcases hspace '\n' hmem with h | h <;> cases h

/-- A comment that does not end in a line break is a gap. -/
theorem gap_of_comment {taken : List Char} (h : taken.getLast? ≠ some '\n') :
    Gap (taken.flatMap maskedInComment) := by
  have hchars : ∀ c ∈ taken.flatMap maskedInComment, c = ' ' ∨ c = '\n' := by
    intro c hc
    obtain ⟨d, -, hd⟩ := List.mem_flatMap.mp hc
    rw [maskedInComment] at hd
    split at hd
    · next hbreak => exact .inr (by rw [List.mem_singleton.mp hd, hbreak])
    · exact .inl (List.eq_of_mem_replicate hd)
  refine ⟨fun c hc => (hchars c hc).imp_right fun h => .inr (.inr h), fun front behind hcut => ?_⟩
  cases behind with
  | cons d behind =>
    exact (hchars d (by rw [hcut]; simp)).imp (congrArg some) (congrArg some)
  | nil =>
    -- the last character of the comment would be a line break
    exfalso
    rcases List.eq_nil_or_concat taken with rfl | ⟨others, last, rfl⟩
    · exact List.append_ne_nil_of_right_ne_nil front (List.cons_ne_nil _ _) hcut.symm
    · rw [List.concat_eq_append] at h hcut
      rw [List.getLast?_concat] at h
      have hlast : (maskedInComment last).getLast? = some ' ' := by
        rw [maskedInComment, if_neg fun hbreak => h (congrArg some hbreak), blanked,
          List.getLast?_replicate, if_neg (Nat.pos_iff_ne_zero.mp last.utf8Size_pos)]
      have hends := congrArg List.getLast? hcut
      rw [List.flatMap_append, List.flatMap_singleton, List.getLast?_append, hlast,
        List.getLast?_concat] at hends
      cases hends

-- ---------------------------------------------------------------------------
-- Texts and their masks
-- ---------------------------------------------------------------------------

/-- A text and its mask are of the same length, and end in a line break together. -/
structure Mirrors (text masked : List Char) : Prop where
  length : byteLength masked = byteLength text
  ends : text.getLast? = some '\n' → masked.getLast? = some '\n'

theorem Mirrors.refl (text : List Char) : Mirrors text text :=
  ⟨rfl, id⟩

/-- Two texts mirror their masks together. -/
theorem Mirrors.append {a b masked later : List Char} (ha : Mirrors a masked)
    (hb : Mirrors b later) : Mirrors (a ++ b) (masked ++ later) := by
  refine ⟨by rw [byteLength_append, byteLength_append, ha.length, hb.length], fun h => ?_⟩
  rw [List.getLast?_append] at h ⊢
  cases hlast : b.getLast? with
  -- the second text is empty, so the first one ends the whole
  | none =>
    obtain rfl := List.getLast?_eq_none_iff.mp hlast
    obtain rfl := (byteLength_eq_zero_iff later).mp hb.length
    rw [hlast] at h
    exact ha.ends h
  | some c =>
    rw [hlast] at h
    rw [hb.ends (hlast.trans h)]
    rfl

/-- A column is the first one at the start of a text and behind a line break. -/
theorem column_eq_zero_iff (cs : List Char) :
    (Position.after {} cs).column = 0 ↔ cs = [] ∨ cs.getLast? = some '\n' := by
  rcases List.eq_nil_or_concat cs with rfl | ⟨front, last, rfl⟩
  · exact ⟨fun _ => .inl rfl, fun _ => rfl⟩
  · rw [List.concat_eq_append, Position.after_append, Position.after_cons, Position.after_nil,
      Position.advance, List.getLast?_concat]
    split
    · next hbreak => simp [hbreak]
    · next hbreak => simp [hbreak]

/-- A mask is at the front of a line where its text is. -/
theorem Mirrors.column {text masked : List Char} (h : Mirrors text masked)
    (hcolumn : (Position.after {} text).column = 0) :
    (Position.after {} masked).column = 0 := by
  rw [column_eq_zero_iff] at hcolumn ⊢
  refine hcolumn.imp (fun hnil => ?_) h.ends
  rw [hnil] at h
  exact (byteLength_eq_zero_iff masked).mp h.length

/-- The mask of a token or a blank mirrors it. -/
theorem MaskedAs.mirrors {reading : Option Reading} {taken masked : List Char}
    (h : MaskedAs reading taken masked) (hok : ∀ fault, reading ≠ some (.error fault)) :
    Mirrors taken masked := by
  refine ⟨h.byteLength_eq, ?_⟩
  cases h with
  | kept => exact id
  | unclosed => exact absurd rfl (hok _)
  | closed contents inner isQuote =>
    intro hends
    rw [List.getLast?_cons_of_ne_nil (by simp), List.getLast?_concat] at hends
    rcases isQuote with rfl | rfl <;> cases hends
  | comment text =>
    intro hends
    obtain ⟨front, rfl⟩ := List.getLast?_eq_some_iff.mp hends
    rw [List.flatMap_append, List.flatMap_singleton]
    exact List.getLast?_concat

-- ---------------------------------------------------------------------------
-- Tokens of code
-- ---------------------------------------------------------------------------

/-- Whether a token is a word, a mark or an operator. -/
def isCode : Token → Bool
  | .punctuation _ | .operator _ | .keyword _ | .identifier _ => true
  | _ => false

/-- The words that head a definition are code. -/
theorem isCode_of_isHead {token : Token} (h : isHead token = true) : isCode token = true := by
  cases token with
  | punctuation => rfl
  | operator => rfl
  | keyword => rfl
  | identifier => rfl
  | _ => cases h

/-- The mask leaves code as it is. -/
theorem MaskedAs.eq_of_isCode {token : Token} {taken masked : List Char}
    (h : MaskedAs (some (.ok token)) taken masked) (hcode : isCode token = true) :
    masked = taken := by
  cases h with
  | kept => rfl
  | comment => cases hcode
  | closed => cases hcode

/-- A mark is punctuation or an operator. -/
theorem symbolLexeme_reads {c : Char} {cs : List Char} {token : Token} :
    (Lexer.symbolLexeme c cs).reading = some (.ok token) →
      (∃ mark, token = .punctuation mark) ∨ ∃ op, token = .operator op := by
  have hsingle : Lexer.singleReading c = .ok token →
      (∃ mark, token = .punctuation mark) ∨ ∃ op, token = .operator op := by
    fun_cases Lexer.singleReading c <;> rintro ⟨⟩ <;>
      first | exact .inl ⟨_, rfl⟩ | exact .inr ⟨_, rfl⟩
  fun_cases Lexer.symbolLexeme c cs with
  | case2 d ds reading hpair =>
    intro h
    rw [show reading = .ok token from Option.some.inj h] at hpair
    revert hpair
    fun_cases Lexer.pairReading? c d <;> rintro ⟨⟩ <;> exact .inr ⟨_, rfl⟩
  | _ => exact fun h => hsingle (Option.some.inj h)

/-- Only words read as names. -/
theorem isWordChar_of_identifier {c : Char} {cs : List Char} {name : String} :
    (lexeme c cs).reading = some (.ok (.identifier name)) →
      ∀ d ∈ (lexeme c cs).taken, isWordChar d = true := by
  fun_cases lexeme c cs with
  | case5 => exact fun _ d hd => List.mem_takeWhile_imp hd
  | case3 =>
    rw [Lexer.stringLexeme]
    split
    split <;> rintro ⟨⟩
  | case6 =>
    rw [Lexer.colorLexeme, Lexer.colorReading]
    split
    · rintro ⟨⟩
    split <;> rintro ⟨⟩
  | case9 =>
    intro h
    rcases symbolLexeme_reads h with ⟨_, heq⟩ | ⟨_, heq⟩ <;> cases heq
  | _ => rintro ⟨⟩

/-- Code stands on one line. -/
theorem newline_notMem_of_isCode {c : Char} {cs : List Char} {token : Token}
    (h : (lexeme c cs).reading = some (.ok token)) (hcode : isCode token = true) :
    '\n' ∉ (lexeme c cs).taken := by
  have hspells := Lexer.lexeme_spells h
  cases token with
  | punctuation mark =>
    rw [show (lexeme c cs).taken = [mark.spelling] from hspells]
    cases mark <;> decide
  | operator op =>
    rw [show (lexeme c cs).taken = op.spelling.toList from hspells]
    cases op <;> decide
  | keyword word =>
    rw [show (lexeme c cs).taken = word.spelling.toList from hspells]
    cases word <;> decide
  | identifier name => exact fun hmem => absurd (isWordChar_of_identifier h _ hmem) (by decide)
  | _ => cases hcode

/-- Behind an assignment no equals sign stands. -/
theorem head?_rest_of_assignment {c : Char} {cs : List Char}
    (h : (lexeme c cs).reading = some (.ok (.operator .assignment))) :
    (lexeme c cs).rest.head? ≠ some '=' := by
  have htaken : (lexeme c cs).taken = ['='] := Lexer.lexeme_spells h
  have hcut := Lexer.lexeme_taken_append_rest c cs
  rw [htaken] at hcut
  obtain ⟨rfl, -⟩ := List.cons.inj hcut
  -- an equals sign starts a symbol
  have hlexeme : lexeme '=' cs = Lexer.symbolLexeme '=' cs := by
    simp [lexeme, Lexer.startsNumber, isWordStart]
  rw [hlexeme] at h ⊢
  cases cs with
  | nil => rintro ⟨⟩
  | cons d ds =>
    by_cases hd : d = '='
    · rw [hd] at h
      cases h
    · have hne : (Lexer.symbolLexeme '=' (d :: ds)).rest = d :: ds := by
        rw [Lexer.symbolLexeme] at h ⊢
        cases hpair : Lexer.pairReading? '=' d with
        | none => rfl
        | some reading =>
          -- an assignment is no pair of characters
          rw [hpair] at h
          rw [show reading = .ok (.operator .assignment) from Option.some.inj h] at hpair
          revert hpair
          fun_cases Lexer.pairReading? '=' d <;> rintro ⟨⟩
      rw [hne]
      exact fun heq => hd (Option.some.inj heq)

/-- A block comment that is closed ends with its closing mark. -/
theorem exists_blockBody_eq {cs : List Char} (h : (Lexer.blockBody cs).2 ≠ []) :
    ∃ inner, (Lexer.blockBody cs).1 = inner ++ ['*', '/'] := by
  fun_induction Lexer.blockBody cs with
  | case1 => exact absurd rfl h
  | case2 c cs hclose =>
    rw [Bool.and_eq_true, decide_eq_true_eq, decide_eq_true_eq] at hclose
    obtain ⟨rest, rfl⟩ := List.head?_eq_some_iff.mp hclose.2
    exact ⟨[], by rw [hclose.1]; rfl⟩
  | case3 c cs _ taken rest hbody ih =>
    rw [hbody] at ih
    obtain ⟨inner, hinner⟩ := ih h
    exact ⟨c :: inner, congrArg (c :: ·) hinner⟩

/-- A comment behind which the script goes on does not end in a line break. -/
theorem getLast?_comment {c : Char} {cs : List Char} {text : String} :
    (lexeme c cs).reading = some (.ok (.comment text)) → (lexeme c cs).rest ≠ [] →
      (lexeme c cs).taken.getLast? ≠ some '\n' := by
  fun_cases lexeme c cs with
  -- a comment of a line stops before its break
  | case7 =>
    intro _ _ hlast
    have hmem := List.mem_takeWhile_imp (List.mem_of_getLast? hlast)
    cases hmem
  -- a comment of a block ends in a slash
  | case8 =>
    intro _ hrest
    rw [Lexer.blockCommentLexeme] at hrest ⊢
    dsimp only at hrest ⊢
    obtain ⟨inner, hinner⟩ := exists_blockBody_eq hrest
    rw [hinner, ← List.append_assoc, List.getLast?_append]
    rintro ⟨⟩
  | case3 =>
    rw [Lexer.stringLexeme]
    split
    split <;> rintro ⟨⟩
  -- neither words nor colors nor symbols read as comments
  | case5 =>
    intro h
    have hkeeps := keepsText_wordToken (String.ofList ((c :: cs).takeWhile isWordChar))
    rw [Lexer.wordLexeme] at h
    dsimp only at h
    rw [h] at hkeeps
    cases hkeeps
  | case6 =>
    intro h
    have hkeeps := keepsText_colorReading (cs.takeWhile isWordChar)
    rw [Lexer.colorLexeme] at h
    dsimp only at h
    rw [h] at hkeeps
    cases hkeeps
  | case9 =>
    intro h
    rcases symbolLexeme_reads h with ⟨_, heq⟩ | ⟨_, heq⟩ <;> cases heq
  | _ => rintro ⟨⟩

-- ---------------------------------------------------------------------------
-- From one token to the next
-- ---------------------------------------------------------------------------

/-- No reading of a script is a fault. -/
def IsClean (tokens : List Lexed) : Prop :=
  ∀ t ∈ tokens, ∀ fault, t.reading ≠ .error fault

/-- Marks of indentation are no code. -/
theorem isCode_of_mem_kept_layoutMarks {before blanks : List Char} {ended : Nat} {begins : Bool}
    {p : Placed} (h : p ∈ State.kept (Lexer.layoutMarks before blanks ended begins)) :
    isCode p.token = false := by
  obtain ⟨t, ht, hp⟩ := List.mem_filterMap.mp h
  rcases Lexer.mem_layoutMarks ht with rfl | rfl
  · cases hp
    rfl
  · cases hp
    rfl

/-- What is read at one place is left to the parser, or it is not, and then it is blank or a
comment: its mask is a gap. -/
theorem kept_lexeme_cases {c : Char} {cs masked : List Char}
    (hmasked : MaskedAs (lexeme c cs).reading (lexeme c cs).taken masked)
    (hok : ∀ fault, (lexeme c cs).reading ≠ some (.error fault)) (span : Span) :
    (∃ token, (lexeme c cs).reading = some (.ok token) ∧
      State.kept ((lexeme c cs).reading.toList.map (⟨·, span⟩)) = [⟨token, span⟩]) ∨
    State.kept ((lexeme c cs).reading.toList.map (⟨·, span⟩)) = [] ∧
      ((lexeme c cs).rest ≠ [] → Gap masked) := by
  cases hreading : (lexeme c cs).reading with
  | none =>
    obtain ⟨htaken, hblank⟩ := Lexer.lexeme_blank hreading
    rw [hreading, htaken] at hmasked
    refine .inr ⟨rfl, fun _ => ?_⟩
    cases hmasked with
    | kept => exact gap_of_blank hblank
  | some reading =>
    rw [hreading] at hmasked
    cases reading with
    | error fault => exact absurd hreading (hok fault)
    | ok token =>
      cases token with
      -- a comment is dropped, and its mask is a gap
      | comment text =>
        refine .inr ⟨rfl, fun hrest => ?_⟩
        cases hmasked with
        | comment => exact gap_of_comment (getLast?_comment hreading hrest)
        | kept _ keeps => cases keeps
      | _ => exact .inl ⟨_, rfl, rfl⟩

/-- A run at a token of code. -/
structure Lexer.Run.At (before rest : List Char) (p : Placed) (queue : Queue)
    (skipped front : List Char) (c : Char) (cs : List Char) (tokens : List Lexed) : Prop where
  cut : rest = skipped ++ c :: cs
  reading : (lexeme c cs).reading = some (.ok p.token)
  span : p.span = stretch (before ++ skipped) (lexeme c cs).taken
  next : Run (before ++ skipped ++ (lexeme c cs).taken) (lexeme c cs).rest tokens
  clean : IsClean tokens
  kept : State.kept tokens = queue
  masked : maskFrom .code rest = front ++ maskFrom .code (c :: cs)
  mirrors : Mirrors skipped front

/-- What is masked before a run is skipped with it. -/
theorem Lexer.Run.At.behind {before piece masked rest skipped front cs : List Char} {c : Char}
    {p : Placed} {queue : Queue} {tokens : List Lexed}
    (h : Run.At (before ++ piece) rest p queue skipped front c cs tokens)
    (hmirrors : Mirrors piece masked)
    (hmask : maskFrom .code (piece ++ rest) = masked ++ maskFrom .code rest) :
    Run.At before (piece ++ rest) p queue (piece ++ skipped) (masked ++ front) c cs tokens where
  cut := by rw [h.cut, List.append_assoc]
  reading := h.reading
  span := by rw [h.span, List.append_assoc]
  next := by
    have hnext := h.next
    rwa [List.append_assoc before] at hnext
  clean := h.clean
  kept := h.kept
  masked := by rw [hmask, h.masked, List.append_assoc]
  mirrors := hmirrors.append h.mirrors

/-- So is a lexeme. -/
theorem Lexer.Run.At.over {before skipped front masked cs ds : List Char} {c d : Char}
    {p : Placed} {queue : Queue} {tokens : List Lexed}
    (h : Run.At (before ++ (lexeme c cs).taken) (lexeme c cs).rest p queue skipped front d ds
      tokens)
    (hmirrors : Mirrors (lexeme c cs).taken masked)
    (hmask : maskFrom .code (c :: cs) = masked ++ maskFrom .code (lexeme c cs).rest) :
    Run.At before (c :: cs) p queue ((lexeme c cs).taken ++ skipped) (masked ++ front) d ds
      tokens := by
  have hcut := Lexer.lexeme_taken_append_rest c cs
  have hbehind := h.behind hmirrors (by rw [hcut, hmask])
  rwa [hcut] at hbehind

/-- Something is left where a token is found. -/
theorem Lexer.Run.At.rest_ne_nil {before rest skipped front cs : List Char} {c : Char}
    {p : Placed} {queue : Queue} {tokens : List Lexed}
    (h : Run.At before rest p queue skipped front c cs tokens) : rest ≠ [] := by
  rw [h.cut]
  exact List.append_ne_nil_of_right_ne_nil skipped (List.cons_ne_nil c cs)

/-- **A run comes to each token of code.** If nothing stands before the token but comments and
blanks, the mask of that is a gap. -/
theorem Lexer.Run.seek {before rest : List Char} {tokens : List Lexed}
    (run : Run before rest tokens) (hclean : IsClean tokens) {pre queue : Queue} {p : Placed}
    (hkept : State.kept tokens = pre ++ p :: queue) (hp : isCode p.token = true) :
    ∃ skipped front c cs later, Run.At before rest p queue skipped front c cs later ∧
      (pre = [] → Gap front) := by
  induction run generalizing pre with
  | finish before =>
    -- the end of the file is no code
    have hmem : p ∈ State.kept [⟨.ok .endOfFile, stretch before []⟩] := by
      rw [hkept]
      exact List.mem_append_right pre List.mem_cons_self
    rw [List.mem_singleton.mp hmem] at hp
    cases hp
  | @line before blanks rest tokens ended begins spaces next ih =>
    -- the token is none of the marks at the front of the line
    have hmarks : p ∉ State.kept (Lexer.layoutMarks before blanks ended begins) := by
      intro hmem
      rw [isCode_of_mem_kept_layoutMarks hmem] at hp
      cases hp
    rw [State.kept_append] at hkept
    obtain ⟨pre', rfl, hkept'⟩ := exists_append_of_notMem hkept hmarks
    obtain ⟨skipped, front, c, cs, later, hat, hgap⟩ :=
      ih (fun t ht => hclean t (List.mem_append_right _ ht)) hkept'
    have hplain : ∀ c ∈ blanks, isPlain c = true := fun c hc => isPlain_of (spaces c hc) rfl rfl rfl
    exact ⟨_, _, c, cs, later, hat.behind (.refl blanks) (maskFrom_plain_append hplain rest),
      fun hnil => (gap_of_spaces spaces).append (hgap (List.append_eq_nil_iff.mp hnil).2)⟩
  | @read before c cs tokens next ih =>
    have hok (fault : Fault) : (lexeme c cs).reading ≠ some (.error fault) := by
      intro hfault
      refine hclean ⟨.error fault, stretch before (lexeme c cs).taken⟩ ?_ fault rfl
      rw [hfault]
      exact List.mem_cons_self
    obtain ⟨masked, hmasked, hmask⟩ := mask_lexeme c cs (hok _)
    have hmirrors := hmasked.mirrors hok
    have hclean' : IsClean tokens := fun t ht => hclean t (List.mem_append_right _ ht)
    rw [State.kept_append] at hkept
    rcases kept_lexeme_cases hmasked hok (stretch before (lexeme c cs).taken) with
      ⟨token, hreading, hhere⟩ | ⟨hhere, hgap⟩
    · rw [hhere, List.singleton_append] at hkept
      cases pre with
      | nil =>
        -- this is the token
        obtain ⟨rfl, rfl⟩ := List.cons.inj hkept
        refine ⟨[], [], c, cs, tokens, ⟨rfl, hreading, ?_, ?_, hclean', rfl, rfl, .refl []⟩,
          fun _ => .nil⟩
        · rw [List.append_nil]
        · rwa [List.append_nil]
      | cons q pre =>
        obtain ⟨skipped, front, d, ds, later, hat, -⟩ := ih hclean' (List.cons.inj hkept).2
        exact ⟨_, _, d, ds, later, hat.over hmirrors hmask,
          fun hnil => absurd hnil (List.cons_ne_nil q pre)⟩
    -- the lexeme is dropped, so the token is behind it
    · rw [hhere, List.nil_append] at hkept
      obtain ⟨skipped, front, d, ds, later, hat, hgap'⟩ := ih hclean' hkept
      exact ⟨_, _, d, ds, later, hat.over hmirrors hmask,
        fun hnil => (hgap hat.rest_ne_nil).append (hgap' hnil)⟩

-- ---------------------------------------------------------------------------
-- Tokens in a script and in its mask
-- ---------------------------------------------------------------------------

/-- A parse stands behind the text `before`, whose mask is `done`. The rest of the mask is
`later`, and `queue` is left of the tokens. -/
structure Reads (script before done later : List Char) (queue : Queue) : Prop where
  exists_run : ∃ rest tokens, script = before ++ rest ∧ later = maskFrom .code rest ∧
    Run before rest tokens ∧ IsClean tokens ∧ State.kept tokens = queue
  mask_eq : mask script = done ++ later
  mirrors : Mirrors before done

/-- A token is spelled by `text`, which stands behind `before` in a script and behind `done` in
its mask. -/
structure Found (script before done text later : List Char) (p : Placed) (queue : Queue) :
    Prop where
  spells : p.token.Spells text
  whole : '\n' ∉ text
  span : p.span = stretch before text
  mirrors : Mirrors before done
  reads : Reads script (before ++ text) (done ++ text) later queue
  /-- An assignment is not the front of a comparison. -/
  sharp : p.token = .operator .assignment → later.head? ≠ some '='

theorem reads_start {source : String} (h : IsClean (lex source)) :
    Reads source.toList [] [] (mask source.toList) (State.kept (lex source)) :=
  ⟨⟨_, _, rfl, rfl, Lexer.lex_run source, h, rfl⟩, rfl, .refl []⟩

/-- The first character of a masked text is the first one of the text, or a space. -/
theorem head?_maskFrom (region : Text.Region) (cs : List Char) :
    (maskFrom region cs).head? = cs.head? ∨ (maskFrom region cs).head? = some ' ' := by
  cases cs with
  | nil => exact .inl rfl
  | cons c cs =>
    rw [maskFrom]
    dsimp only
    rcases Indexed.maskChar_cases region c cs.head? with h | h
    · exact .inl (by rw [h]; rfl)
    · exact .inr (by rw [h, List.head?_append, Text.head?_blanked]; rfl)

/-- A token of code that is left is found further on. -/
theorem Reads.found {script before done later : List Char} {pre queue : Queue} {p : Placed}
    (h : Reads script before done later (pre ++ p :: queue)) (hp : isCode p.token = true) :
    ∃ skipped front text later', later = front ++ (text ++ later') ∧
      Found script (before ++ skipped) (done ++ front) text later' p queue ∧
      (pre = [] → Gap front) := by
  obtain ⟨⟨rest, tokens, hscript, rfl, run, hclean, hkept⟩, hmask, hmirrors⟩ := h
  obtain ⟨skipped, front, c, cs, left, hat, hgap⟩ := run.seek hclean hkept hp
  obtain ⟨masked, hmasked, hlexeme⟩ := mask_lexeme c cs (by rw [hat.reading]; exact nofun)
  rw [hat.reading] at hmasked
  rw [hmasked.eq_of_isCode hp] at hlexeme
  have hcut := Lexer.lexeme_taken_append_rest c cs
  have hlater := hat.masked
  rw [hlexeme] at hlater
  have hmirrors' := hmirrors.append hat.mirrors
  refine ⟨skipped, front, _, _, hlater, ⟨Lexer.lexeme_spells hat.reading,
    newline_notMem_of_isCode hat.reading hp, hat.span, hmirrors', ⟨⟨_, left, ?_, rfl, hat.next,
    hat.clean, hat.kept⟩, ?_, hmirrors'.append (.refl _)⟩, fun hop => ?_⟩, hgap⟩
  · rw [hscript, hat.cut, ← hcut, List.append_assoc, List.append_assoc]
  · rw [hmask, hlater, List.append_assoc, List.append_assoc]
  -- behind an assignment no equals sign is unmasked
  · have hreading := hat.reading
    rw [hop] at hreading
    have hrest := head?_rest_of_assignment hreading
    rcases head?_maskFrom .code (lexeme c cs).rest with hhead | hhead
    · rwa [hhead]
    · rw [hhead]
      exact nofun

/-- Behind the tokens of a head, the next token is found behind covered text. -/
theorem Reads.exists_head {script before done later : List Char} {head queue : Queue} {p : Placed}
    (h : Reads script before done later (head ++ p :: queue))
    (hhead : ∀ q ∈ head, isHead q.token = true) (hp : isCode p.token = true) :
    ∃ skipped front text later', later = front ++ (text ++ later') ∧
      Found script (before ++ skipped) (done ++ front) text later' p queue ∧ Covered front := by
  induction head generalizing before done later with
  | nil =>
    obtain ⟨skipped, front, text, later', hlater, hfound, hgap⟩ := @Reads.found _ _ _ _ [] _ _ h hp
    exact ⟨skipped, front, text, later', hlater, hfound, (hgap rfl).covered⟩
  | cons q head ih =>
    obtain ⟨hq, hhead⟩ := List.forall_mem_cons.mp hhead
    obtain ⟨gap, front, text, later', rfl, hfound, hgap⟩ :=
      @Reads.found _ _ _ _ [] _ _ h (isCode_of_isHead hq)
    obtain ⟨skipped, front', text', later'', rfl, hfound', hcovered⟩ := ih hfound.reads hhead
    refine ⟨gap ++ (text ++ skipped), front ++ (text ++ front'), text', later'', ?_, ?_, ?_⟩
    · simp only [List.append_assoc]
    · simpa only [List.append_assoc] using hfound'
    · exact (hgap rfl).covered.append ((covered_of_notMem hfound.whole).append hcovered)

end PineCheck
