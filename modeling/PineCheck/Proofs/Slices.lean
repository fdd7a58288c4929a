import PineCheck.Proofs.Breaks

/-!
# PineCheck — tokens cut out of their script

How far a lexeme goes is decided by a look at the one or two characters behind it: a
full stop is left to what follows when a letter stands behind it, an exponent needs a
digit, two characters may belong together. What is found there is found again where the
text ends with the lexeme, or is not needed there: what a lexeme takes is read `alone` as
it was read in its script.

A part of a number ends in front of any beginning of the text behind it, with one
exception: a full stop that is not part of the number would be, if the text ended there.

Main results:

* `lexeme_alone` — what a lexeme takes is one lexeme, and reads the same.
* `lex_between` — a token that is cut out of its script reads as the same token and the end
  of the file.
-/

namespace PineCheck.Lexer

/-- A lexeme with no text behind it. -/
def Lexeme.alone (front : Lexeme) : Lexeme :=
  { front with rest := [] }

-- ---------------------------------------------------------------------------
-- Beginnings of the text behind
-- ---------------------------------------------------------------------------

section

variable {p : Char → Bool} {x cs : List Char}

/-- What holds for the first character of a beginning holds for the first character of
the text. -/
theorem any_head?_of_isPrefix (h : x <+: cs) (hx : x.head?.any p = true) :
    cs.head?.any p = true := by
  obtain ⟨behind, rfl⟩ := h
  cases x with
  | nil => cases hx
  | cons c x => exact hx

/-- The first character of a beginning is the first character of the text. -/
theorem head?_of_isPrefix {c : Char} (h : x <+: cs) (hx : x.head? = some c) :
    cs.head? = some c := by
  obtain ⟨behind, rfl⟩ := h
  rw [List.head?_append, hx, Option.some_or]

/-- A prefix of the second part makes a prefix of the whole. -/
theorem append_prefix_of_append_eq {a b : List Char} (hcut : a ++ b = cs) (h : x <+: b) :
    a ++ x <+: cs := by
  rw [← hcut]
  exact (List.prefix_append_right_inj a).mpr h

/-- A shorter rest does not lengthen what is taken. -/
theorem takeWhile_append_of_isPrefix (h : x <+: cs.dropWhile p) :
    (cs.takeWhile p ++ x).takeWhile p = cs.takeWhile p := by
  induction cs with
  | nil => rw [List.prefix_nil.mp h]; rfl
  | cons c cs ih =>
    by_cases hc : p c = true
    · rw [List.dropWhile_cons_of_pos hc] at h
      rw [List.takeWhile_cons_of_pos hc, List.cons_append, List.takeWhile_cons_of_pos hc, ih h]
    · rw [List.dropWhile_cons_of_neg hc] at h
      rw [List.takeWhile_cons_of_neg hc, List.nil_append]
      cases x with
      | nil => rfl
      | cons d x =>
        obtain ⟨rfl, -⟩ := List.cons_prefix_cons.mp h
        exact List.takeWhile_cons_of_neg hc

/-- What is left of a shorter rest is that rest. -/
theorem dropWhile_append_of_isPrefix (h : x <+: cs.dropWhile p) :
    (cs.takeWhile p ++ x).dropWhile p = x := by
  have hcut := List.takeWhile_append_dropWhile (p := p) (l := cs.takeWhile p ++ x)
  rw [takeWhile_append_of_isPrefix h] at hcut
  exact List.append_cancel_left hcut

/-- What was taken is taken again as a whole. -/
theorem dropWhile_takeWhile (p : Char → Bool) (cs : List Char) :
    (cs.takeWhile p).dropWhile p = [] :=
  List.dropWhile_eq_nil_iff.mpr fun _ => List.mem_takeWhile_imp

-- ---------------------------------------------------------------------------
-- Numbers
-- ---------------------------------------------------------------------------

/-- A sign is read again from a shorter text. -/
theorem signPart_append_of_isPrefix (h : x <+: (signPart cs).2) :
    signPart ((signPart cs).1 ++ x) = ((signPart cs).1, x) := by
  fun_cases signPart cs with
  | case1 => rw [List.prefix_nil.mp h]; rfl
  | case2 cs => rfl
  | case3 c cs hc =>
    simp only [signPart, if_neg hc] at h ⊢
    cases x with
    | nil => rfl
    | cons d x =>
      obtain ⟨rfl, -⟩ := List.cons_prefix_cons.mp h
      exact if_neg hc

/-- A fraction is read again from a shorter text that does not go on with a full stop. -/
theorem fractionPart_append_of_isPrefix (h : x <+: (fractionPart cs).2)
    (hpoint : x.head? ≠ some '.') :
    fractionPart ((fractionPart cs).1 ++ x) = ((fractionPart cs).1, x) := by
  fun_cases fractionPart cs with
  | case1 => rw [List.prefix_nil.mp h]; rfl
  | case2 c cs hc =>
    rw [fractionPart, if_pos hc] at h
    -- there is no letter behind the full stop, whatever is left of the text there
    have hstop : (c = '.' &&
        !(cs.takeWhile Char.isDigit ++ x).head?.any Text.isAlphabetic) = true := by
      rw [Bool.and_eq_true, Bool.not_eq_true'] at hc ⊢
      refine ⟨hc.1, Bool.eq_false_iff.mpr fun hletter => ?_⟩
      have hbegins := append_prefix_of_append_eq List.takeWhile_append_dropWhile h
      exact Bool.eq_false_iff.mp hc.2 (any_head?_of_isPrefix hbegins hletter)
    rw [List.cons_append, fractionPart, if_pos hstop, takeWhile_append_of_isPrefix h,
      dropWhile_append_of_isPrefix h]
  -- no fraction, and none is made of what is left
  | case3 c cs hc =>
    cases x with
    | nil => rfl
    | cons d x =>
      have hd : d ≠ '.' := fun hd => hpoint (congrArg some hd)
      simp [fractionPart, hd]

/-- An exponent does not start with a full stop. -/
theorem head?_exponentPart_ne (cs : List Char) : (exponentPart cs).1.head? ≠ some '.' := by
  fun_cases exponentPart cs with
  | case1 c d cs hc hd =>
    rintro ⟨⟩
    simp at hc
  | case2 c d cs hc hd hsign =>
    rintro ⟨⟩
    simp at hc
  | _ => exact (Option.some_ne_none '.').symm

/-- An exponent is read alone as it was read in its text. -/
theorem exponentPart_alone (cs : List Char) :
    exponentPart (exponentPart cs).1 = ((exponentPart cs).1, []) := by
  fun_cases exponentPart cs with
  | case1 c d cs hc hd =>
    rw [exponentPart, if_pos hc, if_pos hd, List.takeWhile_idem, dropWhile_takeWhile]
  | case2 c d cs hc hd hsign =>
    have hdigit : ((d = '+' || d = '-') &&
        (cs.takeWhile Char.isDigit).head?.any Char.isDigit) = true := by
      rw [Bool.and_eq_true] at hsign ⊢
      refine ⟨hsign.1, ?_⟩
      cases cs with
      | nil => exact hsign.2
      | cons e cs => rw [List.takeWhile_cons_of_pos (p := Char.isDigit) hsign.2]; exact hsign.2
    rw [exponentPart, if_pos hc, if_neg hd, if_pos hdigit, List.takeWhile_idem,
      dropWhile_takeWhile]
  | _ => rfl

/-- A number is read alone as it was read in its text. -/
theorem numberLexeme_alone (cs : List Char) :
    numberLexeme (numberLexeme cs).taken = (numberLexeme cs).alone := by
  -- every part stands in front of a beginning of the text behind it
  have hexponent : (exponentPart (fractionPart ((signPart cs).2.dropWhile Char.isDigit)).2).1 <+:
      (fractionPart ((signPart cs).2.dropWhile Char.isDigit)).2 :=
    ⟨_, exponentPart_append _⟩
  have hfraction := append_prefix_of_append_eq (fractionPart_append _) hexponent
  have hdigits := append_prefix_of_append_eq List.takeWhile_append_dropWhile hfraction
  simp only [numberLexeme, Lexeme.alone, signPart_append_of_isPrefix hdigits,
    takeWhile_append_of_isPrefix hfraction, dropWhile_append_of_isPrefix hfraction,
    fractionPart_append_of_isPrefix hexponent (head?_exponentPart_ne _), exponentPart_alone]

end

-- ---------------------------------------------------------------------------
-- Strings, words, colors, comments and operators
-- ---------------------------------------------------------------------------

/-- The inside of a string literal is read alone as it was read in its text, closed or not. -/
theorem stringBody_alone (quote : Char) (cs : List Char) :
    stringBody quote (stringBody quote cs).2.1 =
      ((stringBody quote cs).1, (stringBody quote cs).2.1, []) := by
  induction cs using stringBody.induct quote with
  | case1 => rfl
  | case2 cs =>
    rw [stringBody_newline]
    rfl
  | case3 => rfl
  | case4 ds =>
    rw [stringBody_backslash_newline]
    rfl
  | case5 d ds hd _ _ _ _ _ ih =>
    rw [stringBody_escaped quote hd, stringBody_escaped quote hd, ih]
  | case6 ds hnewline hslash =>
    rw [stringBody_quote ⟨hnewline, hslash⟩, stringBody_quote ⟨hnewline, hslash⟩]
  | case7 c cs hc hslash hquote _ _ _ _ ih =>
    rw [stringBody_plain ⟨hc, hslash, hquote⟩, stringBody_plain ⟨hc, hslash, hquote⟩, ih]

/-- A string takes its quote and its body. -/
theorem stringLexeme_taken (quote : Char) (cs : List Char) :
    (stringLexeme quote cs).taken = quote :: (stringBody quote cs).2.1 := by
  rw [stringLexeme]
  rcases stringBody quote cs with ⟨contents, taken, rest⟩
  cases contents <;> rfl

/-- A string alone reads the same. -/
theorem stringLexeme_alone (quote : Char) (cs : List Char) :
    stringLexeme quote (stringBody quote cs).2.1 = (stringLexeme quote cs).alone := by
  rw [stringLexeme, stringLexeme, stringBody_alone]
  rcases stringBody quote cs with ⟨contents, taken, rest⟩
  cases contents <;> rfl

/-- A word alone reads the same. -/
theorem wordLexeme_alone (cs : List Char) :
    wordLexeme (wordLexeme cs).taken = (wordLexeme cs).alone := by
  simp only [wordLexeme, Lexeme.alone, List.takeWhile_idem, dropWhile_takeWhile]

/-- A colour alone reads the same. -/
theorem colorLexeme_alone (cs : List Char) :
    colorLexeme (cs.takeWhile isWordChar) = (colorLexeme cs).alone := by
  simp only [colorLexeme, Lexeme.alone, List.takeWhile_idem, dropWhile_takeWhile]

/-- A comment of a line alone reads the same. -/
theorem lineCommentLexeme_alone (cs : List Char) :
    lineCommentLexeme (lineCommentLexeme cs).taken = (lineCommentLexeme cs).alone := by
  simp only [lineCommentLexeme, Lexeme.alone, List.takeWhile_idem, dropWhile_takeWhile]

/-- The inside of a block comment is read alone as it was read in its text, closed or not. -/
theorem blockBody_alone (cs : List Char) :
    blockBody (blockBody cs).1 = ((blockBody cs).1, []) := by
  by_cases h : (blockBody cs).2 = []
  · -- the comment takes all of the text
    have hcut := blockBody_append cs
    rw [h, List.append_nil] at hcut
    rw [hcut]
    exact Prod.ext hcut h
  · simpa using blockBody_ahead h []

/-- An operator or mark is read alone as it was read in its text. -/
theorem symbolLexeme_alone {c : Char} {cs w : List Char} :
    (symbolLexeme c cs).taken = c :: w → symbolLexeme c w = (symbolLexeme c cs).alone := by
  fun_cases symbolLexeme c cs with
  | case1 =>
    rintro ⟨⟩
    rfl
  | case2 d ds reading hpair =>
    rintro ⟨⟩
    simp only [symbolLexeme, hpair, Lexeme.alone]
  | case3 d ds hpair =>
    rintro ⟨⟩
    rfl

-- ---------------------------------------------------------------------------
-- Lexemes
-- ---------------------------------------------------------------------------

/-- What a lexeme takes is a beginning of the text. -/
theorem exists_taken_eq (c : Char) (cs : List Char) :
    ∃ w, (lexeme c cs).taken = c :: w ∧ w <+: cs := by
  have hcut := lexeme_taken_append_rest c cs
  obtain ⟨d, w, hw⟩ := List.exists_cons_of_ne_nil (lexeme_taken_ne_nil c cs)
  rw [hw, List.cons_append] at hcut
  obtain ⟨rfl, hbehind⟩ := List.cons.inj hcut
  exact ⟨w, hw, _, hbehind⟩

/-- What starts a number in a shorter text starts one in the longer text. -/
theorem startsNumber_of_isPrefix {c : Char} {w cs : List Char} (h : w <+: cs)
    (hstarts : startsNumber c w = true) : startsNumber c cs = true := by
  rw [startsNumber, Bool.or_eq_true, Bool.and_eq_true] at hstarts ⊢
  exact hstarts.imp_right (And.imp_right (any_head?_of_isPrefix h))

/-- A number takes what it is known by. -/
theorem startsNumber_taken {c : Char} {cs w : List Char} (hstarts : startsNumber c cs = true)
    (h : (numberLexeme (c :: cs)).taken = c :: w) : startsNumber c w = true := by
  by_cases hc : c = '-'
  · subst hc
    cases cs with
    | nil => cases hstarts
    | cons d ds =>
      have hd : d.isDigit = true := hstarts
      simp only [numberLexeme, signPart, if_pos, List.singleton_append, List.cons.injEq, true_and,
        List.takeWhile_cons_of_pos hd] at h
      rw [← h]
      exact hd
  · have hd : c.isDigit = true := by simpa [startsNumber, hc] using hstarts
    rw [startsNumber, hd, Bool.true_or]

/-- **Lexemes are read alone as they are read in their text.** What a lexeme takes is one
lexeme, and reads the same. -/
theorem lexeme_alone {c : Char} {cs w : List Char} (h : (lexeme c cs).taken = c :: w) :
    lexeme c w = (lexeme c cs).alone := by
  -- what is not found behind the first character is not found in what is left of it
  have hbegins : w <+: cs := by
    obtain ⟨w', hw', hbegins⟩ := exists_taken_eq c cs
    rwa [(List.cons.inj (h.symm.trans hw')).2]
  have hnumber := mt (startsNumber_of_isPrefix (c := c) hbegins)
  -- nor do two characters make a comment if they did not before
  have hpair : ∀ d, (c = '/' && w.head? = some d) = true →
      (c = '/' && cs.head? = some d) = true := by
    intro d
    simp only [Bool.and_eq_true, decide_eq_true_eq]
    exact And.imp_right (head?_of_isPrefix hbegins)
  revert h
  fun_cases lexeme c cs with
  | case1 hnewline =>
    rintro ⟨⟩
    rw [lexeme, if_pos hnewline]
    rfl
  | case2 hnewline hblank =>
    rintro ⟨⟩
    rw [lexeme, if_neg hnewline, if_pos hblank]
    rfl
  | case3 hnewline hblank hquote =>
    intro h
    rw [stringLexeme_taken] at h
    obtain rfl := (List.cons.inj h).2
    rw [lexeme, if_neg hnewline, if_neg hblank, if_pos hquote, stringLexeme_alone]
  | case4 hnewline hblank hquote hstarts =>
    intro h
    rw [lexeme, if_neg hnewline, if_neg hblank, if_neg hquote,
      if_pos (startsNumber_taken hstarts h), ← h, numberLexeme_alone]
  | case5 hnewline hblank hquote hstarts hword =>
    intro h
    rw [lexeme, if_neg hnewline, if_neg hblank, if_neg hquote, if_neg (hnumber hstarts),
      if_pos hword, ← h, wordLexeme_alone]
  | case6 hnewline hblank hquote hstarts hword hhash =>
    intro h
    obtain rfl := (List.cons.inj h).2
    rw [lexeme, if_neg hnewline, if_neg hblank, if_neg hquote, if_neg (hnumber hstarts),
      if_neg hword, if_pos hhash, colorLexeme_alone]
  | case7 hnewline hblank hquote hstarts hword hhash hline =>
    intro h
    rw [Bool.and_eq_true, decide_eq_true_eq, decide_eq_true_eq] at hline
    obtain ⟨rfl, hhead⟩ := hline
    obtain ⟨ds, rfl⟩ := List.head?_eq_some_iff.mp hhead
    rw [← lineCommentLexeme_alone]
    obtain rfl := (List.cons.inj h).2
    rfl
  | case8 hnewline hblank hquote hstarts hword hhash hline hblock =>
    intro h
    rw [Bool.and_eq_true, decide_eq_true_eq, decide_eq_true_eq] at hblock
    obtain ⟨rfl, hhead⟩ := hblock
    obtain ⟨ds, rfl⟩ := List.head?_eq_some_iff.mp hhead
    obtain rfl : '*' :: (blockBody ds).1 = w := (List.cons.inj h).2
    rw [lexeme_block, blockBody_alone]
    rfl
  | case9 hnewline hblank hquote hstarts hword hhash hline hblock =>
    intro h
    rw [lexeme, if_neg hnewline, if_neg hblank, if_neg hquote, if_neg (hnumber hstarts),
      if_neg hword, if_neg hhash, if_neg (mt (hpair '/') hline), if_neg (mt (hpair '*') hblock),
      symbolLexeme_alone h]

-- ---------------------------------------------------------------------------
-- Scripts of one token
-- ---------------------------------------------------------------------------

/-- What reads as something is no space. -/
theorem isSpace_of_reading {c : Char} {cs : List Char} (h : (lexeme c cs).reading ≠ none) :
    Text.isSpace c = false := by
  rw [Bool.eq_false_iff]
  intro hspace
  rcases eq_of_isSpace hspace with rfl | rfl <;> exact h rfl

/-- A script that starts with no blank starts with no mark of layout. -/
theorem openLine_start {c : Char} (hc : Text.isSpace c = false) (w : List Char) :
    openLine (start (c :: w)) = ([], start (c :: w)) := by
  have hneg : ¬ Text.isSpace c = true := Bool.eq_false_iff.mp hc
  have hfit : fitLine [0] (c :: w) = ([0], 0, false) := by
    rw [fitLine, List.takeWhile_cons_of_neg hneg, List.dropWhile_cons_of_neg hneg]
    split <;> rfl
  rw [start, openLine_eq_fitLine, hfit, List.takeWhile_cons_of_neg hneg,
    List.dropWhile_cons_of_neg hneg]
  rfl

/-- A script that is one lexeme reads as the token of the lexeme and the end of the file. -/
theorem tokens_of_lexeme {c : Char} {w : List Char} {reading : Reading}
    (h : lexeme c w = ⟨some reading, c :: w, []⟩) :
    tokens (c :: w) =
      [⟨reading, stretch [] (c :: w)⟩, ⟨.ok .endOfFile, stretch (c :: w) []⟩] := by
  have hreading : (lexeme c w).reading ≠ none := by
    rw [h]
    exact nofun
  have hspace : Text.isSpace c = false := isSpace_of_reading hreading
  have hscan : scan ⟨Position.after {} (c :: w), [0], []⟩ =
      [⟨.ok .endOfFile, stretch (c :: w) []⟩] := by
    rw [scan_nil, emptyAt_after]
    rfl
  rw [tokens, openLine_start hspace, start]
  -- the end of a line opens a line that is empty, any other lexeme does not
  by_cases hc : c = '\n'
  · subst hc
    cases h
    rw [scan_newline]
    exact congrArg (_ :: ·) hscan
  · rw [scan_cons _ _ _ hc, h]
    exact congrArg (_ :: ·) hscan

/-- A token that is spelled is read from a lexeme. -/
theorem Run.exists_lexeme {before rest : List Char} {tokens : List Lexed}
    (run : Run before rest tokens) {t : Lexed} (ht : t ∈ tokens)
    (hspelled : ∀ token, t.reading = .ok token → isUnspelled token = false) :
    ∃ front c cs, before ++ rest = front ++ c :: cs ∧
      (lexeme c cs).reading = some t.reading ∧ t.span = stretch front (lexeme c cs).taken := by
  cases run.readFrom t ht with
  | @lexeme front c cs reading cut reads =>
    exact ⟨before ++ front, c, cs, by rw [cut, List.append_assoc], reads, rfl⟩
  | dedent => cases hspelled _ rfl
  | indent => cases hspelled _ rfl
  | endOfFile => cases hspelled _ rfl

end PineCheck.Lexer

namespace PineCheck

/-- **Tokens do not depend on what is around them.** A token, fault or not, that is no mark of
layout and not the end of the file is cut out of its script: the piece reads as the same token,
which covers all of it, and the end of the file. -/
theorem lex_between {source : String} {t : Lexed} (ht : t ∈ lex source)
    (hlayout : t.reading ≠ .ok .indent ∧ t.reading ≠ .ok .dedent)
    (hend : t.reading ≠ .ok .endOfFile) :
    lex (String.ofList (Text.between source.toList t.span.start t.span.stop)) =
      [⟨t.reading, stretch [] (Text.between source.toList t.span.start t.span.stop)⟩,
        ⟨.ok .endOfFile, stretch (Text.between source.toList t.span.start t.span.stop) []⟩] := by
  have hspelled : ∀ token, t.reading = .ok token → Lexer.isUnspelled token = false := by
    intro token htoken
    rw [htoken] at hlayout hend
    cases token <;> simp_all [Lexer.isUnspelled]
  obtain ⟨front, c, cs, hcut, hreading, hspan⟩ :=
    (Lexer.lex_run source).exists_lexeme ht hspelled
  -- the piece is what the lexeme takes
  have hpiece : Text.between source.toList t.span.start t.span.stop =
      (Lexer.lexeme c cs).taken := by
    rw [List.nil_append] at hcut
    rw [hcut, ← Lexer.lexeme_taken_append_rest c cs, hspan, stretch_start, stretch_stop,
      Text.between_stretch]
  obtain ⟨w, hw, -⟩ := Lexer.exists_taken_eq c cs
  have halone := Lexer.lexeme_alone hw
  rw [Lexer.Lexeme.alone, hreading, hw] at halone
  rw [hpiece, hw, lex, String.toList_ofList]
  exact Lexer.tokens_of_lexeme halone

/-- A number that stands in front of a full stop and a letter is cut out without them. -/
theorem lex_between_number :
    ∃ t ∈ lex "x = 1.e\n", t.reading = .ok (.number "1") ∧ t.span = ⟨4, 5, 1, 4⟩ ∧
      lex (String.ofList (Text.between "x = 1.e\n".toList t.span.start t.span.stop)) =
        [⟨t.reading, stretch [] (Text.between "x = 1.e\n".toList t.span.start t.span.stop)⟩,
          ⟨.ok .endOfFile,
            stretch (Text.between "x = 1.e\n".toList t.span.start t.span.stop) []⟩] := by
  have hnumber : ∃ t ∈ lex "x = 1.e\n", t.reading = .ok (.number "1") ∧ t.span = ⟨4, 5, 1, 4⟩ := by
    decide +kernel
  obtain ⟨t, ht, hreading, hspan⟩ := hnumber
  have hlayout : t.reading ≠ .ok .indent ∧ t.reading ≠ .ok .dedent := by
    rw [hreading]
    decide
  have hend : t.reading ≠ .ok .endOfFile := by
    rw [hreading]
    decide
  exact ⟨t, ht, hreading, hspan, lex_between ht hlayout hend⟩

end PineCheck
