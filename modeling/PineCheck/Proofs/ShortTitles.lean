import PineCheck.Proofs.Introductions
import PineCheck.Proofs.Quotation

/-!
# PineCheck — short titles and string literals

The short title of a script is found as an argument in the masked text and cut out of
the script; its first and last characters are taken for the quotes of a string literal.
They are the quotes of one literal exactly if a single token touches the argument.

An argument begins in code (`Introduced.begins_in_code`), so if it begins with a quote,
the mask and the scan for tokens read the same string literal there. A token ends where
the argument ends, because the mask leaves only the quotes of a string, and there are two
of them in the argument.

* `literal_of_touched` — a quoted argument that only one token touches is a string literal.
* `analyze_shortTitles` — what is reported of short titles, and when it is a literal.
* `analyze_shortTitles_of_concatenation` — it may be a longer expression.
-/

namespace PineCheck

open Text (Slice mask maskFrom isAsciiBlank isWhite)

-- ---------------------------------------------------------------------------
-- Tokens and characters
-- ---------------------------------------------------------------------------

namespace Lexer

/-- A token that is not empty is what stands at the front of some part of the script, or the
mark of layout for the blanks there. -/
theorem Run.lexeme_of_mem {before rest : List Char} {tokens : List Lexed}
    (run : Run before rest tokens) {t : Lexed} (ht : t ∈ tokens)
    (hne : t.span.start < t.span.stop) :
    ∃ front c cs, before ++ rest = front ++ c :: cs ∧ t.span.start = byteLength front ∧
      (Text.isSpace c = true ∨ (lexeme c cs).reading = some t.reading ∧
        t.span = stretch front (lexeme c cs).taken) := by
  cases run.readFrom t ht with
  | @lexeme front c cs reading cut reads =>
    exact ⟨before ++ front, c, cs, by rw [cut, List.append_assoc], stretch_start ..,
      .inr ⟨reads, rfl⟩⟩
  | dedent => simp at hne
  | @indent front blanks behind cut spaces =>
    cases blanks with
    | nil => simp at hne
    | cons c cs =>
      exact ⟨before ++ front, c, cs ++ behind, by rw [cut, List.append_assoc, List.cons_append],
        stretch_start .., .inl (spaces c List.mem_cons_self)⟩
  | endOfFile => simp at hne

theorem isWordChar_of_isWhite {c : Char} (h : isWhite c = true) : isWordChar c = false := by
  rw [Bool.eq_false_iff]
  intro hword
  simp only [isWordChar, Char.isAlphanum, Char.isAlpha, Char.isUpper, Char.isLower, Char.isDigit,
    ge_iff_le, Bool.or_eq_true, Bool.and_eq_true, decide_eq_true_eq, beq_iff_eq,
    UInt32.le_iff_toNat_le] at hword
  have hval : c.val.toNat = c.toNat := rfl
  rcases hword with hword | rfl
  · simp [isWhite] at h hword
    omega
  · cases h

/-- White space that is no blank of ASCII reads as a single character. -/
theorem lexeme_white {c : Char} (hwhite : isWhite c = true) (hc : isAsciiBlank c = false)
    (cs : List Char) : (lexeme c cs).taken = [c] := by
  have hne (d : Char) (hd : (isWhite d = false || isAsciiBlank d) = true) : c ≠ d := by
    rintro rfl
    simp [hwhite, hc] at hd
  have hword := isWordChar_of_isWhite hwhite
  have hdigit : c.isDigit = false := by
    rw [isWordChar, Char.isAlphanum] at hword
    simp_all
  have hstart : isWordStart c = false :=
    Bool.eq_false_iff.mpr fun h => Bool.false_ne_true (hword ▸ isWordChar_of_isWordStart h)
  have hpair (d : Char) : pairReading? c d = none := by
    simp [pairReading?, hne ':' rfl, hne '=' rfl, hne '!' rfl, hne '<' rfl, hne '>' rfl,
      hne '+' rfl, hne '-' rfl, hne '*' rfl, hne '/' rfl, hne '%' rfl]
  have hsymbol : lexeme c cs = symbolLexeme c cs := by
    simp [lexeme, startsNumber, hdigit, hstart, hne '\n' rfl, hne ' ' rfl, hne '\t' rfl,
      hne '\r' rfl, hne '"' rfl, hne '\'' rfl, hne '-' rfl, hne '#' rfl, hne '/' rfl]
  rw [hsymbol]
  cases cs with
  | nil => rfl
  | cons d ds => rw [symbolLexeme, hpair d]

end Lexer

theorem isBlankByte_of_utf8EncodeChar {c : Char} {b : UInt8} (hb : b ∈ String.utf8EncodeChar c)
    (h : Lexer.isBlankByte b = true) : isAsciiBlank c = true := by
  simp only [Lexer.isBlankByte, Bool.or_eq_true, decide_eq_true_eq] at h
  rcases Indexed.utf8EncodeChar_cases c with ⟨-, b', hbyte, rfl⟩ | ⟨-, hhigh⟩
  · rw [hbyte, List.mem_singleton] at hb
    subst hb
    rcases h with (rfl | rfl) | rfl <;> decide
  · have hge : 128 ≤ b.toNat := hhigh b hb
    rcases h with (rfl | rfl) | rfl <;> exact absurd hge (by decide)

/-- A token covers every character that is no blank. -/
theorem exists_token_covering {source : String} {before behind : List Char} {c : Char}
    (h : source.toList = before ++ c :: behind) (hc : isAsciiBlank c = false) :
    ∃ t ∈ lex source, t.span.Covers (byteLength before) := by
  have hlt : byteLength before < byteLength source.toList := by
    have hpos := c.utf8Size_pos
    rw [h, byteLength_append, byteLength_cons]
    omega
  rcases (Lexer.lex_run source).coveredOrBlank _ hlt with hcovered | ⟨b, hbyte, hblank⟩
  · simpa using hcovered
  · obtain ⟨first, hfirst, bytes, hbytes⟩ := Indexed.exists_utf8EncodeChar_cons c
    rw [h, Indexed.utf8_getElem?_append, utf8_cons, hbytes] at hbyte
    cases hbyte
    rw [isBlankByte_of_utf8EncodeChar hfirst hblank] at hc
    cases hc

/-- Only one token covers a place. -/
theorem token_unique {source : String} {t u : Lexed} (ht : t ∈ lex source) (hu : u ∈ lex source)
    {i : Nat} (hti : t.span.Covers i) (hui : u.span.Covers i) : u = t := by
  obtain ⟨j, hj, rfl⟩ := List.mem_iff_getElem.mp ht
  obtain ⟨k, hk, rfl⟩ := List.mem_iff_getElem.mp hu
  have hordered := List.pairwise_iff_getElem.mp (Lexer.lex_run source).pairwise_precedes
  have hnot {j k : Nat} (hj : j < (lex source).length) (hk : k < (lex source).length)
      (hjk : j < k) (hji : (lex source)[j].span.Covers i) (hki : (lex source)[k].span.Covers i) :
      False := by
    have hbefore := (hordered j k hj hk hjk).2
    rw [Span.Covers] at hji hki
    omega
  rcases Nat.lt_trichotomy j k with hlt | rfl | hlt
  · exact (hnot hj hk hlt hti hui).elim
  · rfl
  · exact (hnot hk hj hlt hui hti).elim

-- ---------------------------------------------------------------------------
-- Quotes
-- ---------------------------------------------------------------------------

theorem isWhite_of_isQuote {quote : Char} (h : quote = '"' ∨ quote = '\'') :
    isWhite quote = false ∧ isAsciiBlank quote = false := by
  rcases h with rfl | rfl <;> decide

/-- What stands between the quotes of a text that is trimmed. -/
theorem Text.unquote?_eq_some {cs title : List Char} (h : unquote? cs = some title) :
    ∃ front quote behind, cs = front ++ quote :: (title ++ quote :: behind) ∧
      (quote = '"' ∨ quote = '\'') ∧ ∀ c ∈ front, isWhite c = true := by
  rw [unquote?, trim, trimEnd, trimStart] at h
  obtain ⟨behind, hbehind, -⟩ := Indexed.dropEndWhile_spec isWhite (cs.dropWhile isWhite)
  split at h
  · cases h
  · next quote rest heq =>
    rw [heq] at hbehind
    split at h
    · next hquoted =>
      cases h
      simp only [Bool.and_eq_true, Bool.or_eq_true, decide_eq_true_eq] at hquoted
      obtain ⟨hquote, hlast⟩ := hquoted
      refine ⟨cs.takeWhile isWhite, quote, behind, ?_, hquote,
        fun c hc => List.mem_takeWhile_imp hc⟩
      have hrest := List.dropLast_append_getLast? quote hlast
      calc cs = cs.takeWhile isWhite ++ cs.dropWhile isWhite :=
            List.takeWhile_append_dropWhile.symm
        _ = cs.takeWhile isWhite ++ (quote :: (rest.dropLast ++ [quote]) ++ behind) := by
            rw [hbehind, hrest]
        _ = _ := by simp
    · cases h

/-- The quotes of a string literal are taken off. -/
theorem Text.unquote?_quoted {quote : Char} (h : quote = '"' ∨ quote = '\'')
    (inner : List Char) : unquote? (quote :: (inner ++ [quote])) = some inner := by
  have hwhite := (isWhite_of_isQuote h).1
  have htrim : trim (quote :: (inner ++ [quote])) = quote :: (inner ++ [quote]) := by
    simp [trim, trimEnd, trimStart, dropEndWhile, hwhite]
  have hlast : (inner ++ [quote]).getLast? = some quote := List.getLast?_concat ..
  rw [unquote?, htrim]
  simp [h, hlast]

theorem byteLength_flatMap_blanked (cs : List Char) :
    byteLength (cs.flatMap Text.blanked) = byteLength cs := by
  rw [← length_utf8, utf8_flatMap_blanked, List.length_replicate]

/-- A character that is left by the mask stands at the same place of the text. -/
theorem exists_char_of_maskFrom {cs front later : List Char} {c : Char}
    (h : maskFrom .code cs = front ++ c :: later) (hc : c ≠ ' ') :
    ∃ before behind, cs = before ++ c :: behind ∧ byteLength before = byteLength front := by
  have hcut : Indexed.CleanCut front (c :: later) := .inr fun hspace => hc (Option.some.inj hspace)
  obtain ⟨before, left, region, rfl, hlength, hmask, -⟩ := Indexed.maskFrom_cut h trivial hcut
  obtain ⟨behind, rfl⟩ := @Text.maskFrom_word region left [c] later hmask
    (by simpa [eq_comm] using hc)
  exact ⟨before, behind, rfl, hlength⟩

/-- What is no blank stands behind all that is blanked. -/
theorem append_of_flatMap_blanked {inner rest front later : List Char} {c : Char}
    (h : inner.flatMap Text.blanked ++ rest = front ++ c :: later) (hc : c ≠ ' ') :
    ∃ gap, front = inner.flatMap Text.blanked ++ gap ∧ rest = gap ++ c :: later := by
  refine exists_append_of_notMem h fun hmem => ?_
  obtain ⟨d, -, hd⟩ := List.mem_flatMap.mp hmem
  exact hc (List.eq_of_mem_replicate hd)

open Lexer in
/-- If behind the first quote of a string literal something is left by the mask, the literal
is closed and ends there. -/
theorem stringLexeme_of_masked {quote c : Char} {cs front later : List Char}
    (hquote : quote = '"' ∨ quote = '\'')
    (h : maskFrom .code (quote :: cs) = quote :: (front ++ c :: later))
    (hc : c ≠ ' ') (hlt : byteLength (quote :: front) < byteLength (stringLexeme quote cs).taken) :
    ∃ contents inner, (stringLexeme quote cs).reading = some (.ok (.string contents)) ∧
      (stringLexeme quote cs).taken = quote :: (inner ++ [quote]) ∧
      byteLength (front ++ [c]) = byteLength (inner ++ [quote]) := by
  have hopen : maskFrom .code (quote :: cs) = quote :: maskFrom (.string quote) cs := by
    rcases hquote with rfl | rfl <;> simp [maskFrom, Text.maskChar]
  rw [hopen] at h
  have hmask := (List.cons.inj h).2
  have hbody := maskFrom_string hquote cs
  rw [stringLexeme] at hlt ⊢
  generalize stringBody quote cs = body at hbody hlt ⊢
  obtain ⟨_ | contents, taken, rest⟩ := body
  · -- all of an unclosed string is blanked
    rw [show maskFrom (.string quote) cs = _ from hbody] at hmask
    obtain ⟨gap, rfl, -⟩ := append_of_flatMap_blanked hmask hc
    simp only [byteLength_cons, byteLength_append, byteLength_flatMap_blanked] at hlt
    omega
  · obtain ⟨inner, rfl, hclosed⟩ := hbody
    rw [hclosed] at hmask
    obtain ⟨gap, rfl, hgap⟩ := append_of_flatMap_blanked hmask hc
    cases gap with
    | nil =>
      obtain ⟨rfl, -⟩ := List.cons.inj hgap
      refine ⟨_, inner, rfl, rfl, ?_⟩
      simp only [List.append_nil, byteLength_append, byteLength_flatMap_blanked]
    | cons d ds =>
      -- the scan goes on behind the closing quote
      obtain ⟨rfl, -⟩ := List.cons.inj hgap
      simp only [byteLength_cons, byteLength_append, byteLength_flatMap_blanked,
        byteLength_nil] at hlt
      omega

-- ---------------------------------------------------------------------------
-- Tokens that stand alone
-- ---------------------------------------------------------------------------

/-- A token begins a span, and no other token touches the span. -/
structure StandsAlone (source : String) (t : Lexed) (span : Span) : Prop where
  mem : t ∈ lex source
  start : t.span.start = span.start
  only : ∀ u ∈ lex source, ∀ i, u.span.Covers i → span.Covers i → u = t

/-- What has the span of a token stands alone. -/
theorem StandsAlone.of_span {source : String} {t : Lexed} (ht : t ∈ lex source) :
    StandsAlone source t t.span :=
  ⟨ht, rfl, fun _ hu _ hui hti => token_unique ht hu hti hui⟩

namespace StandsAlone

variable {source : String} {t : Lexed} {before inside behind : List Char}

/-- It covers every character of the span that is no blank. -/
theorem reaches (h : StandsAlone source t (stretch before inside))
    (hscript : source.toList = before ++ (inside ++ behind)) {x y : List Char} {c : Char}
    (hx : inside ++ behind = x ++ c :: y) (hc : isAsciiBlank c = false)
    (hlt : byteLength x < byteLength inside) :
    byteLength before + byteLength x < t.span.stop := by
  have hplace : source.toList = (before ++ x) ++ c :: y := by
    rw [hscript, hx, List.append_assoc]
  obtain ⟨u, hu, hcovers⟩ := exists_token_covering hplace hc
  rw [byteLength_append] at hcovers
  have hinside : (stretch before inside).Covers (byteLength before + byteLength x) := by
    rw [Span.Covers, stretch_start, stretch_stop]
    omega
  rw [h.only u hu _ hcovers hinside] at hcovers
  exact hcovers.2

/-- If the span begins with a character that is no blank, the token is the lexeme there. -/
theorem lexeme_eq (h : StandsAlone source t (stretch before inside)) {c : Char} {cs : List Char}
    (hscript : source.toList = before ++ (inside ++ behind)) (hcs : inside ++ behind = c :: cs)
    (hinside : inside ≠ []) (hc : isAsciiBlank c = false) :
    (Lexer.lexeme c cs).reading = some t.reading ∧
      t.span = stretch before (Lexer.lexeme c cs).taken := by
  have hstart : t.span.start = byteLength before := h.start.trans (stretch_start ..)
  have hnonempty : t.span.start < t.span.stop := by
    have hpos : 0 < byteLength inside :=
      Nat.pos_of_ne_zero fun hzero => hinside ((byteLength_eq_zero_iff inside).mp hzero)
    have hfirst := h.reaches hscript (x := []) hcs hc hpos
    rwa [byteLength_nil, Nat.add_zero, ← hstart] at hfirst
  obtain ⟨_, d, ds, hcut, hfront, hlexeme⟩ :=
    (Lexer.lex_run source).lexeme_of_mem h.mem hnonempty
  rw [List.nil_append] at hcut
  obtain rfl := eq_of_byteLength_eq hscript hcut (hstart.symm.trans hfront)
  obtain ⟨rfl, rfl⟩ := List.cons.inj (hcs.symm.trans
    (List.append_cancel_left (hscript.symm.trans hcut)))
  rcases hlexeme with hspace | hlexeme
  · simp only [Text.isSpace, isAsciiBlank, Bool.or_eq_true, Bool.or_eq_false_iff,
      decide_eq_true_eq, decide_eq_false_iff_not] at hspace hc
    tauto
  · exact hlexeme

end StandsAlone

-- ---------------------------------------------------------------------------
-- Quoted arguments
-- ---------------------------------------------------------------------------

/-- A trimmed argument of a masked script, and the piece of the script at its place: the
piece is read between quotes as `title`. -/
structure Titled (source : String) (s : Slice) (before inside behind title : List Char) :
    Prop where
  script : source.toList = before ++ (inside ++ behind)
  offset : byteLength before = s.offset
  length : byteLength inside = byteLength s.text
  introduced : Introduced (mask source.toList) s
  first : ∀ c ∈ s.text.head?, isAsciiBlank c = false
  last : ∀ c ∈ s.text.getLast?, isAsciiBlank c = false
  title : Text.unquote? inside = some title

namespace Titled

variable {source : String} {s : Slice} {before inside behind title : List Char} {t : Lexed}

/-- The piece has at least the two quotes. -/
theorem two_le (h : Titled source s before inside behind title) : 2 ≤ byteLength inside := by
  obtain ⟨front, quote, tail, hinside, -⟩ := Text.unquote?_eq_some h.title
  have hpos := quote.utf8Size_pos
  rw [hinside]
  simp only [byteLength_append, byteLength_cons]
  omega

theorem inside_ne_nil (h : Titled source s before inside behind title) : inside ≠ [] := by
  rintro rfl
  have htwo := h.two_le
  simp at htwo

/-- It begins in code, with a character that is no blank. -/
theorem begins_in_code (h : Titled source s before inside behind title) :
    ∃ c rest cs later, s.text = c :: rest ∧ isAsciiBlank c = false ∧ inside ++ behind = c :: cs ∧
      maskFrom .code (c :: cs) = s.text ++ later := by
  obtain ⟨c, rest, htext⟩ : ∃ c rest, s.text = c :: rest := by
    refine List.exists_cons_of_ne_nil fun hnil => ?_
    have htwo := h.two_le
    rw [h.length, hnil] at htwo
    simp at htwo
  have hc : isAsciiBlank c = false := h.first c (by rw [htext]; rfl)
  obtain ⟨_, cs, later, hcut, hsame, hmask⟩ := h.introduced.begins_in_code htext hc
  obtain rfl := eq_of_byteLength_eq h.script hcut (h.offset.trans hsame.symm)
  exact ⟨c, rest, cs, later, htext, hc, List.append_cancel_left (h.script.symm.trans hcut), hmask⟩

/-- If one token stands alone there, the piece begins with its quote: other white space would
be a token of its own. -/
theorem begins_with_quote (h : Titled source s before inside behind title)
    (ht : StandsAlone source t (stretch before inside)) :
    ∃ quote rest, inside = quote :: rest ∧ (quote = '"' ∨ quote = '\'') := by
  obtain ⟨front, quote, tail, hinside, hquote, hwhite⟩ := Text.unquote?_eq_some h.title
  cases front with
  | nil => exact ⟨quote, _, hinside, hquote⟩
  | cons c front =>
    obtain ⟨d, _, cs, _, -, hd, hcs, -⟩ := h.begins_in_code
    obtain rfl : c = d := by
      rw [hinside] at hcs
      exact (List.cons.inj hcs).1
    obtain ⟨-, hspan⟩ := ht.lexeme_eq h.script hcs h.inside_ne_nil hd
    rw [Lexer.lexeme_white (hwhite c List.mem_cons_self) hd] at hspan
    have hquoted : inside ++ behind =
        (c :: front) ++ quote :: (title ++ quote :: tail ++ behind) := by
      simp [hinside]
    have hreached := ht.reaches h.script hquoted (isWhite_of_isQuote hquote).2 (by
      have := quote.utf8Size_pos
      rw [hinside, byteLength_append, byteLength_cons quote]
      omega)
    rw [hspan, stretch_stop, byteLength_cons, byteLength_cons, byteLength_nil] at hreached
    omega

/-- **A quoted argument in which one token stands alone is a string literal.** -/
theorem literal (h : Titled source s before inside behind title)
    (ht : StandsAlone source t (stretch before inside)) :
    ∃ contents quote, t.reading = .ok (.string contents) ∧ t.span = stretch before inside ∧
      inside = quote :: (title ++ [quote]) ∧ (quote = '"' ∨ quote = '\'') := by
  obtain ⟨quote, _, hinside, hquote⟩ := h.begins_with_quote ht
  obtain ⟨c, rest, cs, later, htext, hc, hcs, hmask⟩ := h.begins_in_code
  obtain rfl : quote = c := by
    rw [hinside] at hcs
    exact (List.cons.inj hcs).1
  have hstring : Lexer.lexeme quote cs = Lexer.stringLexeme quote cs := by
    rcases hquote with rfl | rfl <;> rfl
  obtain ⟨hreading, hspan⟩ := ht.lexeme_eq h.script hcs h.inside_ne_nil hc
  rw [hstring] at hreading hspan
  have hlength := h.length
  obtain ⟨middle, last, rfl⟩ : ∃ middle last, rest = middle ++ [last] := by
    rcases List.eq_nil_or_concat rest with rfl | ⟨middle, last, hrest⟩
    · have htwo := h.two_le
      have hone : quote.utf8Size = 1 := by rcases hquote with rfl | rfl <;> rfl
      rw [h.length, htext, byteLength_cons, hone] at htwo
      simp at htwo
    · exact ⟨middle, last, by rw [hrest, List.concat_eq_append]⟩
  have hlast : isAsciiBlank last = false :=
    h.last last (by rw [htext, ← List.cons_append, List.getLast?_concat]; rfl)
  have hne : last ≠ ' ' := by
    rintro rfl
    cases hlast
  rw [htext, List.cons_append, List.append_assoc, List.singleton_append] at hmask
  rw [htext, ← List.cons_append, byteLength_append] at hlength
  -- the last character of the argument belongs to the token, which is closed there
  obtain ⟨upTo, beyond, hupTo, hsize⟩ :=
    @exists_char_of_maskFrom _ (quote :: middle) later last hmask hne
  have hreached := ht.reaches h.script (hcs.trans hupTo) hlast (by
    have := last.utf8Size_pos
    rw [hlength, hsize, byteLength_cons last]
    omega)
  rw [hspan, stretch_stop, hsize] at hreached
  obtain ⟨contents, inner, hclosed, htaken, hends⟩ :=
    stringLexeme_of_masked hquote hmask hne (Nat.lt_of_add_lt_add_left hreached)
  have hequal : inside = quote :: (inner ++ [quote]) := by
    have hcut : quote :: cs =
        quote :: (inner ++ [quote]) ++ (Lexer.stringLexeme quote cs).rest := by
      rw [← htaken, ← hstring, Lexer.lexeme_taken_append_rest]
    refine eq_of_byteLength_eq hcs.symm hcut ?_
    rw [hlength, byteLength_cons, byteLength_cons quote (inner ++ _), ← hends,
      byteLength_append, Nat.add_assoc]
  have htitle := h.title
  rw [hequal, Text.unquote?_quoted hquote] at htitle
  cases htitle
  refine ⟨contents, quote, Option.some.inj (hreading.symm.trans hclosed), ?_, hequal, hquote⟩
  rw [hspan, htaken, hequal]

end Titled

-- ---------------------------------------------------------------------------
-- Short titles
-- ---------------------------------------------------------------------------

/-- A trimmed slice has no blanks at its ends. -/
theorem trim_ends (s : Slice) :
    (∀ c ∈ s.trim.text.head?, isAsciiBlank c = false) ∧
      ∀ c ∈ s.trim.text.getLast?, isAsciiBlank c = false := by
  obtain ⟨tail, hcut, -, hlast⟩ :=
    Indexed.dropEndWhile_spec isAsciiBlank (s.text.dropWhile isAsciiBlank)
  refine ⟨fun c hc => ?_, hlast⟩
  refine @Indexed.not_of_mem_head?_dropWhile _ s.text _ ?_
  rw [hcut]
  exact List.mem_head?_append_of_mem_head? hc

namespace Check

/-- The short title of a call site is a trimmed argument behind a mark. -/
theorem introduced_of_shortTitle? {text : List Char} {site : Text.CallSite} {part : Slice}
    (hsite : site ∈ Text.callSites text) (h : Declaration.shortTitle? site = some part) :
    Introduced text part ∧ ∃ piece : Slice, part = piece.trim := by
  have hparts := Introduced.of_mem_callSites hsite
  obtain ⟨argument, hnamed, rfl⟩ | hmem := Indexed.exists_of_shortTitle? h
  · obtain ⟨other, hother, hargument⟩ := List.mem_filterMap.mp hnamed
    obtain ⟨_, _, -, -, hvalue⟩ := Indexed.exists_equals_of_namedArgument? hargument
    exact ⟨(hparts.of_mem_splitArguments hother).value hargument, _, hvalue⟩
  · obtain ⟨piece, -, hpiece⟩ := Indexed.exists_piece_of_mem_splitArguments hmem
    exact ⟨hparts.of_mem_splitArguments hmem, piece, hpiece⟩

/-- A finding about a short title is at a titled piece of the script. -/
theorem titled_of_checkShortTitle? {source : String} {limit : Nat} {site : Text.CallSite}
    {finding : Finding} (hsite : site ∈ Text.callSites (mask source.toList))
    (h : Declaration.checkShortTitle? limit source.toList site = some finding) :
    ∃ s before inside behind title, Titled source s before inside behind title ∧
      finding.span = stretch before inside ∧
      finding.cause.text? "shorttitle" = some (String.ofList title) := by
  rw [Declaration.checkShortTitle?] at h
  obtain ⟨part, hpart, h⟩ := Option.bind_eq_some_iff.mp h
  obtain ⟨title, htitle, h⟩ := Option.bind_eq_some_iff.mp h
  obtain ⟨hintro, piece, rfl⟩ := introduced_of_shortTitle? hsite hpart
  obtain ⟨before, inside, behind, hscript, hoffset, hstop⟩ :=
    (Indexed.delimited_of_shortTitle? hsite hpart).exists_piece
  have hlength : byteLength inside = byteLength piece.trim.text := by
    rw [Slice.stop] at hstop
    omega
  have hbetween := Text.between_stretch before inside behind
  rw [← hscript, hoffset, hlength] at hbetween
  rw [Slice.stop, hbetween] at htitle
  split at h
  · cases h
  · cases h
    obtain ⟨hfirst, hlast⟩ := trim_ends piece
    refine ⟨piece.trim, before, inside, behind, title,
      ⟨hscript, hoffset, hlength, hintro, hfirst, hlast, htitle⟩, ?_, rfl⟩
    have hlocate := locate_stretch before inside behind
    rw [← hscript, hoffset, hlength] at hlocate
    rw [Slice.stop, Nat.add_sub_cancel_left]
    exact hlocate

end Check

-- ---------------------------------------------------------------------------
-- The analysis
-- ---------------------------------------------------------------------------

/-- A finding about a short title is about one string literal: it has the span of the
literal, and tells the text between its quotes. -/
def Finding.OnLiteral (source : String) (finding : Finding) : Prop :=
  ∃ t ∈ lex source, (∃ contents, t.reading = .ok (.string contents)) ∧ t.span = finding.span ∧
    finding.cause.text? "shorttitle" =
      some (String.ofList (Text.between source.toList (t.span.start + 1) (t.span.stop - 1)))

/-- What a finding says of a short title: it tells what the text at its place is between
quotes, and that is one string literal exactly if a token stands alone there. -/
structure Finding.TellsTitle (source : String) (finding : Finding) : Prop where
  title : ∃ title, finding.cause.text? "shorttitle" = some (String.ofList title) ∧
    Text.unquote? (Text.between source.toList finding.span.start finding.span.stop) = some title
  literal_iff : finding.OnLiteral source ↔ ∃ t, StandsAlone source t finding.span

/-- A finding at a title that is quoted in the script tells what stands between the quotes. -/
theorem Titled.tellsTitle {source : String} {s : Slice} {before inside behind title : List Char}
    {finding : Finding} (h : Titled source s before inside behind title)
    (hspan : finding.span = stretch before inside)
    (htitle : finding.cause.text? "shorttitle" = some (String.ofList title)) :
    finding.TellsTitle source where
  title := by
    refine ⟨title, htitle, ?_⟩
    rw [hspan, stretch_start, stretch_stop, h.script, Text.between_stretch]
    exact h.title
  literal_iff := by
    constructor
    case mp =>
      rintro ⟨t, ht, -, hsame, -⟩
      exact ⟨t, hsame ▸ .of_span ht⟩
    case mpr =>
      rintro ⟨t, ht⟩
      rw [hspan] at ht
      obtain ⟨contents, quote, hreading, htspan, hinside, hquote⟩ := h.literal ht
      refine ⟨t, ht.mem, ⟨contents, hreading⟩, htspan.trans hspan.symm, ?_⟩
      have hone : quote.utf8Size = 1 := by rcases hquote with rfl | rfl <;> rfl
      have hscript : source.toList = (before ++ [quote]) ++ (title ++ quote :: behind) := by
        rw [h.script, hinside]
        simp
      have hstart : t.span.start + 1 = byteLength (before ++ [quote]) := by
        rw [htspan, stretch_start, byteLength_append, byteLength_cons, hone]
        rfl
      have hstop : t.span.stop - 1 = byteLength (before ++ [quote]) + byteLength title := by
        rw [htspan, stretch_stop, hinside]
        simp only [byteLength_append, byteLength_cons, byteLength_nil, hone]
        omega
      rw [htitle, hstart, hstop, hscript, Text.between_stretch]

/-- Whatever a check finds about a short title. -/
theorem Check.run_tellsTitle (check : Check) {source : String} {program : Program}
    {settings : Settings} {findings : List Finding}
    (hrun : check.run (.ofSource source program settings) = .ok findings) {finding : Finding}
    (h : finding ∈ findings) (hrule : finding.rule = .shortTitleTooLong) :
    finding.TellsTitle source := by
  have hmem := run_rule_mem _ hrun h
  have honly : ∀ check : Check, .shortTitleTooLong ∈ check.ownRules → check = .shortTitle := by
    intro check
    cases check <;> decide
  obtain rfl := honly check (hrule ▸ hmem)
  cases hrun
  obtain ⟨site, hsite, hfinding⟩ := List.mem_filterMap.mp h
  obtain ⟨s, before, inside, behind, title, htitled, hspan, htitle⟩ :=
    titled_of_checkShortTitle? (Indexed.mem_callSites_of_mem_declarations hsite) hfinding
  exact htitled.tellsTitle hspan htitle

/-- **What is reported of short titles.** Whatever the rules are, every finding of an analysis
and of a check alone that a short title is too long tells what stands between quotes at its
place. That is the inside of one string literal, which has the span of the finding, exactly if
a token begins at its place and no other one touches the place. -/
theorem analyze_shortTitles (source : String) (settings : Settings) :
    (∀ finding ∈ (analyze source settings).findings, finding.rule = .shortTitleTooLong →
      finding.TellsTitle source) ∧
    ∀ check, ∀ finding ∈ (runSingle check source settings).findings,
      finding.rule = .shortTitleTooLong → finding.TellsTitle source := by
  have hsingle : ∀ check, ∀ finding ∈ (runSingle check source settings).findings,
      finding.rule = .shortTitleTooLong → finding.TellsTitle source := by
    intro check finding hfinding hrule
    obtain ⟨findings, hrun⟩ := check.exists_run_eq_ok
      (.ofSource source (parse source settings.allowed).program settings)
    rw [check.runSingle_findings source settings hrun] at hfinding
    exact check.run_tellsTitle hrun hfinding hrule
  refine ⟨fun finding hfinding => ?_, hsingle⟩
  rw [analyze_findings] at hfinding
  obtain ⟨check, -, hreported⟩ := List.mem_flatMap.mp hfinding
  exact hsingle check finding (List.mem_filter.mp hreported).1

/-- A title behind a comment, in a script that is not in ASCII. -/
theorem analyze_shortTitles_sample :
    let script := "study(\"é\", shorttitle = /**/ \"much too long\")"
    ∃ finding ∈ (runSingle .shortTitle script {}).findings,
      finding.rule = .shortTitleTooLong ∧ finding.TellsTitle script := by
  intro script
  have hfound : ∃ finding ∈ (runSingle .shortTitle script {}).findings,
      finding.rule = .shortTitleTooLong := by
    decide +kernel
  obtain ⟨finding, hfinding, hrule⟩ := hfound
  exact ⟨finding, hfinding, hrule, (analyze_shortTitles script {}).2 _ finding hfinding hrule⟩

/-- **A title may be a longer expression.** The place that is reported is not one literal, and
what is told as the title is not the inside of one. -/
theorem analyze_shortTitles_of_concatenation :
    let script := "indicator(\"T\", \"abc\" + \"defghijk\")\n"
    ∃ finding ∈ (runSingle .shortTitle script {}).findings,
      finding.rule = .shortTitleTooLong ∧
      finding.cause.text? "shorttitle" = some "abc\" + \"defghijk" ∧
      ∀ t ∈ lex script, t.span ≠ finding.span := by
  decide +kernel

end PineCheck
