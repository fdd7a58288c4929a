import Mathlib
import PineCheck.Proofs.Lexing
import PineCheck.Text.Mask

/-!
# PineCheck — masking agrees with lexing

The mask and the lexer are two machines that read the same text. The mask goes
through it one character at a time and remembers what the next character belongs
to; the lexer takes whole lexemes. Both stay in step as long as no `*/` stands
outside of comments: behind each lexeme the mask is back in code.

* `maskFrom_string`, `maskFrom_lineComment`, `maskFrom_blockComment` — from inside
  a string or a comment the mask blanks what the lexer takes.
* `mask_lexeme` — the mask makes of a lexeme what `MaskedAs` says, and goes on
  behind it.

Main result:

* `mask_agrees_with_lex` — every byte of the masked text is what the token that
  covers it says it should be.
-/

namespace PineCheck

open Text Lexer

-- ---------------------------------------------------------------------------
-- The mask goes over a lexeme
-- ---------------------------------------------------------------------------

/-- A character of a comment: line breaks are kept. -/
def maskedInComment (c : Char) : List Char :=
  if c = '\n' then [c] else blanked c

/-- Whether the mask keeps all characters of a lexeme: it is neither a comment nor
a string, closed or not. -/
def keepsText : Option Reading → Bool
  | some (.ok (.comment _)) | some (.ok (.string _)) => false
  | some (.error .unterminatedString) => false
  | _ => true

/-- What the mask should make of the characters of a lexeme. -/
inductive MaskedAs : Option Reading → List Char → List Char → Prop
  | comment (text : String) (taken : List Char) :
      MaskedAs (some (.ok (.comment text))) taken (taken.flatMap maskedInComment)
  | closed (contents : String) {quote : Char} (inner : List Char)
      (isQuote : quote = '"' ∨ quote = '\'') :
      MaskedAs (some (.ok (.string contents))) (quote :: (inner ++ [quote]))
        (quote :: (inner.flatMap blanked ++ [quote]))
  | unclosed {quote : Char} (inner : List Char) (isQuote : quote = '"' ∨ quote = '\'') :
      MaskedAs (some (.error .unterminatedString)) (quote :: inner)
        (quote :: inner.flatMap blanked)
  | kept {reading : Option Reading} (taken : List Char) (keeps : keepsText reading = true) :
      MaskedAs reading taken taken

/-- Characters that the mask keeps in code whatever follows. -/
def isPlain (c : Char) : Bool :=
  c ≠ '/' && c ≠ '"' && c ≠ '\''

/-- A plain character is kept in code. -/
theorem maskFrom_plain {c : Char} (h : isPlain c = true) (cs : List Char) :
    maskFrom .code (c :: cs) = c :: maskFrom .code cs := by
  simp only [isPlain, Bool.and_eq_true, decide_eq_true_eq] at h
  simp [maskFrom, maskChar, h]

/-- Plain characters are kept in code. -/
theorem maskFrom_plain_append {a : List Char} (h : ∀ c ∈ a, isPlain c = true) (b : List Char) :
    maskFrom .code (a ++ b) = a ++ maskFrom .code b := by
  induction a with
  | nil => rfl
  | cons c cs ih =>
    rw [List.cons_append, maskFrom_plain (h c (List.mem_cons_self ..)),
      ih fun d hd => h d (List.mem_cons_of_mem _ hd)]
    rfl

/-- From inside a line comment the mask blanks the rest of the line. -/
theorem maskFrom_lineComment (cs : List Char) :
    maskFrom .lineComment cs = (cs.takeWhile (· != '\n')).flatMap maskedInComment ++
      maskFrom .code (cs.dropWhile (· != '\n')) := by
  induction cs with
  | nil => rfl
  | cons c cs ih =>
    by_cases hc : c = '\n'
    · simp [maskFrom, maskChar, hc]
    · simp [maskFrom, maskChar, hc, ih, maskedInComment]

/-- From inside a block comment the mask blanks everything up to its end, line
breaks apart. -/
theorem maskFrom_blockComment (cs : List Char) :
    maskFrom .blockComment cs =
      (blockBody cs).1.flatMap maskedInComment ++ maskFrom .code (blockBody cs).2 := by
  fun_induction blockBody cs with
  | case1 => rfl
  | case2 c cs hclose =>
    simp only [Bool.and_eq_true, decide_eq_true_eq] at hclose
    obtain ⟨rfl, hhead⟩ := hclose
    obtain ⟨rest, rfl⟩ := List.head?_eq_some_iff.mp hhead
    rfl
  | case3 c cs hclose taken rest hbody ih =>
    rw [hbody] at ih
    simp only [Bool.and_eq_true, decide_eq_true_eq] at hclose
    by_cases hc : c = '\n'
    · simp [maskFrom, maskChar, hc, ih, maskedInComment]
    · simp [maskFrom, maskChar, hc, hclose, ih, maskedInComment]

/-- The mask goes over a comment of a line. -/
theorem mask_lineCommentLexeme (cs : List Char) :
    let lexeme := lineCommentLexeme ('/' :: '/' :: cs)
    ∃ masked, MaskedAs lexeme.reading lexeme.taken masked ∧
      maskFrom .code ('/' :: '/' :: cs) = masked ++ maskFrom .code lexeme.rest := by
  -- the first slash is masked in code, and the second one in the comment
  have hopen : maskFrom .code ('/' :: '/' :: cs) =
      maskedInComment '/' ++ maskFrom .lineComment ('/' :: cs) := by
    simp [maskFrom, maskChar, maskedInComment]
  refine ⟨_, .comment _ _, ?_⟩
  rw [hopen, maskFrom_lineComment]
  simp [lineCommentLexeme]

/-- The mask goes over a comment of a block. -/
theorem mask_blockCommentLexeme (cs : List Char) :
    let lexeme := blockCommentLexeme ('/' :: '*' :: cs)
    ∃ masked, MaskedAs lexeme.reading lexeme.taken masked ∧
      maskFrom .code ('/' :: '*' :: cs) = masked ++ maskFrom .code lexeme.rest := by
  have hopen : maskFrom .code ('/' :: '*' :: cs) =
      ['/', '*'].flatMap maskedInComment ++ maskFrom .blockComment cs := by
    simp [maskFrom, maskChar, maskedInComment]
  refine ⟨_, .comment _ _, ?_⟩
  rw [hopen, maskFrom_blockComment]
  simp [blockCommentLexeme]

/-- What the mask should make of the text behind an opening quote, given what the
lexer takes of it: everything is blanked up to the closing quote, or up to where
the lexer gives up. -/
def StringMasked (quote : Char) (masked : List Char) :
    Option (List Char) × List Char × List Char → Prop
  | (none, taken, rest) => masked = taken.flatMap blanked ++ maskFrom .code rest
  | (some _, taken, rest) => ∃ inner, taken = inner ++ [quote] ∧
      masked = inner.flatMap blanked ++ quote :: maskFrom .code rest

/-- Masked characters in front of a masked string. -/
theorem StringMasked.append {quote : Char} {masked taken rest : List Char}
    {contents : Option (List Char)} (h : StringMasked quote masked (contents, taken, rest))
    (front : List Char) (f : List Char → List Char) :
    StringMasked quote (front.flatMap blanked ++ masked)
      (contents.map f, front ++ taken, rest) := by
  cases contents with
  | none =>
    show _ = _
    rw [show masked = _ from h, List.flatMap_append, List.append_assoc]
  | some contents =>
    obtain ⟨inner, rfl, rfl⟩ := h
    exact ⟨front ++ inner, by rw [List.append_assoc], by
      rw [List.flatMap_append, List.append_assoc]⟩

/-- From inside a string the mask blanks what the lexer takes, the closing quote
apart. -/
theorem maskFrom_string {quote : Char} (hquote : quote = '"' ∨ quote = '\'') (cs : List Char) :
    StringMasked quote (maskFrom (.string quote) cs) (stringBody quote cs) := by
  have hslash : quote ≠ '\\' := by rcases hquote with rfl | rfl <;> decide
  fun_induction stringBody quote cs with
  | case1 => rfl
  | case2 cs => rfl
  | case3 =>
    show _ = _
    simp [maskFrom, maskChar, hslash.symm]
  | case4 cs =>
    show _ = _
    simp [maskFrom, maskChar, hslash.symm]
  -- an escaped character is blanked with its backslash
  | case5 d ds hd contents taken rest hbody _ ih =>
    have hmask : maskFrom (.string quote) ('\\' :: d :: ds) =
        ['\\', d].flatMap blanked ++ maskFrom (.string quote) ds := by
      simp [maskFrom, maskChar, hd]
    rw [hmask]
    rw [hbody] at ih
    exact ih.append ['\\', d] _
  -- the quote that closes is kept
  | case6 cs hnl hslash =>
    exact ⟨[], rfl, by simp [maskFrom, maskChar, hnl, hslash]⟩
  | case7 c cs hnl hc hclose contents taken rest hbody ih =>
    have hmask : maskFrom (.string quote) (c :: cs) =
        [c].flatMap blanked ++ maskFrom (.string quote) cs := by
      simp [maskFrom, maskChar, hnl, hc, hclose]
    rw [hmask]
    rw [hbody] at ih
    exact ih.append [c] _

/-- The mask goes over a string literal. -/
theorem mask_stringLexeme {quote : Char} (hquote : quote = '"' ∨ quote = '\'')
    (cs : List Char) :
    ∃ masked, MaskedAs (stringLexeme quote cs).reading (stringLexeme quote cs).taken masked ∧
      maskFrom .code (quote :: cs) = masked ++ maskFrom .code (stringLexeme quote cs).rest := by
  have hopen : maskFrom .code (quote :: cs) = quote :: maskFrom (.string quote) cs := by
    rcases hquote with rfl | rfl <;> simp [maskFrom, maskChar]
  have hbody := maskFrom_string hquote cs
  unfold stringLexeme
  generalize stringBody quote cs = body at hbody ⊢
  obtain ⟨_ | contents, taken, rest⟩ := body
  · refine ⟨_, MaskedAs.unclosed taken hquote, ?_⟩
    rw [hopen, show maskFrom (.string quote) cs = _ from hbody]
    rfl
  · obtain ⟨inner, rfl, hmask⟩ := hbody
    refine ⟨_, MaskedAs.closed _ inner hquote, ?_⟩
    rw [hopen, hmask]
    simp

/-! ### Numbers, words, colors and symbols -/

/-- A character of a class that leaves out slashes and quotes is plain. -/
theorem isPlain_of {p : Char → Bool} {c : Char} (h : p c = true) (hslash : p '/' = false)
    (hdouble : p '"' = false) (hsingle : p '\'' = false) : isPlain c = true := by
  simp only [isPlain, Bool.and_eq_true, decide_eq_true_eq]
  refine ⟨⟨?_, ?_⟩, ?_⟩ <;>
    · rintro rfl
      simp_all

/-- The characters of words are plain. -/
theorem isPlain_of_isWordChar {c : Char} (h : isWordChar c = true) : isPlain c = true :=
  isPlain_of h rfl rfl rfl

theorem isPlain_of_isDigit {c : Char} (h : c.isDigit = true) : isPlain c = true :=
  isPlain_of h rfl rfl rfl

/-- A sign is plain. -/
theorem isPlain_of_mem_signPart {c : Char} {cs : List Char} (h : c ∈ (signPart cs).1) :
    isPlain c = true := by
  revert h
  fun_cases signPart cs with
  | case2 => simp +contextual [isPlain]
  | _ => rintro ⟨⟩

theorem isPlain_of_mem_takeWhile_isDigit {c : Char} {cs : List Char}
    (h : c ∈ cs.takeWhile Char.isDigit) : isPlain c = true :=
  isPlain_of_isDigit (List.mem_takeWhile_imp h)

/-- A fraction is made of plain characters. -/
theorem isPlain_of_mem_fractionPart {c : Char} {cs : List Char} (h : c ∈ (fractionPart cs).1) :
    isPlain c = true := by
  revert h
  fun_cases fractionPart cs with
  | case2 d cs hdot =>
    intro h
    simp only [Bool.and_eq_true, decide_eq_true_eq] at hdot
    rcases List.mem_cons.mp h with rfl | h
    · rw [hdot.1]
      rfl
    · exact isPlain_of_mem_takeWhile_isDigit h
  | _ => rintro ⟨⟩

/-- An exponent is made of plain characters. -/
theorem isPlain_of_mem_exponentPart {c : Char} {cs : List Char} (h : c ∈ (exponentPart cs).1) :
    isPlain c = true := by
  revert h
  fun_cases exponentPart cs with
  | case1 e d cs he hd =>
    intro h
    rcases List.mem_cons.mp h with rfl | h
    · rcases (by simpa using he : c = 'e' ∨ c = 'E') with rfl | rfl <;> rfl
    rcases List.mem_cons.mp h with rfl | h
    · exact isPlain_of_isDigit hd
    · exact isPlain_of_mem_takeWhile_isDigit h
  | case2 e d cs he hd hsign =>
    intro h
    rcases List.mem_cons.mp h with rfl | h
    · rcases (by simpa using he : c = 'e' ∨ c = 'E') with rfl | rfl <;> rfl
    rcases List.mem_cons.mp h with rfl | h
    · simp only [Bool.and_eq_true, Bool.or_eq_true, decide_eq_true_eq] at hsign
      rcases hsign.1 with rfl | rfl <;> rfl
    · exact isPlain_of_mem_takeWhile_isDigit h
  | _ => rintro ⟨⟩

/-- Numbers are made of plain characters. -/
theorem isPlain_of_mem_numberLexeme {c : Char} {cs : List Char}
    (h : c ∈ (numberLexeme cs).taken) : isPlain c = true := by
  simp only [numberLexeme, List.mem_append] at h
  rcases h with h | h | h | h
  · exact isPlain_of_mem_signPart h
  · exact isPlain_of_mem_takeWhile_isDigit h
  · exact isPlain_of_mem_fractionPart h
  · exact isPlain_of_mem_exponentPart h

/-- The mask keeps words. -/
theorem keepsText_wordToken (word : String) : keepsText (some (.ok (wordToken word))) = true := by
  unfold wordToken
  repeat' split
  all_goals rfl

/-- The mask keeps colours, and what is malformed in their place. -/
theorem keepsText_colorReading (digits : List Char) :
    keepsText (some (colorReading digits)) = true := by
  unfold colorReading
  repeat' split
  all_goals rfl

/-- The mask keeps single characters. -/
theorem keepsText_singleReading (c : Char) : keepsText (some (singleReading c)) = true := by
  fun_cases singleReading c <;> rfl

/-- Of two characters that belong together the second one is plain, unless they
close a comment. -/
theorem pairReading?_plain {c d : Char} {reading : Reading}
    (hno : reading ≠ .error .unmatchedCommentEnd) :
    pairReading? c d = some reading → keepsText (some reading) = true ∧ isPlain d = true := by
  fun_cases pairReading? c d with
  | case11 => rintro ⟨⟩
  | case12 _ harrow =>
    rintro ⟨⟩
    simp_all [keepsText, isPlain]
  | case13 _ _ hclose =>
    rintro ⟨⟩
    exact absurd rfl hno
  | case14 => rintro ⟨⟩
  | _ =>
    rintro ⟨⟩
    simp_all [keepsText, isPlain]

/-- In code the mask keeps what starts neither a string nor a comment. -/
theorem maskFrom_code_cons {c : Char} {cs : List Char} (hquote : c ≠ '"' ∧ c ≠ '\'')
    (hline : ¬ (c = '/' ∧ cs.head? = some '/')) (hblock : ¬ (c = '/' ∧ cs.head? = some '*')) :
    maskFrom .code (c :: cs) = c :: maskFrom .code cs := by
  simp [maskFrom, maskChar, hquote, hline, hblock]

/-- The mask keeps operators and marks. -/
theorem mask_symbolLexeme {c : Char} {cs : List Char} (hquote : c ≠ '"' ∧ c ≠ '\'')
    (hline : ¬ (c = '/' ∧ cs.head? = some '/')) (hblock : ¬ (c = '/' ∧ cs.head? = some '*')) :
    (symbolLexeme c cs).reading ≠ some (.error .unmatchedCommentEnd) →
      keepsText (symbolLexeme c cs).reading = true ∧ maskFrom .code (c :: cs) =
        (symbolLexeme c cs).taken ++ maskFrom .code (symbolLexeme c cs).rest := by
  have hfirst := maskFrom_code_cons hquote hline hblock
  fun_cases symbolLexeme c cs with
  | case1 => exact fun _ => ⟨keepsText_singleReading c, hfirst⟩
  | case2 d ds reading hpair =>
    intro hno
    obtain ⟨hkeeps, hplain⟩ := pairReading?_plain (fun h => hno (congrArg some h)) hpair
    refine ⟨hkeeps, ?_⟩
    rw [hfirst, maskFrom_plain hplain]
    rfl
  | case3 => exact fun _ => ⟨keepsText_singleReading c, hfirst⟩

/-- **Mask and lexer stay in step.** Unless it is a stray `*/`, the mask makes of a
lexeme what it should, and goes on in code behind it. -/
theorem mask_lexeme (c : Char) (cs : List Char) :
    (lexeme c cs).reading ≠ some (.error .unmatchedCommentEnd) →
      ∃ masked, MaskedAs (lexeme c cs).reading (lexeme c cs).taken masked ∧
        maskFrom .code (c :: cs) = masked ++ maskFrom .code (lexeme c cs).rest := by
  fun_cases lexeme c cs with
  -- a line break
  | case1 hc =>
    refine fun _ => ⟨_, .kept [c] rfl, maskFrom_plain ?_ cs⟩
    rw [hc]
    rfl
  -- line breaks and blanks are plain
  | case2 _ hblank =>
    refine fun _ => ⟨_, .kept [c] rfl, maskFrom_plain ?_ cs⟩
    simp only [Bool.or_eq_true, decide_eq_true_eq] at hblank
    rcases hblank with (rfl | rfl) | rfl <;> rfl
  | case3 _ _ hquote =>
    simp only [Bool.or_eq_true, decide_eq_true_eq] at hquote
    exact fun _ => mask_stringLexeme hquote cs
  -- numbers, words and colors are made of plain characters
  | case4 =>
    refine fun _ => ⟨_, .kept _ rfl, ?_⟩
    rw [← maskFrom_plain_append fun d hd => isPlain_of_mem_numberLexeme hd,
      numberLexeme_append]
  | case5 =>
    refine fun _ => ⟨_, .kept _ (keepsText_wordToken _), ?_⟩
    simp only [wordLexeme]
    rw [← maskFrom_plain_append fun d hd => isPlain_of_isWordChar (List.mem_takeWhile_imp hd),
      List.takeWhile_append_dropWhile]
  | case6 _ _ _ _ _ hc =>
    subst hc
    refine fun _ => ⟨_, .kept _ (keepsText_colorReading _), ?_⟩
    simp only [colorLexeme]
    rw [maskFrom_plain rfl, List.cons_append,
      ← maskFrom_plain_append fun d hd => isPlain_of_isWordChar (List.mem_takeWhile_imp hd),
      List.takeWhile_append_dropWhile]
  -- comments of a line and of a block
  | case7 _ _ _ _ _ _ hline =>
    simp only [Bool.and_eq_true, decide_eq_true_eq] at hline
    obtain ⟨rfl, hhead⟩ := hline
    obtain ⟨rest, rfl⟩ := List.head?_eq_some_iff.mp hhead
    exact fun _ => mask_lineCommentLexeme rest
  | case8 _ _ _ _ _ _ _ hblock =>
    simp only [Bool.and_eq_true, decide_eq_true_eq] at hblock
    obtain ⟨rfl, hhead⟩ := hblock
    obtain ⟨rest, rfl⟩ := List.head?_eq_some_iff.mp hhead
    exact fun _ => mask_blockCommentLexeme rest
  -- whatever is left is an operator or a mark
  | case9 _ _ hquote _ _ _ hline hblock =>
    simp only [Bool.or_eq_true, Bool.and_eq_true, decide_eq_true_eq, not_or] at hquote hline hblock
    intro hno
    obtain ⟨hkeeps, hmask⟩ := mask_symbolLexeme hquote hline hblock hno
    exact ⟨_, .kept _ hkeeps, hmask⟩

-- ---------------------------------------------------------------------------
-- Bytes of masked text
-- ---------------------------------------------------------------------------

/-- Only a line break is written with the byte of a line break. -/
theorem eq_newline_of_mem_utf8EncodeChar {c : Char}
    (h : 0x0A ∈ String.utf8EncodeChar c) : c = '\n' := by
  have hbyte (n : Nat) : (0x0A : UInt8) = UInt8.ofNat n ↔ n % 256 = 10 := by
    rw [← UInt8.toNat_inj, UInt8.toNat_ofNat']
    exact eq_comm
  revert h
  fun_cases String.utf8EncodeChar c <;>
    simp only [List.mem_cons, List.not_mem_nil, or_false, hbyte] <;> intro h
  · -- a character of one byte is written as its own number
    apply Char.toNat_inj.mp
    show c.val.toNat = 10
    omega
  all_goals omega

/-- A blanked character is as many spaces as it had bytes. -/
theorem utf8_blanked (c : Char) : utf8 (blanked c) = List.replicate c.utf8Size 0x20 := by
  rw [blanked]
  induction c.utf8Size with
  | zero => rfl
  | succ n ih =>
    rw [List.replicate_succ, utf8_cons, ih, List.replicate_succ]
    rfl

/-- Blanked characters are as many spaces as bytes. -/
theorem utf8_flatMap_blanked (cs : List Char) :
    utf8 (cs.flatMap blanked) = List.replicate (byteLength cs) 0x20 := by
  induction cs with
  | nil => rfl
  | cons c cs ih =>
    rw [List.flatMap_cons, utf8_append, ih, utf8_blanked, byteLength_cons,
      List.replicate_append_replicate]

/-- What becomes of a byte of a comment. -/
def commentByte (b : UInt8) : UInt8 :=
  if b = 0x0A then 0x0A else 0x20

/-- A masked comment, byte by byte. -/
theorem utf8_flatMap_maskedInComment (cs : List Char) :
    utf8 (cs.flatMap maskedInComment) = (utf8 cs).map commentByte := by
  induction cs with
  | nil => rfl
  | cons c cs ih =>
    rw [List.flatMap_cons, utf8_append, ih, utf8_cons, List.map_append, maskedInComment]
    split
    · next hc =>
      rw [hc]
      rfl
    · next hc =>
      -- no byte of another character is the byte of a line break
      have hbytes : ∀ b ∈ String.utf8EncodeChar c, commentByte b = 0x20 := by
        intro b hb
        refine if_neg ?_
        rintro rfl
        exact hc (eq_newline_of_mem_utf8EncodeChar hb)
      rw [utf8_blanked, List.map_congr_left hbytes, List.map_const',
        String.length_utf8EncodeChar]

/-- Masking keeps the number of bytes. -/
theorem MaskedAs.byteLength_eq {reading : Option Reading} {taken masked : List Char}
    (h : MaskedAs reading taken masked) : byteLength masked = byteLength taken := by
  rw [← length_utf8]
  cases h with
  | comment => simp [utf8_flatMap_maskedInComment]
  | closed contents inner isQuote => simp [utf8_flatMap_blanked]
  | unclosed inner isQuote => simp [utf8_flatMap_blanked]
  | kept => simp

/-- What should become of the byte `b` at an offset that a token covers. -/
def maskedByte (t : Lexed) (offset : Nat) (b : UInt8) : UInt8 :=
  match t.reading with
  | .ok (.comment _) => commentByte b
  | .ok (.string _) => if offset = t.span.start ∨ offset + 1 = t.span.stop then b else 0x20
  | .error .unterminatedString => if offset = t.span.start then b else 0x20
  | _ => b

/-- A quote is one byte. -/
theorem exists_utf8EncodeChar_quote {quote : Char} (isQuote : quote = '"' ∨ quote = '\'') :
    ∃ b, String.utf8EncodeChar quote = [b] := by
  rcases isQuote with rfl | rfl
  · exact ⟨0x22, rfl⟩
  · exact ⟨0x27, rfl⟩

/-- The bytes of a masked lexeme are what its token says they should be. -/
theorem MaskedAs.getElem?_utf8 {reading : Reading} {taken masked : List Char}
    (h : MaskedAs (some reading) taken masked) (before : List Char) (i : Nat) :
    (utf8 masked)[i]? = (utf8 taken)[i]?.map
      (maskedByte ⟨reading, stretch before taken⟩ (byteLength before + i)) := by
  cases h with
  | comment text =>
    rw [utf8_flatMap_maskedInComment, List.getElem?_map]
    rfl
  | @closed contents quote inner isQuote =>
    obtain ⟨b, hb⟩ := exists_utf8EncodeChar_quote isQuote
    have hsize : quote.utf8Size = 1 := by rw [← String.length_utf8EncodeChar, hb]; rfl
    simp only [utf8_cons, utf8_append, hb, utf8_flatMap_blanked, utf8_nil, List.append_nil,
      List.singleton_append]
    cases i with
    | zero => simp [maskedByte]
    | succ j =>
      rw [List.getElem?_cons_succ, List.getElem?_cons_succ]
      -- the byte lies inside, is the closing quote, or lies behind it
      rcases Nat.lt_trichotomy j (byteLength inner) with hlt | rfl | hgt
      · have hlen : j < (utf8 inner).length := by rwa [length_utf8]
        rw [List.getElem?_append_left (by simpa using hlt), List.getElem?_append_left hlen,
          List.getElem?_replicate_of_lt hlt, List.getElem?_eq_getElem hlen, Option.map_some,
          maskedByte]
        simp [hsize]
        omega
      · simp [maskedByte, hsize]
        omega
      · rw [List.getElem?_eq_none (by simp; omega), List.getElem?_eq_none (by simp; omega)]
        rfl
  -- without a closing quote all that is behind the opening one is blanked
  | @unclosed quote inner isQuote =>
    obtain ⟨b, hb⟩ := exists_utf8EncodeChar_quote isQuote
    simp only [utf8_cons, hb, utf8_flatMap_blanked, List.singleton_append]
    cases i with
    | zero => simp [maskedByte]
    | succ j =>
      rw [List.getElem?_cons_succ, List.getElem?_cons_succ]
      rcases Nat.lt_or_ge j (byteLength inner) with hlt | hge
      · have hlen : j < (utf8 inner).length := by rwa [length_utf8]
        rw [List.getElem?_replicate_of_lt hlt, List.getElem?_eq_getElem hlen, Option.map_some,
          maskedByte]
        simp
      · rw [List.getElem?_eq_none (by simpa using hge), List.getElem?_eq_none (by simpa using hge)]
        rfl
  | kept taken keeps =>
    -- neither a comment nor a string, so no byte of it is to change
    have hsame : maskedByte ⟨reading, stretch before taken⟩ (byteLength before + i) = id := by
      funext b
      unfold maskedByte
      split <;> simp_all [keepsText]
    rw [hsame, Option.map_id, id]

-- ---------------------------------------------------------------------------
-- Agreement
-- ---------------------------------------------------------------------------

/-- Whether the text `masked` is the text behind `before` with every byte as the
tokens say it should be: a byte that no token covers stays as it is. -/
def MaskedBy (tokens : List Lexed) (before text masked : List Char) : Prop :=
  ∀ i, (∀ t ∈ tokens, t.span.Covers (byteLength before + i) →
      (utf8 masked)[i]? = (utf8 text)[i]?.map (maskedByte t (byteLength before + i))) ∧
    ((∀ t ∈ tokens, ¬ t.span.Covers (byteLength before + i)) →
      (utf8 masked)[i]? = (utf8 text)[i]?)

/-- Two texts that are masked one behind the other: no token of one covers a byte
of the other. -/
theorem MaskedBy.append {here tokens : List Lexed}
    {before piece rest maskedPiece maskedRest : List Char}
    (hlen : byteLength maskedPiece = byteLength piece)
    (hhere : ∀ t ∈ here, t.span.stop ≤ byteLength (before ++ piece))
    (htokens : ∀ t ∈ tokens, byteLength (before ++ piece) ≤ t.span.start)
    (hpiece : MaskedBy here before piece maskedPiece)
    (hrest : MaskedBy tokens (before ++ piece) rest maskedRest) :
    MaskedBy (here ++ tokens) before (piece ++ rest) (maskedPiece ++ maskedRest) := by
  intro i
  rw [byteLength_append] at hhere htokens
  -- a byte belongs to the first text or to the second, and so does a token that covers it
  rcases Nat.lt_or_ge i (byteLength piece) with hlt | hge
  · have hmasked : (utf8 (maskedPiece ++ maskedRest))[i]? = (utf8 maskedPiece)[i]? := by
      rw [utf8_append, List.getElem?_append_left (by rw [length_utf8, hlen]; exact hlt)]
    have htext : (utf8 (piece ++ rest))[i]? = (utf8 piece)[i]? := by
      rw [utf8_append, List.getElem?_append_left (by rw [length_utf8]; exact hlt)]
    rw [hmasked, htext]
    refine ⟨fun t ht hcov => ?_, fun hno => ?_⟩
    · rcases List.mem_append.mp ht with ht | ht
      · exact (hpiece i).1 t ht hcov
      · have := htokens t ht
        rw [Span.Covers] at hcov
        omega
    · exact (hpiece i).2 fun t ht => hno t (List.mem_append_left _ ht)
  · rw [getElem?_utf8_append (hlen ▸ hge), getElem?_utf8_append hge, hlen]
    have hshift := hrest (i - byteLength piece)
    rw [byteLength_append, Nat.add_assoc, Nat.add_sub_cancel' hge] at hshift
    refine ⟨fun t ht hcov => ?_, fun hno => ?_⟩
    · rcases List.mem_append.mp ht with ht | ht
      · have := hhere t ht
        rw [Span.Covers] at hcov
        omega
      · exact hshift.1 t ht hcov
    · exact hshift.2 fun t ht => hno t (List.mem_append_right _ ht)

/-- A lexeme is masked as its token says. -/
theorem MaskedAs.maskedBy {reading : Option Reading} {taken masked : List Char}
    (h : MaskedAs reading taken masked) (before : List Char) :
    MaskedBy (reading.toList.map (⟨·, stretch before taken⟩)) before taken masked := by
  cases reading with
  | none =>
    cases h
    exact fun i => ⟨nofun, fun _ => rfl⟩
  | some reading =>
    refine fun i => ⟨fun t ht _ => ?_, fun hno => ?_⟩
    · rw [List.mem_singleton.mp ht]
      exact h.getElem?_utf8 before i
    · -- the token covers all of the lexeme, so the byte lies behind it
      have hcov := hno _ (List.mem_singleton.mpr rfl)
      rw [Span.Covers, stretch_start, stretch_stop] at hcov
      have hlen := h.byteLength_eq
      rw [List.getElem?_eq_none (by rw [length_utf8]; omega),
        List.getElem?_eq_none (by rw [length_utf8]; omega)]

/-- Marks of layout leave the blanks they stand for as they are. -/
theorem maskedBy_layoutMarks (before blanks : List Char) (ended : Nat) (begins : Bool) :
    MaskedBy (layoutMarks before blanks ended begins) before blanks blanks := by
  refine fun i => ⟨fun t ht _ => ?_, fun _ => rfl⟩
  rcases mem_layoutMarks ht with rfl | rfl <;>
    exact (Option.map_id' ..).symm

/-- The mask of a run is what the tokens of the run say. -/
theorem Lexer.Run.maskedBy {before rest : List Char} {tokens : List Lexed}
    (run : Run before rest tokens)
    (h : ∀ t ∈ tokens, t.reading ≠ .error .unmatchedCommentEnd) :
    MaskedBy tokens before rest (maskFrom .code rest) := by
  induction run with
  | finish => exact fun i => ⟨fun _ _ _ => rfl, fun _ => rfl⟩
  | @read before c cs tokens next ih =>
    -- the lexeme is no comment end, so its mask is what its reading says
    have hno : (lexeme c cs).reading ≠ some (.error .unmatchedCommentEnd) := by
      intro hreading
      refine h ⟨.error .unmatchedCommentEnd, stretch before (lexeme c cs).taken⟩ ?_ rfl
      rw [hreading]
      exact List.mem_cons_self ..
    obtain ⟨masked, hmasked, hmask⟩ := mask_lexeme c cs hno
    have hrest := ih fun t ht => h t (List.mem_append_right _ ht)
    have hboth := MaskedBy.append hmasked.byteLength_eq ?_ next.byteLength_le_start
      (hmasked.maskedBy before) hrest
    · rw [lexeme_taken_append_rest] at hboth
      rw [hmask]
      exact hboth
    · intro t ht
      obtain ⟨reading, -, rfl⟩ := List.mem_map.mp ht
      rw [stretch_stop, byteLength_append]
  | @line before blanks rest tokens ended begins spaces next ih =>
    -- blanks at the front of a line are kept, and its marks cover nothing else
    have hplain : ∀ c ∈ blanks, isPlain c = true := fun c hc => isPlain_of (spaces c hc) rfl rfl rfl
    rw [maskFrom_plain_append hplain]
    refine MaskedBy.append rfl ?_ next.byteLength_le_start
      (maskedBy_layoutMarks before blanks ended begins)
      (ih fun t ht => h t (List.mem_append_right _ ht))
    intro t ht
    rcases mem_layoutMarks ht with rfl | rfl <;> simp

/-- **Masking agrees with lexing.** In a text without a stray `*/`, the mask makes
of every byte what the token that covers it says: in a comment all but line breaks
is blank, in a string all but the quotes, and everything else is kept, also where
no token is. -/
theorem mask_agrees_with_lex (source : String)
    (h : ∀ t ∈ lex source, t.reading ≠ .error .unmatchedCommentEnd) (i : Nat) :
    (∀ t ∈ lex source, t.span.Covers i →
      (utf8 (mask source.toList))[i]? = (utf8 source.toList)[i]?.map (maskedByte t i)) ∧
    ((∀ t ∈ lex source, ¬ t.span.Covers i) →
      (utf8 (mask source.toList))[i]? = (utf8 source.toList)[i]?) := by
  have hmasked := (lex_run source).maskedBy h i
  rw [byteLength_nil, Nat.zero_add] at hmasked
  exact hmasked

/-- A byte of a comment marker that stands in a string is blank, as the string
says. -/
theorem mask_agrees_with_lex_marker_in_string :
    (∀ t ∈ lex "f(\"/*é\") // \"b", t.reading ≠ .error .unmatchedCommentEnd) ∧
      ∃ t ∈ lex "f(\"/*é\") // \"b", t.reading = .ok (.string "/*é") ∧ t.span.Covers 4 ∧
        (utf8 (mask "f(\"/*é\") // \"b".toList))[4]? =
          (utf8 "f(\"/*é\") // \"b".toList)[4]?.map (maskedByte t 4) := by
  have h : ∀ t ∈ lex "f(\"/*é\") // \"b", t.reading ≠ .error .unmatchedCommentEnd := by
    decide +kernel
  have hstring : (lex "f(\"/*é\") // \"b")[2]? = some ⟨.ok (.string "/*é"), ⟨2, 8, 1, 2⟩⟩ := by
    cbv
  have hmem := List.mem_of_getElem? hstring
  have hcov : Span.Covers ⟨2, 8, 1, 2⟩ 4 := ⟨by decide, by decide⟩
  exact ⟨h, _, hmem, rfl, hcov, (mask_agrees_with_lex _ h 4).1 _ hmem hcov⟩

end PineCheck
