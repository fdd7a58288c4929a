import PineCheck.Proofs.Lexing
import PineCheck.Proofs.Script

/-!
# PineCheck — the tokens of a printed script

What `print` writes is read as the tokens it was meant for. A piece of text is
read piece by piece from the front: `Reads cs tokens` says what the text `cs` is
read as from any place inside a line, and each lemma puts one more piece in front
of a text of which that is known already. A piece ends where it should because of
the character behind it, which is what `Stops` and `EndsOperand` are about.

Main result:

* `lex_print` — the tokens of a printed script are the tokens of its statements
  and the end of the file, without faults, comments and marks of blocks.
-/

namespace PineCheck.Script

open Lexer

-- ---------------------------------------------------------------------------
-- Where a piece of text ends
-- ---------------------------------------------------------------------------

/-- The first character of a text, if there is one, is not of this kind. -/
def Stops (p : Char → Bool) (rest : List Char) : Prop :=
  ∀ c ∈ rest.head?, p c = false

/-- A text stops a reader that does not take its first character. -/
theorem Stops.cons {p : Char → Bool} {c : Char} (h : p c = false) (cs : List Char) :
    Stops p (c :: cs) := by
  intro d hd
  cases hd
  exact h

/-- A reader takes what it can up to a text that stops it. -/
theorem takeWhile_append {p : Char → Bool} {taken rest : List Char}
    (h : taken.all p = true) (hrest : Stops p rest) : (taken ++ rest).takeWhile p = taken := by
  rw [List.takeWhile_append_of_pos (List.all_eq_true.mp h)]
  cases rest with
  | nil => simp
  | cons c cs => rw [List.takeWhile_cons_of_neg (by simp [hrest c rfl]), List.append_nil]

/-- What a reader leaves is the text that stops it. -/
theorem dropWhile_append {p : Char → Bool} {taken rest : List Char}
    (h : taken.all p = true) (hrest : Stops p rest) : (taken ++ rest).dropWhile p = rest := by
  rw [List.dropWhile_append_of_pos (List.all_eq_true.mp h)]
  cases rest with
  | nil => rfl
  | cons c cs => rw [List.dropWhile_cons_of_neg (by simp [hrest c rfl])]

/-- Behind an operand stands a comma, a closing parenthesis or the end of the
line. -/
def EndsOperand (rest : List Char) : Prop :=
  ∃ c cs, rest = c :: cs ∧ (c = ',' ∨ c = ')' ∨ c = '\n')

namespace EndsOperand

theorem comma (cs : List Char) : EndsOperand (',' :: cs) :=
  ⟨',', cs, rfl, .inl rfl⟩

theorem parenRight (cs : List Char) : EndsOperand (')' :: cs) :=
  ⟨')', cs, rfl, .inr (.inl rfl)⟩

theorem newline (cs : List Char) : EndsOperand ('\n' :: cs) :=
  ⟨'\n', cs, rfl, .inr (.inr rfl)⟩

/-- What ends an operand ends every kind of piece that holds none of the three
characters. -/
theorem stops {rest : List Char} (h : EndsOperand rest) {p : Char → Bool}
    (hp : p ',' = false ∧ p ')' = false ∧ p '\n' = false) : Stops p rest := by
  obtain ⟨c, cs, rfl, rfl | rfl | rfl⟩ := h
  · exact .cons hp.1 cs
  · exact .cons hp.2.1 cs
  · exact .cons hp.2.2 cs

end EndsOperand

-- ---------------------------------------------------------------------------
-- Reading from the front
-- ---------------------------------------------------------------------------

/-- From any place inside a line of the outermost block, a text is read as these
tokens. -/
def Reads (cs : List Char) (tokens : List Token) : Prop :=
  ∀ p, (scan ⟨p, [0], cs⟩).map Lexed.reading = tokens.map .ok

namespace Reads

theorem nil : Reads [] [.endOfFile] := by
  intro p
  rw [scan_nil]
  rfl

/-- A lexeme in front of a text. -/
theorem lexeme {c : Char} {cs taken rest : List Char} {token : Token} {tokens : List Token}
    (hc : c ≠ '\n') (hfront : lexeme c cs = ⟨some (.ok token), taken, rest⟩)
    (h : Reads rest tokens) : Reads (c :: cs) (token :: tokens) := by
  intro p
  rw [scan_cons p [0] cs hc, hfront, List.map_append, h]
  rfl

/-- A blank reads as nothing. -/
theorem space {cs : List Char} {tokens : List Token} (h : Reads cs tokens) :
    Reads (' ' :: cs) tokens := by
  intro p
  rw [scan_cons p [0] cs (by decide), List.map_append]
  exact h _

end Reads

/-- At the left margin no block begins or ends. -/
theorem openLine_margin (p : Position) {cs : List Char} (h : Stops Text.isSpace cs) :
    openLine ⟨p, [0], cs⟩ = ([], ⟨p, [0], cs⟩) := by
  have htake : cs.takeWhile Text.isSpace = [] := @takeWhile_append _ [] cs rfl h
  have hdrop : cs.dropWhile Text.isSpace = cs := @dropWhile_append _ [] cs rfl h
  unfold openLine
  rw [htake, hdrop]
  dsimp only
  split
  · rfl
  · rfl

/-- The end of a line in front of a line at the left margin. -/
theorem Reads.newline {cs : List Char} {tokens : List Token} (hstops : Stops Text.isSpace cs)
    (h : Reads cs tokens) : Reads ('\n' :: cs) (.newline :: tokens) := by
  intro p
  rw [scan_newline, openLine_margin _ hstops, List.map_cons, List.nil_append, h]
  rfl

-- ---------------------------------------------------------------------------
-- Words
-- ---------------------------------------------------------------------------

/-- No word starts with a digit. -/
theorem not_isDigit_of_isWordStart {c : Char} (h : isWordStart c = true) : c.isDigit = false := by
  by_cases hc : c = '_'
  · rw [hc]
    decide
  · rw [isWordStart] at h
    delta Char.isAlpha Char.isUpper Char.isLower at h
    rw [Char.isDigit]
    grind

/-- A letter or an underscore starts a word and nothing else. -/
theorem lexeme_of_isWordStart {c : Char} (h : isWordStart c = true) (cs : List Char) :
    lexeme c cs = wordLexeme (c :: cs) := by
  have hne : ∀ d : Char, isWordStart d = false → c ≠ d := by
    rintro d hd rfl
    rw [h] at hd
    cases hd
  have hnumber : startsNumber c cs = false := by
    simp [startsNumber, not_isDigit_of_isWordStart h, hne '-' (by decide)]
  simp [lexeme, h, hnumber, hne '\n' (by decide), hne ' ' (by decide), hne '\t' (by decide),
    hne '\r' (by decide), hne '"' (by decide), hne '\'' (by decide)]

/-- A word in front of a text. -/
theorem Reads.word {text rest : List Char} {tokens : List Token}
    (hstart : text.head?.any isWordStart = true) (hchars : text.all isWordChar = true)
    (hstops : Stops isWordChar rest) (h : Reads rest tokens) :
    Reads (text ++ rest) (wordToken (String.ofList text) :: tokens) := by
  cases text with
  | nil => simp at hstart
  | cons c cs =>
    have hc : isWordStart c = true := by simpa using hstart
    have hnewline : c ≠ '\n' := by
      rintro rfl
      revert hc
      decide
    have hfront : Lexer.lexeme c (cs ++ rest) =
        ⟨some (.ok (wordToken (String.ofList (c :: cs)))), c :: cs, rest⟩ := by
      rw [lexeme_of_isWordStart hc, wordLexeme, ← List.cons_append,
        takeWhile_append hchars hstops, dropWhile_append hchars hstops]
    exact .lexeme hnewline hfront h

/-- A word reads as an identifier, since no word is a keyword. -/
theorem wordToken_text (word : Word) : wordToken word.text = .identifier word.text := by
  rw [wordToken, word.notKeyword]
  simp [word.notBoolean]

/-- A word is read as an identifier. -/
theorem Reads.identifier (word : Word) {rest : List Char} {tokens : List Token}
    (hstops : Stops isWordChar rest) (h : Reads rest tokens) :
    Reads (word.text.toList ++ rest) (.identifier word.text :: tokens) := by
  have hword := Reads.word word.isWordStart word.isWordChar hstops h
  rwa [String.ofList_toList, wordToken_text] at hword

-- ---------------------------------------------------------------------------
-- Marks and operators
-- ---------------------------------------------------------------------------

/-- A mark other than the colon is read alone, whatever stands behind it. -/
theorem lexeme_mark {mark : Punctuation} (hmark : mark ≠ .colon) (cs : List Char) :
    lexeme mark.spelling cs = ⟨some (.ok (.punctuation mark)), [mark.spelling], cs⟩ := by
  cases mark with
  | colon => exact absurd rfl hmark
  | _ =>
    cases cs with
    | nil => rfl
    | cons d ds =>
      by_cases hd : d = '='
      · rw [hd]
        rfl
      · simp [lexeme, symbolLexeme, pairReading?, hd, Punctuation.spelling, startsNumber,
          isWordStart, singleReading, Char.isDigit]

/-- A mark is read as itself. A colon is left out, since it may go with `=`. -/
theorem Reads.mark (mark : Punctuation) (hmark : mark ≠ .colon) {cs : List Char}
    {tokens : List Token} (h : Reads cs tokens) :
    Reads (mark.spelling :: cs) (.punctuation mark :: tokens) := by
  have hnewline : mark.spelling ≠ '\n' := by
    cases mark <;> decide
  exact .lexeme hnewline (lexeme_mark hmark cs) h

/-- Characters that make one operator together with the character before them. -/
def joinsOperator (c : Char) : Bool :=
  c = '=' || c = '>'

/-- An operator of one character in front of a text that does not go with it. -/
theorem Reads.operator {op : Operator} {c : Char} {cs : List Char} {tokens : List Token}
    (hop : (c, op) ∈ [('=', Operator.assignment), ('<', .less), ('>', .greater)])
    (hstops : Stops joinsOperator cs) (h : Reads cs tokens) :
    Reads (c :: cs) (.operator op :: tokens) := by
  have hpair : symbolLexeme c cs = ⟨some (singleReading c), [c], cs⟩ := by
    cases cs with
    | nil => rfl
    | cons d ds =>
      have hd : d ≠ '=' ∧ d ≠ '>' := by simpa [joinsOperator] using hstops d rfl
      have hnone : pairReading? c d = none := by
        simp only [List.mem_cons, List.not_mem_nil, or_false, Prod.mk.injEq] at hop
        rcases hop with ⟨rfl, rfl⟩ | ⟨rfl, rfl⟩ | ⟨rfl, rfl⟩ <;> simp [pairReading?, hd]
      rw [symbolLexeme, hnone]
  have hfront : Lexer.lexeme c cs = ⟨some (.ok (.operator op)), [c], cs⟩ ∧ c ≠ '\n' := by
    simp only [List.mem_cons, List.not_mem_nil, or_false, Prod.mk.injEq] at hop
    rcases hop with ⟨rfl, rfl⟩ | ⟨rfl, rfl⟩ | ⟨rfl, rfl⟩ <;>
      exact ⟨hpair, by decide⟩
  exact .lexeme hfront.2 hfront.1 h

/-- The sign of an assignment with blanks around it. -/
theorem Reads.assignment {cs : List Char} {tokens : List Token} (h : Reads cs tokens) :
    Reads (" = ".toList ++ cs) (.operator .assignment :: tokens) :=
  .space (.operator (by decide) (.cons (by decide) _) (.space h))

/-- The operator of a reassignment is read with the blanks around it. -/
theorem Reads.reassignment {cs : List Char} {tokens : List Token} (h : Reads cs tokens) :
    Reads (" := ".toList ++ cs) (.operator .reassignment :: tokens) := by
  refine .space ?_
  have hfront : Lexer.lexeme ':' ('=' :: ' ' :: cs) =
      ⟨some (.ok (.operator .reassignment)), [':', '='], ' ' :: cs⟩ := rfl
  exact .lexeme (by decide) hfront (.space h)

-- ---------------------------------------------------------------------------
-- Numbers
-- ---------------------------------------------------------------------------

/-- No digit is a letter. -/
theorem not_isAlphabetic_of_isDigit {c : Char} (h : c.isDigit = true) :
    Text.isAlphabetic c = false := by
  have hranges : ∀ r ∈ Text.alphabeticRanges, 57 < r.1 := by decide +kernel
  have hc : c.toNat ≤ 57 := by
    simp only [Char.isDigit, Bool.and_eq_true, decide_eq_true_eq] at h
    exact UInt32.le_iff_toNat_le.mp h.2
  simp only [Text.isAlphabetic, Text.CodeRanges.covers, List.any_eq_false, Bool.and_eq_true,
    decide_eq_true_eq, not_and]
  intro r hr hle
  have := hranges r hr
  omega

/-- Digits start with a digit. -/
theorem Digits.exists_cons (digits : Digits) :
    ∃ d ds, digits.chars = d :: ds ∧ d.isDigit = true ∧ ds.all Char.isDigit = true := by
  obtain ⟨chars, hne, hdigits⟩ := digits
  cases chars with
  | nil => exact absurd rfl hne
  | cons d ds =>
    rw [List.all_cons, Bool.and_eq_true] at hdigits
    exact ⟨d, ds, rfl, hdigits.1, hdigits.2⟩

/-- A minus sign is read as the sign of the digits behind it. -/
theorem signPart_digits (isNegative : Bool) (digits : Digits) (rest : List Char) :
    signPart ((if isNegative then ['-'] else []) ++ (digits.chars ++ rest)) =
      (if isNegative then ['-'] else [], digits.chars ++ rest) := by
  cases isNegative with
  | true => rfl
  | false =>
    obtain ⟨d, ds, hchars, hd, -⟩ := digits.exists_cons
    have hminus : d ≠ '-' := by
      rintro rfl
      revert hd
      decide
    simp [hchars, signPart, hminus]

/-- The digits behind the point are read up to something that is no digit. -/
theorem fractionPart_chars (fraction : Option Digits) {rest : List Char}
    (hdigit : Stops Char.isDigit rest) (hpoint : Stops (· = '.') rest) :
    fractionPart (Numeral.fractionChars fraction ++ rest) =
      (Numeral.fractionChars fraction, rest) := by
  cases fraction with
  | none =>
    cases rest with
    | nil => rfl
    | cons c cs =>
      have hc : c ≠ '.' := by simpa using hpoint c rfl
      simp [Numeral.fractionChars, fractionPart, hc]
  | some digits =>
    obtain ⟨d, ds, hchars, hd, -⟩ := digits.exists_cons
    have halpha := not_isAlphabetic_of_isDigit hd
    have htake := takeWhile_append digits.isDigit hdigit
    have hdrop := dropWhile_append digits.isDigit hdigit
    rw [hchars] at htake hdrop
    simp only [List.cons_append] at htake hdrop
    simp [Numeral.fractionChars, fractionPart, hchars, halpha, htake, hdrop]

/-- An exponent is read up to something that is no digit. -/
theorem exponentPart_chars (exponent : Option Exponent) {rest : List Char}
    (hrest : EndsOperand rest) :
    exponentPart (exponent.toList.flatMap Exponent.chars ++ rest) =
      (exponent.toList.flatMap Exponent.chars, rest) := by
  cases exponent with
  -- no exponent: what ends the operand does not look like one
  | none =>
    obtain ⟨c, cs, rfl, hc⟩ := hrest
    have hmark : c ≠ 'e' ∧ c ≠ 'E' := by
      rcases hc with rfl | rfl | rfl <;> decide
    cases cs <;> simp [exponentPart, hmark]
  | some exponent =>
    obtain ⟨mark, hmark, sign, hsign, digits⟩ := exponent
    obtain ⟨d, ds, hchars, hd, hds⟩ := digits.exists_cons
    have hstops : Stops Char.isDigit rest := hrest.stops (by decide)
    -- the digits follow the mark at once, or behind a sign
    cases sign with
    | none =>
      have htake := takeWhile_append hds hstops
      have hdrop := dropWhile_append hds hstops
      simp [Exponent.chars, exponentPart, hchars, hmark, hd, htake, hdrop]
    | some sign =>
      have hplus := hsign sign rfl
      have hnot : sign.isDigit = false := by
        rcases hplus with rfl | rfl <;> decide
      have htake := takeWhile_append digits.isDigit hstops
      have hdrop := dropWhile_append digits.isDigit hstops
      rw [hchars] at htake hdrop
      simp only [List.cons_append] at htake hdrop
      simp [Exponent.chars, exponentPart, hchars, hmark, hnot, hplus, hd, htake, hdrop]

/-- An exponent starts with a letter. -/
theorem stops_exponent (exponent : Option Exponent) {rest : List Char} (hrest : EndsOperand rest)
    {p : Char → Bool} (hp : p 'e' = false ∧ p 'E' = false)
    (hp' : p ',' = false ∧ p ')' = false ∧ p '\n' = false) :
    Stops p (exponent.toList.flatMap Exponent.chars ++ rest) := by
  cases exponent with
  | none => exact hrest.stops hp'
  | some exponent =>
    obtain ⟨mark, rfl | rfl, sign, _, digits⟩ := exponent
    · exact .cons hp.1 _
    · exact .cons hp.2 _

/-- The digits behind the point start with the point. -/
theorem stops_fraction (fraction : Option Digits) {rest : List Char}
    (hrest : Stops Char.isDigit rest) :
    Stops Char.isDigit (Numeral.fractionChars fraction ++ rest) := by
  cases fraction with
  | none => exact hrest
  | some digits => exact .cons rfl _

/-- A numeral is one lexeme, up to the end of the operand. -/
theorem numberLexeme_numeral (numeral : Numeral) {rest : List Char} (hrest : EndsOperand rest) :
    numberLexeme (numeral.chars ++ rest) =
      ⟨some (.ok (.number (String.ofList numeral.chars))), numeral.chars, rest⟩ := by
  obtain ⟨isNegative, whole, fraction, exponent⟩ := numeral
  -- each part of a number ends where the next one starts
  have hdigit := stops_exponent exponent hrest (p := Char.isDigit) (by decide) (by decide)
  have hpoint := stops_exponent exponent hrest (p := (· = '.')) (by decide) (by decide)
  have hwhole := stops_fraction fraction hdigit
  simp only [Numeral.chars, List.append_assoc]
  rw [numberLexeme, signPart_digits]
  dsimp only
  rw [takeWhile_append whole.isDigit hwhole, dropWhile_append whole.isDigit hwhole,
    fractionPart_chars fraction hdigit hpoint, exponentPart_chars exponent hrest]

/-- A number starts with a digit, or with a minus sign before a digit. -/
theorem startsNumber_numeral (numeral : Numeral) (rest : List Char) :
    ∃ c cs, numeral.chars ++ rest = c :: cs ∧ startsNumber c cs = true := by
  obtain ⟨isNegative, whole, fraction, exponent⟩ := numeral
  obtain ⟨d, ds, hchars, hd, -⟩ := whole.exists_cons
  cases isNegative with
  | true => exact ⟨_, _, rfl, by simp [startsNumber, hchars, hd]⟩
  | false => exact ⟨d, _, by simp [Numeral.chars, hchars]; rfl, by simp [startsNumber, hd]⟩

/-- A digit or a minus sign starts no blank, no string and no other literal. -/
theorem lexeme_of_startsNumber {c : Char} {cs : List Char} (h : startsNumber c cs = true) :
    lexeme c cs = numberLexeme (c :: cs) ∧ c ≠ '\n' := by
  have hne : ∀ d : Char, d.isDigit = false → d ≠ '-' → c ≠ d := by
    rintro d hd hminus rfl
    simp [startsNumber, hd, hminus] at h
  have hnewline := hne '\n' (by decide) (by decide)
  refine ⟨?_, hnewline⟩
  simp [lexeme, h, hnewline, hne ' ' (by decide) (by decide), hne '\t' (by decide) (by decide),
    hne '\r' (by decide) (by decide), hne '"' (by decide) (by decide),
    hne '\'' (by decide) (by decide)]

/-- A numeral is read as a number. -/
theorem Reads.number (numeral : Numeral) {rest : List Char} {tokens : List Token}
    (hrest : EndsOperand rest) (h : Reads rest tokens) :
    Reads (numeral.chars ++ rest) (.number (String.ofList numeral.chars) :: tokens) := by
  obtain ⟨c, cs, hcut, hstart⟩ := startsNumber_numeral numeral rest
  have hlexeme := lexeme_of_startsNumber hstart
  rw [← hcut, numberLexeme_numeral numeral hrest] at hlexeme
  rw [hcut]
  exact .lexeme hlexeme.2 hlexeme.1 h

-- ---------------------------------------------------------------------------
-- Colors and strings
-- ---------------------------------------------------------------------------

/-- A hexadecimal digit can stand in a word. -/
theorem isWordChar_of_isHexDigit {c : Char} (h : isHexDigit c = true) : isWordChar c = true := by
  rw [isWordChar]
  delta Char.isAlphanum Char.isAlpha Char.isUpper Char.isLower
  simp only [isHexDigit, Char.isDigit, Char.le_def] at *
  grind

/-- A colour code is read as a colour. -/
theorem Reads.color (code : ColorCode) {rest : List Char} {tokens : List Token}
    (hstops : Stops isWordChar rest) (h : Reads rest tokens) :
    Reads (code.chars ++ rest) (.color (String.ofList code.chars) :: tokens) := by
  -- the digits are as many as a word can take, so the lexeme ends with them
  have hword : code.digits.all isWordChar = true := by
    rw [List.all_eq_true]
    intro c hc
    exact isWordChar_of_isHexDigit (List.all_eq_true.mp code.isHexDigit c hc)
  have hne : code.digits ≠ [] := by
    intro hnil
    have := code.length_eq
    rw [hnil] at this
    simp at this
  have hfront : Lexer.lexeme '#' (code.digits ++ rest) =
      ⟨some (.ok (.color (String.ofList code.chars))), code.chars, rest⟩ := by
    show colorLexeme (code.digits ++ rest) = _
    rw [colorLexeme, takeWhile_append hword hstops, dropWhile_append hword hstops, colorReading,
      if_neg hne, code.isHexDigit, if_pos (by simpa using code.length_eq)]
    rfl
  exact .lexeme (by decide) hfront h

/-- A character that is neither escaped nor the quote goes into the contents. -/
theorem stringBody_cons {quote c : Char} (hc : c ≠ '\n' ∧ c ≠ '\\' ∧ c ≠ quote)
    {cs contents taken rest : List Char}
    (h : stringBody quote cs = (some contents, taken, rest)) :
    stringBody quote (c :: cs) = (some (c :: contents), c :: taken, rest) := by
  unfold stringBody
  simp [hc, h]

/-- The inside of a printed string is read as its contents. -/
theorem stringBody_escape (contents rest : List Char) :
    ∃ taken, stringBody '"' (contents.flatMap escape ++ '"' :: rest) =
      (some contents, taken, rest) := by
  induction contents with
  | nil =>
    refine ⟨['"'], ?_⟩
    show stringBody '"' ('"' :: rest) = _
    unfold stringBody
    rfl
  | cons c contents ih =>
    obtain ⟨taken, htaken⟩ := ih
    rw [List.flatMap_cons, List.append_assoc]
    generalize contents.flatMap escape ++ '"' :: rest = behind at htaken ⊢
    -- one case for each character that has an escape of its own
    by_cases hn : c = '\n'
    · exact ⟨'\\' :: 'n' :: taken, by simp [escape, hn, stringBody, htaken, unescape]⟩
    by_cases ht : c = '\t'
    · exact ⟨'\\' :: 't' :: taken, by simp [escape, ht, stringBody, htaken, unescape]⟩
    by_cases hr : c = '\r'
    · exact ⟨'\\' :: 'r' :: taken, by simp [escape, hr, stringBody, htaken, unescape]⟩
    by_cases hs : c = '\\'
    · exact ⟨'\\' :: '\\' :: taken, by simp [escape, hs, stringBody, htaken, unescape]⟩
    by_cases hq : c = '"'
    · exact ⟨'\\' :: '"' :: taken, by simp [escape, hq, stringBody, htaken, unescape]⟩
    -- any other character stands for itself
    · have hplain : escape c = [c] := by simp [escape, hn, ht, hr, hs, hq]
      rw [hplain]
      exact ⟨c :: taken, stringBody_cons ⟨hn, hs, hq⟩ htaken⟩

/-- A printed string is read as the string. -/
theorem Reads.string (contents : String) {rest : List Char} {tokens : List Token}
    (h : Reads rest tokens) :
    Reads (quoteChars contents ++ rest) (.string contents :: tokens) := by
  obtain ⟨taken, hbody⟩ := stringBody_escape contents.toList rest
  have hfront : Lexer.lexeme '"' (contents.toList.flatMap escape ++ '"' :: rest) =
      ⟨some (.ok (.string contents)), '"' :: taken, rest⟩ := by
    show stringLexeme '"' (contents.toList.flatMap escape ++ '"' :: rest) = _
    rw [stringLexeme, hbody]
    simp only [String.ofList_toList]
  have hcut : quoteChars contents ++ rest =
      '"' :: (contents.toList.flatMap escape ++ '"' :: rest) := by
    simp [quoteChars]
  rw [hcut]
  exact .lexeme (by decide) hfront h

-- ---------------------------------------------------------------------------
-- Names and types
-- ---------------------------------------------------------------------------

/-- Words with full stops before them start with a full stop. -/
theorem stops_others (others : List Word) {rest : List Char} (hstops : Stops isWordChar rest) :
    Stops isWordChar (others.flatMap (fun word => '.' :: word.text.toList) ++ rest) := by
  cases others with
  | nil => exact hstops
  | cons word others => exact .cons (by decide) _

/-- The words behind the first one of a dotted name are read one by one. -/
theorem Reads.others (others : List Word) {rest : List Char} {tokens : List Token}
    (hstops : Stops isWordChar rest) (h : Reads rest tokens) :
    Reads (others.flatMap (fun word => '.' :: word.text.toList) ++ rest)
      (others.flatMap (fun word => [.punctuation .dot, .identifier word.text]) ++ tokens) := by
  induction others with
  | nil => exact h
  | cons word others ih =>
    rw [List.flatMap_cons, List.flatMap_cons, List.append_assoc, List.append_assoc]
    exact .mark .dot (by decide) (.identifier word (stops_others others hstops) ih)

/-- A dotted name is read word by word. -/
theorem Reads.chain (chain : Chain) {rest : List Char} {tokens : List Token}
    (hstops : Stops isWordChar rest) (h : Reads rest tokens) :
    Reads (chain.chars ++ rest) (chain.tokens ++ tokens) := by
  rw [Chain.chars, List.append_assoc]
  exact .identifier chain.first (stops_others chain.others hstops) (.others _ hstops h)

/-- The type arguments behind the first one. -/
theorem Reads.typeArguments (others : List Chain) {rest : List Char} {tokens : List Token}
    (hstops : Stops isWordChar rest) (h : Reads rest tokens) :
    Stops isWordChar (others.flatMap (fun chain => ',' :: chain.chars) ++ rest) ∧
    Reads (others.flatMap (fun chain => ',' :: chain.chars) ++ rest)
      (others.flatMap (fun chain => .punctuation .comma :: chain.tokens) ++ tokens) := by
  induction others with
  | nil => exact ⟨hstops, h⟩
  | cons chain others ih =>
    refine ⟨.cons (by decide) _, ?_⟩
    rw [List.flatMap_cons, List.flatMap_cons, List.append_assoc, List.append_assoc]
    exact .mark .comma (by decide) (.chain chain ih.1 ih.2)

/-- A chain starts with a letter or an underscore. -/
theorem Chain.exists_cons (chain : Chain) :
    ∃ c cs, chain.chars = c :: cs ∧ isWordStart c = true := by
  obtain ⟨⟨text, hstart, _, _, _⟩, others⟩ := chain
  cases htext : text.toList with
  | nil => simp [htext] at hstart
  | cons c cs => exact ⟨c, _, by rw [Chain.chars, htext]; rfl, by simpa [htext] using hstart⟩

/-- The list of type arguments in front of a text that does not go with `>`. -/
theorem Reads.generics (arguments : Option (Chain × List Chain)) {rest : List Char}
    {tokens : List Token} (hword : Stops isWordChar rest) (hop : Stops joinsOperator rest)
    (h : Reads rest tokens) :
    Stops isWordChar (TypeName.argumentChars arguments ++ rest) ∧
    Reads (TypeName.argumentChars arguments ++ rest)
      (TypeName.argumentTokens arguments ++ tokens) := by
  cases arguments with
  | none => exact ⟨hword, h⟩
  | some arguments =>
    obtain ⟨first, others⟩ := arguments
    refine ⟨.cons (by decide) _, ?_⟩
    have hclose : Reads ('>' :: rest) (.operator .greater :: tokens) :=
      .operator (by decide) hop h
    have hothers := Reads.typeArguments others (.cons (by decide) rest) hclose
    have hfirst := Reads.chain first hothers.1 hothers.2
    -- the first argument starts with a letter, which does not go with `<`
    obtain ⟨c, cs, hchars, hc⟩ := first.exists_cons
    have hstops : Stops joinsOperator
        (first.chars ++ (others.flatMap (fun chain => ',' :: chain.chars) ++ '>' :: rest)) := by
      rw [hchars]
      refine .cons ?_ _
      rw [← Bool.not_eq_true]
      intro hjoins
      simp only [joinsOperator, Bool.or_eq_true, decide_eq_true_eq] at hjoins
      rcases hjoins with rfl | rfl <;> revert hc <;> decide
    simpa [TypeName.argumentChars, TypeName.argumentTokens] using
      Reads.operator (by decide) hstops hfirst

/-- A type with a blank behind it. -/
theorem Reads.typeName (type : TypeName) {rest : List Char} {tokens : List Token}
    (h : Reads rest tokens) : Reads (type.chars ++ ' ' :: rest) (type.tokens ++ tokens) := by
  obtain ⟨chain, arguments, isArray⟩ := type
  have hmark : Reads (TypeName.markChars isArray ++ ' ' :: rest)
      (TypeName.markTokens isArray ++ tokens) := by
    cases isArray with
    | true => exact .mark .bracketLeft (by decide) (.mark .bracketRight (by decide) (.space h))
    | false => exact .space h
  have hstops : ∀ p : Char → Bool, p '[' = false → p ' ' = false →
      Stops p (TypeName.markChars isArray ++ ' ' :: rest) := by
    intro p hbracket hspace
    cases isArray with
    | true => exact .cons hbracket _
    | false => exact .cons hspace _
  have hgenerics := Reads.generics arguments (hstops _ (by decide) (by decide))
    (hstops _ (by decide) (by decide)) hmark
  have hchain := Reads.chain chain hgenerics.1 hgenerics.2
  simpa [TypeName.chars, TypeName.tokens] using hchain

-- ---------------------------------------------------------------------------
-- Expressions
-- ---------------------------------------------------------------------------

/-- An operand that is no call is read as its tokens. -/
theorem Reads.atom (atom : Atom) {rest : List Char} {tokens : List Token}
    (hrest : EndsOperand rest) (h : Reads rest tokens) :
    Reads (atom.chars ++ rest) (atom.tokens ++ tokens) := by
  have hstops : Stops isWordChar rest := hrest.stops (by decide)
  cases atom with
  | number numeral => exact .number numeral hrest h
  | string contents => exact .string contents h
  | boolean value =>
    cases value with
    | true => exact .word (by decide) (by decide) hstops h
    | false => exact .word (by decide) (by decide) hstops h
  | color code => exact .color code hstops h
  | name chain => exact .chain chain.toChain hstops h

/-- An expression is read as its tokens wherever an operand can end behind it. -/
def ReadsBack (e : Expr) : Prop :=
  ∀ {rest : List Char} {tokens : List Token}, EndsOperand rest → Reads rest tokens →
    Reads (e.chars ++ rest) (e.tokens ++ tokens)

/-- An argument is read as its name, if it has one, and its value. -/
theorem Reads.argument {argument : Option Word × Expr} (ih : ReadsBack argument.2)
    {rest : List Char} {tokens : List Token} (hrest : EndsOperand rest) (h : Reads rest tokens) :
    Reads (Expr.argumentChars (argument.1, argument.2.chars) ++ rest)
      (Expr.argumentTokens (argument.1, argument.2.tokens) ++ tokens) := by
  obtain ⟨word, e⟩ := argument
  cases word with
  | none => exact ih hrest h
  | some word =>
    rw [Expr.argumentChars, List.append_assoc, List.append_assoc]
    exact .identifier word (.cons (by decide) _) (.assignment (ih hrest h))

/-- Arguments are read one after the other, if each is read for itself. -/
theorem Reads.arguments {arguments : List (Option Word × Expr)}
    (ih : ∀ argument ∈ arguments, ReadsBack argument.2) {rest : List Char} {tokens : List Token}
    (hrest : EndsOperand rest) (h : Reads rest tokens) :
    Reads (Expr.joinedChars (Expr.mapArguments Expr.chars arguments) ++ rest)
      (Expr.joinedTokens (Expr.mapArguments Expr.tokens arguments) ++ tokens) := by
  induction arguments with
  | nil => exact h
  | cons argument others ih' =>
    obtain ⟨hargument, hothers⟩ := List.forall_mem_cons.mp ih
    cases others with
    | nil => exact .argument hargument hrest h
    | cons next others =>
      have hnext := Reads.mark .comma (by decide) (.space (ih' hothers))
      have hfirst := Reads.argument hargument (.comma _) hnext
      simpa [Expr.joinedChars, Expr.joinedTokens] using hfirst

/-- Every expression is read as its tokens. -/
theorem readsBack (e : Expr) : ReadsBack e := by
  induction e using Expr.induction with
  | atom atom =>
    intro rest tokens hrest h
    exact .atom atom hrest h
  | call function positional named ih =>
    intro rest tokens hrest h
    rw [Expr.chars_call, Expr.tokens_call]
    have hclose : Reads (')' :: rest) (.punctuation .parenRight :: tokens) :=
      .mark .parenRight (by decide) h
    have harguments := Reads.arguments ih (.parenRight rest) hclose
    have hopen := Reads.mark .parenLeft (by decide) harguments
    simpa [Punctuation.spelling] using Reads.chain function (.cons (by decide) _) hopen

-- ---------------------------------------------------------------------------
-- Statements and scripts
-- ---------------------------------------------------------------------------

/-- A type, if there is one, before a name. -/
theorem Reads.typePart (type : Option TypeName) {rest : List Char} {tokens : List Token}
    (h : Reads rest tokens) :
    Reads (Statement.typeChars type ++ rest) (Statement.typeTokens type ++ tokens) := by
  cases type with
  | none => exact h
  | some type => simpa [Statement.typeChars, Statement.typeTokens] using Reads.typeName type h

/-- A statement is read as its tokens. -/
theorem Reads.statement (statement : Statement) {rest : List Char} {tokens : List Token}
    (hstops : Stops Text.isSpace rest) (h : Reads rest tokens) :
    Reads (statement.chars ++ rest) (statement.tokens ++ tokens) := by
  -- every statement ends its line
  have hend := Reads.newline hstops h
  cases statement with
  | call function positional named =>
    simpa [Statement.chars, Statement.tokens] using
      readsBack (.call function positional named) (.newline rest) hend
  | declare isVar type name value =>
    have hstop : Stops isWordChar (" = ".toList ++ (value.chars ++ '\n' :: rest)) :=
      .cons (by decide) _
    have hvalue := Reads.assignment (readsBack value (.newline rest) hend)
    have hname := Reads.typePart type (.identifier name hstop hvalue)
    cases isVar with
    | false => simpa [Statement.chars, Statement.tokens] using hname
    | true =>
      have hvar : Reads ("var".toList ++ ' ' :: _) (.keyword .varKw :: _) :=
        .word (by decide) (by decide) (.cons (by decide) _) (.space hname)
      simpa [Statement.chars, Statement.tokens] using hvar
  | reassign type name value =>
    have hstop : Stops isWordChar (" := ".toList ++ (value.chars ++ '\n' :: rest)) :=
      .cons (by decide) _
    have hvalue := Reads.reassignment (readsBack value (.newline rest) hend)
    have hname := Reads.typePart type (.identifier name hstop hvalue)
    simpa [Statement.chars, Statement.tokens] using hname

/-- A letter or an underscore is no blank. -/
theorem not_isSpace_of_isWordStart {c : Char} (h : isWordStart c = true) :
    Text.isSpace c = false := by
  rw [← Bool.not_eq_true]
  intro hspace
  have hword := isWordChar_of_isWordStart h
  rw [isWordChar_of_isSpace hspace] at hword
  cases hword

/-- Behind a word at its front, a text is no blank. -/
theorem stops_chain (chain : Chain) (rest : List Char) :
    Stops Text.isSpace (chain.chars ++ rest) := by
  obtain ⟨c, cs, hchars, hc⟩ := chain.exists_cons
  rw [hchars]
  exact .cons (not_isSpace_of_isWordStart hc) _

/-- A declaration starts with its type or with its name. -/
theorem stops_typePart (type : Option TypeName) (name : Word) (rest : List Char) :
    Stops Text.isSpace (Statement.typeChars type ++ (name.text.toList ++ rest)) := by
  cases type with
  | none => simpa [Chain.chars, Statement.typeChars] using stops_chain ⟨name, []⟩ rest
  | some type =>
    simp only [Statement.typeChars, TypeName.chars, Option.toList_some, List.flatMap_singleton,
      List.append_assoc]
    exact stops_chain type.chain _

/-- A statement does not start with a blank. -/
theorem stops_statement (statement : Statement) (rest : List Char) :
    Stops Text.isSpace (statement.chars ++ rest) := by
  cases statement with
  | call function positional named =>
    rw [Statement.chars, Expr.chars_call, List.append_assoc, List.append_assoc]
    exact stops_chain function _
  | declare isVar type name value =>
    cases isVar with
    | true => exact .cons (by decide) _
    | false =>
      simp only [Statement.chars, List.append_assoc]
      exact stops_typePart type name _
  | reassign type name value =>
    simp only [Statement.chars, List.append_assoc]
    exact stops_typePart type name _

/-- A script is empty or starts at the left margin. -/
theorem stops_script (script : List Statement) :
    Stops Text.isSpace (script.flatMap Statement.chars) := by
  cases script with
  | nil => exact fun _ h => absurd h (by simp)
  | cons statement script => exact stops_statement statement _

/-- A script is read as the tokens of its statements and the end of the file. -/
theorem reads_script (script : List Statement) :
    Reads (script.flatMap Statement.chars) (script.flatMap Statement.tokens ++ [.endOfFile]) := by
  induction script with
  | nil => exact .nil
  | cons statement script ih =>
    rw [List.flatMap_cons, List.flatMap_cons, List.append_assoc]
    exact .statement statement (stops_script script) ih

/-- **Printed scripts are read as their tokens.** -/
theorem lex_print (script : List Statement) :
    (lex (print script)).map Lexed.reading =
      (script.flatMap Statement.tokens ++ [Token.endOfFile]).map .ok := by
  rw [lex, print, String.toList_ofList, Lexer.tokens, Lexer.start,
    openLine_margin _ (stops_script script), List.nil_append]
  exact reads_script script _

end PineCheck.Script
