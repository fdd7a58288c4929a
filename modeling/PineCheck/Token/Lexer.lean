import PineCheck.Text.Alphabetic
import PineCheck.Text.Blank
import PineCheck.Token

/-!
# PineCheck — reading a script as tokens

`lex` reads every script; what is no token becomes a fault, and reading goes on
behind it.

* `lexeme` reads what stands at the front of a nonempty text. It cuts the text
  in two, and the first part is never empty (`lexeme_taken_append_rest`,
  `lexeme_taken_ne_nil`): this is why the scan ends and why nothing is lost.
* `openLine` measures the indentation of a line against the widths of the
  blocks that are open, and tells which blocks begin or end there. Lines that
  are empty, or hold only a line comment, leave the blocks as they are.
* `scan` strings lexemes together and counts positions.
-/

namespace PineCheck

namespace Lexer

/-- Characters that can start a word. -/
def isWordStart (c : Char) : Bool :=
  c.isAlpha || c == '_'

/-- Characters that can go on a word. -/
def isWordChar (c : Char) : Bool :=
  c.isAlphanum || c == '_'

/-- The digits of a number in hexadecimal, of either case. -/
def isHexDigit (c : Char) : Bool :=
  c.isDigit || ('a' ≤ c && c ≤ 'f') || ('A' ≤ c && c ≤ 'F')

/-- What stands at the front of a text: how it reads (not at all, if it is a
blank), its characters, and the text behind it. -/
structure Lexeme where
  reading : Option Reading
  taken : List Char
  rest : List Char

/-! ## String literals -/

/-- What `\c` stands for in a string literal. An unknown escape stands for
itself. -/
def unescape (c : Char) : List Char :=
  if c = 'n' then ['\n']
  else if c = 't' then ['\t']
  else if c = 'r' then ['\r']
  else if c = '\\' || c = '"' || c = '\'' then [c]
  else ['\\', c]

/-- The inside of a string literal up to and with its closing quote: its
contents if it is closed on the same line, the characters read, and the text
behind them. -/
def stringBody (quote : Char) : List Char → Option (List Char) × List Char × List Char
  | [] => (none, [], [])
  | c :: cs =>
    if c = '\n' then (none, [], c :: cs)
    else if c = '\\' then
      match cs with
      | [] => (none, [c], [])
      | d :: ds =>
        -- a break is not escaped: the literal ends open, and the break is left to the scan
        if d = '\n' then (none, [c], d :: ds)
        else
          let (contents, taken, rest) := stringBody quote ds
          (contents.map (unescape d ++ ·), c :: d :: taken, rest)
    else if c = quote then (some [], [c], cs)
    else
      let (contents, taken, rest) := stringBody quote cs
      (contents.map (c :: ·), c :: taken, rest)

/-- The string literal behind an opening quote. -/
def stringLexeme (quote : Char) (cs : List Char) : Lexeme :=
  let (contents, taken, rest) := stringBody quote cs
  match contents with
  | some contents => ⟨some (.ok (.string (String.ofList contents))), quote :: taken, rest⟩
  | none => ⟨some (.error .unterminatedString), quote :: taken, rest⟩

/-! ## Numbers -/

/-- The sign at the front of a number. -/
def signPart : List Char → List Char × List Char
  | [] => ([], [])
  | c :: cs => if c = '-' then ([c], cs) else ([], c :: cs)

/-- The full stop of a number and the digits behind it. A full stop before a
letter is not part of the number. -/
def fractionPart : List Char → List Char × List Char
  | [] => ([], [])
  | c :: cs =>
    -- no digit has to follow, so that `1.` is a number
    if c = '.' && !cs.head?.any Text.isAlphabetic then
      (c :: cs.takeWhile Char.isDigit, cs.dropWhile Char.isDigit)
    else ([], c :: cs)

/-- The exponent of a number, which has at least one digit. -/
def exponentPart : List Char → List Char × List Char
  | c :: d :: cs =>
    if c = 'e' || c = 'E' then
      if d.isDigit then
        (c :: d :: cs.takeWhile Char.isDigit, cs.dropWhile Char.isDigit)
      else if (d = '+' || d = '-') && cs.head?.any Char.isDigit then
        (c :: d :: cs.takeWhile Char.isDigit, cs.dropWhile Char.isDigit)
      -- without a digit the letter starts the next word
      else ([], c :: d :: cs)
    else ([], c :: d :: cs)
  | cs => ([], cs)

/-- The number at the front of a text. -/
def numberLexeme (cs : List Char) : Lexeme :=
  let (sign, cs₁) := signPart cs
  let (fraction, cs₂) := fractionPart (cs₁.dropWhile Char.isDigit)
  let (exponent, cs₃) := exponentPart cs₂
  let taken := sign ++ (cs₁.takeWhile Char.isDigit ++ (fraction ++ exponent))
  ⟨some (.ok (.number (String.ofList taken))), taken, cs₃⟩

/-! ## Words, colors, comments and operators -/

/-- What a word reads as. -/
def wordToken (word : String) : Token :=
  match Keyword.ofSpelling? word with
  | some keyword => .keyword keyword
  | none =>
    if word = "true" then .boolean true
    else if word = "false" then .boolean false
    else .identifier word

/-- The word at the front of a text. -/
def wordLexeme (cs : List Char) : Lexeme :=
  let taken := cs.takeWhile isWordChar
  ⟨some (.ok (wordToken (String.ofList taken))), taken, cs.dropWhile isWordChar⟩

/-- What the characters behind a `#` make of it: a color has six or eight digits. -/
def colorReading (digits : List Char) : Reading :=
  if digits = [] then .error (.unexpectedCharacter '#')
  else if digits.all isHexDigit && (digits.length = 6 || digits.length = 8) then
    .ok (.color (String.ofList ('#' :: digits)))
  else .error .invalidColorLiteral

/-- The color literal behind a `#`. -/
def colorLexeme (cs : List Char) : Lexeme :=
  -- the whole word is taken, so that a bad color is a single fault
  let digits := cs.takeWhile isWordChar
  ⟨some (colorReading digits), '#' :: digits, cs.dropWhile isWordChar⟩

/-- A comment up to the end of its line. -/
def lineCommentLexeme (cs : List Char) : Lexeme :=
  let taken := cs.takeWhile (· != '\n')
  ⟨some (.ok (.comment (String.ofList taken))), taken, cs.dropWhile (· != '\n')⟩

/-- The inside of a block comment up to and with its end, and the text behind
it. A comment that is never closed goes to the end of the script. -/
def blockBody : List Char → List Char × List Char
  | [] => ([], [])
  | c :: cs =>
    -- comments do not nest: the first mark that closes one closes it
    if c = '*' && cs.head? = some '/' then (c :: cs.take 1, cs.drop 1)
    else
      let (taken, rest) := blockBody cs
      (c :: taken, rest)

/-- The block comment at the front of a text. -/
def blockCommentLexeme (cs : List Char) : Lexeme :=
  let (taken, rest) := blockBody (cs.drop 2)
  let taken := cs.take 2 ++ taken
  ⟨some (.ok (.comment (String.ofList taken))), taken, rest⟩

/-- What two characters read as together. -/
def pairReading? (c d : Char) : Option Reading :=
  if d = '=' then
    if c = ':' then some (.ok (.operator .reassignment))
    else if c = '=' then some (.ok (.operator .equals))
    else if c = '!' then some (.ok (.operator .notEquals))
    else if c = '<' then some (.ok (.operator .lessEquals))
    else if c = '>' then some (.ok (.operator .greaterEquals))
    else if c = '+' then some (.ok (.operator .plusAssign))
    else if c = '-' then some (.ok (.operator .minusAssign))
    else if c = '*' then some (.ok (.operator .timesAssign))
    else if c = '/' then some (.ok (.operator .divideAssign))
    else if c = '%' then some (.ok (.operator .moduloAssign))
    else none
  else if c = '=' && d = '>' then some (.ok (.operator .arrow))
  else if c = '*' && d = '/' then some (.error .unmatchedCommentEnd)
  else none

/-- What one character reads as. -/
def singleReading (c : Char) : Reading :=
  if c = '(' then .ok (.punctuation .parenLeft)
  else if c = ')' then .ok (.punctuation .parenRight)
  else if c = '[' then .ok (.punctuation .bracketLeft)
  else if c = ']' then .ok (.punctuation .bracketRight)
  else if c = ',' then .ok (.punctuation .comma)
  else if c = '.' then .ok (.punctuation .dot)
  else if c = ':' then .ok (.punctuation .colon)
  else if c = '?' then .ok (.punctuation .question)
  else if c = '+' then .ok (.operator .plus)
  else if c = '-' then .ok (.operator .minus)
  else if c = '*' then .ok (.operator .times)
  else if c = '/' then .ok (.operator .divide)
  else if c = '%' then .ok (.operator .modulo)
  else if c = '=' then .ok (.operator .assignment)
  else if c = '<' then .ok (.operator .less)
  else if c = '>' then .ok (.operator .greater)
  else .error (.unexpectedCharacter c)

/-- The operator or mark at the front of a text: two characters if they belong
together, else one. -/
def symbolLexeme (c : Char) (cs : List Char) : Lexeme :=
  match cs with
  | [] => ⟨some (singleReading c), [c], []⟩
  | d :: ds =>
    match pairReading? c d with
    | some reading => ⟨some reading, [c, d], ds⟩
    | none => ⟨some (singleReading c), [c], d :: ds⟩

/-! ## One lexeme -/

/-- Whether a number starts with `c`: a digit, or a minus before a digit. -/
def startsNumber (c : Char) (cs : List Char) : Bool :=
  -- the minus belongs to the number also behind an operand
  c.isDigit || (c = '-' && cs.head?.any Char.isDigit)

/-- What stands at the front of the text `c :: cs`. -/
def lexeme (c : Char) (cs : List Char) : Lexeme :=
  if c = '\n' then ⟨some (.ok .newline), [c], cs⟩
  else if c = ' ' || c = '\t' || c = '\r' then ⟨none, [c], cs⟩
  else if c = '"' || c = '\'' then stringLexeme c cs
  else if startsNumber c cs then numberLexeme (c :: cs)
  else if isWordStart c then wordLexeme (c :: cs)
  else if c = '#' then colorLexeme cs
  -- comments are tried before the operator that they start with
  else if c = '/' && cs.head? = some '/' then lineCommentLexeme (c :: cs)
  else if c = '/' && cs.head? = some '*' then blockCommentLexeme (c :: cs)
  else symbolLexeme c cs

/-- The characters that a string literal takes, and the text behind it. -/
theorem stringBody_append (quote : Char) (cs : List Char) :
    (stringBody quote cs).2.1 ++ (stringBody quote cs).2.2 = cs := by
  fun_induction stringBody quote cs <;> simp_all

theorem signPart_append (cs : List Char) : (signPart cs).1 ++ (signPart cs).2 = cs := by
  fun_cases signPart cs <;> simp

theorem fractionPart_append (cs : List Char) :
    (fractionPart cs).1 ++ (fractionPart cs).2 = cs := by
  fun_cases fractionPart cs <;> simp [List.takeWhile_append_dropWhile]

theorem exponentPart_append (cs : List Char) :
    (exponentPart cs).1 ++ (exponentPart cs).2 = cs := by
  fun_cases exponentPart cs <;> simp [List.takeWhile_append_dropWhile]

theorem blockBody_append (cs : List Char) : (blockBody cs).1 ++ (blockBody cs).2 = cs := by
  fun_induction blockBody cs with
  | case1 => rfl
  | case2 c cs _ => exact congrArg (c :: ·) (List.take_append_drop 1 cs)
  | case3 => simp_all

/-- A number and what is behind it make up the text, since each of its parts is cut off the front of
what the part before has left. -/
theorem numberLexeme_append (cs : List Char) :
    (numberLexeme cs).taken ++ (numberLexeme cs).rest = cs := by
  simp only [numberLexeme, List.append_assoc, exponentPart_append, fractionPart_append,
    List.takeWhile_append_dropWhile, signPart_append]

/-- A lexeme cuts its text in two. -/
theorem lexeme_taken_append_rest (c : Char) (cs : List Char) :
    (lexeme c cs).taken ++ (lexeme c cs).rest = c :: cs := by
  unfold lexeme
  split
  · rfl
  split
  · rfl
  split
  -- string literals
  · have h := stringBody_append c cs
    unfold stringLexeme
    split
    rename_i contents taken rest hbody
    rw [hbody] at h
    cases contents <;> simpa using h
  split
  · exact numberLexeme_append _
  split
  · exact List.takeWhile_append_dropWhile
  split
  · simp_all [colorLexeme, List.takeWhile_append_dropWhile]
  split
  · exact List.takeWhile_append_dropWhile
  split
  · simp only [blockCommentLexeme, List.append_assoc, blockBody_append]
    exact List.take_append_drop 2 _
  unfold symbolLexeme
  split
  · rfl
  split <;> rfl

/-- A number holds the digit or the minus that it was recognised by. -/
theorem numberLexeme_taken_ne_nil {c : Char} {cs : List Char} (h : startsNumber c cs = true) :
    (numberLexeme (c :: cs)).taken ≠ [] := by
  by_cases hc : c = '-'
  · simp [numberLexeme, signPart, hc]
  · have hd : c.isDigit = true := by simpa [startsNumber, hc] using h
    simp [numberLexeme, signPart, hc, hd]

theorem isWordChar_of_isWordStart {c : Char} (h : isWordStart c = true) :
    isWordChar c = true := by
  simp only [isWordStart, isWordChar, Char.isAlphanum, Bool.or_eq_true] at *
  exact h.imp_left .inl

/-- A lexeme holds at least one character. -/
theorem lexeme_taken_ne_nil (c : Char) (cs : List Char) : (lexeme c cs).taken ≠ [] := by
  unfold lexeme
  split
  · simp
  split
  · simp
  split
  · unfold stringLexeme
    split
    split <;> simp
  split
  · exact numberLexeme_taken_ne_nil (by assumption)
  split
  · have := isWordChar_of_isWordStart (c := c) (by assumption)
    simp [wordLexeme, this]
  split
  · simp [colorLexeme]
  split
  · simp_all [lineCommentLexeme]
  split
  · simp [blockCommentLexeme]
  unfold symbolLexeme
  split
  · simp
  split <;> simp

/-- What is left behind a lexeme is shorter than the text. -/
theorem length_lexeme_rest_lt (c : Char) (cs : List Char) :
    (lexeme c cs).rest.length < (c :: cs).length := by
  have h := congrArg List.length (lexeme_taken_append_rest c cs)
  have hpos := List.length_pos_iff.mpr (lexeme_taken_ne_nil c cs)
  rw [List.length_append] at h
  omega

/-! ## Layout -/

/-- Where a scan stands: the position, the widths of the open blocks with the
innermost first, and the text that is still to be read. -/
structure Cursor where
  position : Position
  blocks : List Nat
  rest : List Char

/-- Whether nothing but a line comment stands on a line, seen from behind its
indentation. -/
def isBlankLine : List Char → Bool
  | [] => true
  | c :: cs => c == '\n' || c == '\r' || (c == '/' && cs.head? == some '/')

/-- Fits the open blocks to a line of the given width: the blocks that stay
open, with a new one if the line is indented further than they are, and the
number of blocks that the line ends. -/
def fitBlocks (blocks : List Nat) (width : Nat) : List Nat × Nat × Bool :=
  let kept := blocks.dropWhile (width < ·)
  let ended := (blocks.takeWhile (width < ·)).length
  -- a width between those of two blocks ends the inner one and begins a block of its own
  if kept.head?.all (· < width) then (width :: kept, ended, true) else (kept, ended, false)

/-- Reads the indentation of a line, and the marks of layout it stands for. -/
def openLine (cursor : Cursor) : List Lexed × Cursor :=
  let blanks := cursor.rest.takeWhile Text.isSpace
  let rest := cursor.rest.dropWhile Text.isSpace
  let inner := cursor.position.after blanks
  if isBlankLine rest then ([], { cursor with position := inner, rest := rest })
  else
    let (blocks, ended, begins) := fitBlocks cursor.blocks (Text.columns blanks)
    -- a dedent takes no text, and an indent takes the blanks of its line
    let dedents := List.replicate ended ⟨.ok .dedent, Span.emptyAt inner⟩
    let indents := if begins then [⟨.ok .indent, Span.between cursor.position inner⟩] else []
    (dedents ++ indents, { position := inner, blocks := blocks, rest := rest })

/-- Reading an indentation takes characters off the front of the text and adds none. -/
theorem length_openLine_rest_le (cursor : Cursor) :
    (openLine cursor).2.rest.length ≤ cursor.rest.length := by
  have h : (cursor.rest.dropWhile Text.isSpace).length ≤ cursor.rest.length :=
    (List.dropWhile_suffix _).length_le
  unfold openLine
  dsimp only
  split <;> exact h

/-! ## The scan -/

/-- The tokens from inside a line to the end of the script. -/
def scan (cursor : Cursor) : List Lexed :=
  match hrest : cursor.rest with
  | [] =>
    let here := Span.emptyAt cursor.position
    -- the block at the left margin is never closed
    List.replicate (cursor.blocks.length - 1) ⟨.ok .dedent, here⟩ ++ [⟨.ok .endOfFile, here⟩]
  | c :: cs =>
    let front := lexeme c cs
    let next := { cursor with
      position := cursor.position.after front.taken, rest := front.rest }
    let lexed := front.reading.toList.map fun reading =>
      ⟨reading, Span.between cursor.position next.position⟩
    if c = '\n' then
      let opened := openLine next
      lexed ++ (opened.1 ++ scan opened.2)
    else lexed ++ scan next
termination_by cursor.rest.length
decreasing_by
  · have h := length_openLine_rest_le next
    have := length_lexeme_rest_lt c cs
    rw [hrest]
    exact Nat.lt_of_le_of_lt h this
  · rw [hrest]
    exact length_lexeme_rest_lt c cs

/-- The cursor at the start of a script. -/
def start (script : List Char) : Cursor :=
  { position := {}, blocks := [0], rest := script }

/-- The tokens of a list of characters. -/
def tokens (script : List Char) : List Lexed :=
  let opened := openLine (start script)
  opened.1 ++ scan opened.2

end Lexer

/-- The tokens of a script, with faults among them, in order. -/
def lex (source : String) : List Lexed :=
  Lexer.tokens source.toList

end PineCheck
