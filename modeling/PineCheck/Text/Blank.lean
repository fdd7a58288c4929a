/-!
# PineCheck — blanks and trimming

Two notions of a blank are in use. Lines of a script are trimmed and split at
every character with the Unicode property `White_Space`; the parts of an
argument list are trimmed of the five blanks of ASCII.
-/

namespace PineCheck.Text

/-- Whether a character is white space in any script. -/
def isWhite (c : Char) : Bool :=
  let n := c.toNat
  (9 ≤ n && n ≤ 13) || n = 0x20 || n = 0x85 || n = 0xA0 || n = 0x1680
    || (0x2000 ≤ n && n ≤ 0x200A) || n = 0x2028 || n = 0x2029 || n = 0x202F || n = 0x205F
    || n = 0x3000

/-- Whether a character is one of the blanks of ASCII: space, tab, line feed,
form feed and carriage return. -/
def isAsciiBlank (c : Char) : Bool :=
  c = ' ' || c = '\t' || c = '\n' || c = '\x0c' || c = '\r'

/-- Whether a character is a space or a tab. -/
def isSpace (c : Char) : Bool :=
  c = ' ' || c = '\t'

/-- The number of columns that a tab stands for. -/
def tabWidth : Nat := 4

/-- The number of columns that spaces and tabs take. -/
def columns (blanks : List Char) : Nat :=
  blanks.foldr (fun c n => (if c = '\t' then tabWidth else 1) + n) 0

/-- Leaves out the spaces and tabs at the front of a text. -/
def skipSpaces (cs : List Char) : List Char :=
  cs.dropWhile isSpace

/-- Leaves out the end of a text as far as `p` holds. -/
def dropEndWhile (p : Char → Bool) (cs : List Char) : List Char :=
  (cs.reverse.dropWhile p).reverse

/-- Leaves out the white space at the front of a text. -/
def trimStart (cs : List Char) : List Char :=
  cs.dropWhile isWhite

/-- Leaves out the white space at the end of a text. -/
def trimEnd (cs : List Char) : List Char :=
  dropEndWhile isWhite cs

/-- Leaves out the white space at both ends of a text. -/
def trim (cs : List Char) : List Char :=
  trimEnd (trimStart cs)

/-- Cuts a text at every character for which `p` holds. There is always one more
piece than there are cuts. -/
def splitAll (p : Char → Bool) : List Char → List (List Char)
  | [] => [[]]
  | c :: cs =>
    if p c then [] :: splitAll p cs
    else match splitAll p cs with
      -- not met: there is always a piece
      | [] => [[c]]
      | piece :: pieces => (c :: piece) :: pieces

/-- The words of a text, which stand between white space. -/
def words (cs : List Char) : List (List Char) :=
  (splitAll isWhite cs).filter (· ≠ [])

/-- The text behind a word, if it starts with the word. -/
def dropWord? : List Char → List Char → Option (List Char)
  | [], cs => some cs
  | _ :: _, [] => none
  | w :: ws, c :: cs => if w = c then dropWord? ws cs else none

/-- The contents of a string literal in either kind of quotes, with its escapes
as they are written. -/
def unquote? (cs : List Char) : Option (List Char) :=
  match trim cs with
  | [] => none
  | quote :: rest =>
    -- only the ends are looked at: quotes in between are contents
    if (quote = '"' || quote = '\'') && rest.getLast? = some quote then some rest.dropLast
    else none

end PineCheck.Text
