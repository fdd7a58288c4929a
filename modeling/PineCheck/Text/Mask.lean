import PineCheck.Text.Position

/-!
# PineCheck — masked text

Many checks look at the text of a script without reading it as tokens. They work
on a masked copy in which the inside of strings and comments is blank. Every
masked character becomes as many spaces as it has bytes, and line breaks stay,
so that offsets and lines are the same in both copies.
-/

namespace PineCheck.Text

/-- What the next character of a script belongs to. -/
inductive Region where
  | code
  | string (quote : Char)
  /-- The character behind a backslash in a string. -/
  | escaped (quote : Char)
  | lineComment
  | blockComment
  /-- The second character of the mark that opens a block comment. -/
  | blockOpening
  /-- The second character of the mark that closes a block comment. -/
  | blockClosing
deriving DecidableEq, Inhabited

/-- A character with all its bytes made blank. -/
def blanked (c : Char) : List Char :=
  List.replicate c.utf8Size ' '

/-- Masks one character, knowing the next one, and tells what that belongs to. -/
def maskChar (region : Region) (c : Char) (next : Option Char) : List Char × Region :=
  match region with
  | .code =>
    if c = '/' && next = some '/' then (blanked c, .lineComment)
    -- the star is masked on its own, so that it does not close the comment it opens
    else if c = '/' && next = some '*' then (blanked c, .blockOpening)
    else if c = '"' || c = '\'' then ([c], .string c)
    else ([c], .code)
  | .string quote =>
    -- a string that is not closed ends with its line
    if c = '\n' then ([c], .code)
    -- at the end of a line a backslash escapes nothing
    else if c = '\\' && next.any (· ≠ '\n') then (blanked c, .escaped quote)
    else if c = quote then ([c], .code)
    else (blanked c, .string quote)
  | .escaped quote => (blanked c, .string quote)
  | .lineComment => if c = '\n' then ([c], .code) else (blanked c, .lineComment)
  | .blockComment =>
    if c = '*' && next = some '/' then (blanked c, .blockClosing)
    else if c = '\n' then ([c], .blockComment)
    else (blanked c, .blockComment)
  | .blockOpening => (blanked c, .blockComment)
  | .blockClosing => (blanked c, .code)

/-- Masks a text that starts inside a region. -/
def maskFrom (region : Region) : List Char → List Char
  | [] => []
  | c :: cs =>
    let (masked, next) := maskChar region c cs.head?
    masked ++ maskFrom next cs

/-- A script with the inside of its strings and comments made blank. -/
def mask (script : List Char) : List Char :=
  maskFrom .code script

end PineCheck.Text
