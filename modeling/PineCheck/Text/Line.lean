import PineCheck.Text.Blank
import PineCheck.Text.Position

/-!
# PineCheck — lines

The lines of a text, numbered from one, with the offset at which each starts. A
line ends at a line feed, and a carriage return before it is not part of it.
-/

namespace PineCheck.Text

/-- One line of a text. -/
structure Line where
  number : Nat
  offset : Nat
  text : List Char
deriving Inhabited

namespace Line

/-- The columns that the spaces and tabs at the front of a line take. -/
def indentation (line : Line) : Nat :=
  columns (line.text.takeWhile isSpace)

/-- Whether a line holds nothing but white space. -/
def isBlank (line : Line) : Bool :=
  line.text.all isWhite

/-- Whether a line starts with a space or a tab. -/
def isIndented (line : Line) : Bool :=
  line.text.head?.any isSpace

end Line

/-- A line without a carriage return at its end. -/
def dropReturn (cs : List Char) : List Char :=
  if cs.getLast? = some '\r' then cs.dropLast else cs

/-- Numbers lines and finds their offsets. -/
def numberLines (number offset : Nat) : List (List Char) → List Line
  | [] => []
  | raw :: raws =>
    ⟨number, offset, dropReturn raw⟩ :: numberLines (number + 1) (offset + byteLength raw + 1) raws

/-- The lines of a text. There is always one more than there are line feeds. -/
def lines (cs : List Char) : List Line :=
  numberLines 1 0 (splitAll (· = '\n') cs)

end PineCheck.Text
