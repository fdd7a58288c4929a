import PineCheck.Text.Blank
import PineCheck.Text.Position

/-!
# PineCheck — slices

A slice is a piece of a text that knows at which byte of the text it starts.
-/

namespace PineCheck.Text

/-- A piece of a text. -/
structure Slice where
  offset : Nat
  text : List Char
deriving DecidableEq, Inhabited

namespace Slice

/-- The offset behind a slice. -/
def stop (s : Slice) : Nat :=
  s.offset + byteLength s.text

/-- A slice without the characters at its front for which `p` holds. -/
def dropWhile (s : Slice) (p : Char → Bool) : Slice :=
  { offset := s.offset + byteLength (s.text.takeWhile p), text := s.text.dropWhile p }

/-- A slice without the blanks of ASCII at its ends. -/
def trim (s : Slice) : Slice :=
  let front := s.dropWhile isAsciiBlank
  { front with text := dropEndWhile isAsciiBlank front.text }

end Slice

/-- The piece of a text between two byte offsets, which both lie on character
boundaries. -/
def between (cs : List Char) (start stop : Nat) : List Char :=
  match cs with
  | [] => []
  | c :: cs =>
    if stop = 0 then []
    else if start = 0 then c :: between cs 0 (stop - c.utf8Size)
    else between cs (start - c.utf8Size) (stop - c.utf8Size)

end PineCheck.Text
