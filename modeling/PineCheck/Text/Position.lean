/-!
# PineCheck — positions and spans

A script is a list of characters. Every place in it is told in three ways at
once: as an offset in UTF-8 bytes, as a line counted from one, and as a column
counted in characters from zero. `Position.advance` moves a position over one
character and is the only way in which the three move, so they never disagree.

A `Span` is a stretch of the script together with the line and column at which
it starts. `locate` finds the span of any pair of byte offset and byte length:
an offset inside a character stands for the start of that character, and an
offset behind the text stands for its end.
-/

namespace PineCheck

/-- The number of bytes that characters take in UTF-8. -/
def byteLength (cs : List Char) : Nat :=
  cs.foldr (fun c n => c.utf8Size + n) 0

@[simp] theorem byteLength_nil : byteLength [] = 0 := rfl

@[simp] theorem byteLength_cons (c : Char) (cs : List Char) :
    byteLength (c :: cs) = c.utf8Size + byteLength cs := rfl

@[simp] theorem byteLength_append (a b : List Char) :
    byteLength (a ++ b) = byteLength a + byteLength b := by
  induction a with
  | nil => simp
  | cons c cs ih => simp [ih, Nat.add_assoc]

/-- A place between two characters of a script. -/
structure Position where
  /-- Bytes before this place. -/
  offset : Nat := 0
  /-- One more than the line breaks before this place. -/
  line : Nat := 1
  /-- Characters between the start of the line and this place. -/
  column : Nat := 0
deriving DecidableEq, Inhabited

namespace Position

/-- The position behind a character that starts here. -/
def advance (p : Position) (c : Char) : Position :=
  if c = '\n' then { offset := p.offset + c.utf8Size, line := p.line + 1, column := 0 }
  else { offset := p.offset + c.utf8Size, line := p.line, column := p.column + 1 }

/-- The position behind a text that starts here. -/
def after (p : Position) (cs : List Char) : Position :=
  cs.foldl advance p

@[simp] theorem after_nil (p : Position) : p.after [] = p := rfl

@[simp] theorem after_cons (p : Position) (c : Char) (cs : List Char) :
    p.after (c :: cs) = (p.advance c).after cs := rfl

theorem after_append (p : Position) (a b : List Char) :
    p.after (a ++ b) = (p.after a).after b := by
  simp [after, List.foldl_append]

@[simp] theorem advance_offset (p : Position) (c : Char) :
    (p.advance c).offset = p.offset + c.utf8Size := by
  unfold advance
  split <;> rfl

/-- A text moves the offset by its length in bytes. -/
@[simp] theorem after_offset (p : Position) (cs : List Char) :
    (p.after cs).offset = p.offset + byteLength cs := by
  induction cs generalizing p with
  | nil => rfl
  | cons c cs ih =>
    rw [after_cons, ih, advance_offset, byteLength_cons]
    omega

/-- The position of the last character boundary that is not behind byte
`limit`, for a text that starts here. -/
def seek (p : Position) (limit : Nat) : List Char → Position
  | [] => p
  | c :: cs => if p.offset + c.utf8Size ≤ limit then (p.advance c).seek limit cs else p

end Position

/-- A stretch of a script, with the line and column of its start. -/
structure Span where
  start : Nat
  stop : Nat
  line : Nat
  column : Nat
deriving DecidableEq, Inhabited

namespace Span

/-- The stretch between two positions. -/
def between (p q : Position) : Span :=
  { start := p.offset, stop := q.offset, line := p.line, column := p.column }

/-- The empty stretch at a position. -/
def emptyAt (p : Position) : Span :=
  between p p

/-- The number of bytes in a span. -/
def length (s : Span) : Nat :=
  s.stop - s.start

/-- Stretches a span to the end of another one, if that lies further on. -/
def through (s other : Span) : Span :=
  -- a span keeps its start, also if the other one lies before it
  if s.stop < other.stop then { s with stop := other.stop } else s

/-- Tells a reader where a span of a file starts. -/
def describe (s : Span) (file : String) : String :=
  "at " ++ file ++ ":" ++ toString s.line ++ ":" ++ toString s.column

end Span

/-- The span of `length` bytes from byte `offset` of a script, moved back to
character boundaries and cut off at the end of the script. -/
def locate (script : List Char) (offset length : Nat) : Span :=
  let start := Position.seek {} offset script
  -- the length counts from the boundary and not from the offset that was asked for
  let stop := Position.seek {} (start.offset + length) script
  Span.between start stop

end PineCheck
