import PineCheck.Diagnostic.Finding
import PineCheck.Text.Line
import PineCheck.Token.Lexer

/-!
# PineCheck — wrapped lines

A line that ends in an operator or a comma, outside of parentheses, goes on below.
The next line must not be indented by a multiple of four columns, because it
would start a block.
-/

namespace PineCheck.Check.Continuation

open Text

/-- How many parentheses and brackets are open behind a text. What closes nothing
does not count. -/
def openAfter (depth : Nat) (cs : List Char) : Nat :=
  cs.foldl (fun depth c =>
    if c = '(' || c = '[' then depth + 1
    else if c = ')' || c = ']' then depth - 1
    else depth) depth

/-- Whether a line goes on below: it ends in an operator or a comma, or in one of
the words `and` and `or` behind something else. -/
def goesOn (text : List Char) : Bool :=
  match (trimEnd text).reverse with
  | [] => false
  | last :: before =>
    if ",+-*/%?:<".toList.contains last then true
    -- an arrow opens a block instead
    else if last = '>' then before.head? ≠ some '='
    else
      let reversed := last :: before
      let word := (reversed.takeWhile Lexer.isWordChar).reverse
      (word = "and".toList || word = "or".toList) && reversed.dropWhile Lexer.isWordChar ≠ []

/-- The finding about the first of the later lines that is not blank. -/
def checkNext? (script : List Char) (line : Line) (later : List Line) : Option Finding := do
  let next ← later.find? (!·.isBlank)
  let indentation := next.indentation
  -- at the left margin no block starts
  if indentation = 0 || indentation % 4 ≠ 0 then none
  else
    some ⟨.badContinuation next.number line.number indentation,
      locate script next.offset (byteLength next.text)⟩

/-- The findings about lines, with `depth` parentheses open before them. -/
def checkLines (script : List Char) (depth : Nat) : List Line → List Finding
  | [] => []
  | line :: later =>
    let depth := openAfter depth line.text
    let here :=
      if depth = 0 && goesOn line.text then (checkNext? script line later).toList else []
    here ++ checkLines script depth later

/-- The findings about wrapped lines in a script. -/
def check (script masked : List Char) : List Finding :=
  checkLines script 0 (lines masked)

end PineCheck.Check.Continuation
