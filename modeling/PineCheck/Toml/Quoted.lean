import PineCheck.Text.Blank
import PineCheck.Text.Digit

/-!
# PineCheck — strings in settings files

A string stands in double quotes, where a backslash starts an escape, or in
single quotes, where every character stands for itself. A string that is opened
by three quotes may go over several lines and is closed by three quotes.

`contents?` takes one character after the other; what it has to remember of the
characters before is a `Stage`.
-/

namespace PineCheck.Toml

/-- How a string is written. -/
structure StringForm where
  quote : Char
  isMultiLine : Bool
deriving DecidableEq

/-- Whether a backslash starts an escape. -/
def StringForm.hasEscapes (form : StringForm) : Bool :=
  form.quote = '"'

/-- Where the reading of a string stands. -/
inductive Stage where
  | text
  /-- Behind a backslash. -/
  | escape
  /-- In an escape that gives a character by its number, of which `left` digits
  are to come and `value` is known. -/
  | number (left value : Nat)
  /-- Behind a backslash that joins two lines, before the end of the first. -/
  | joint
  /-- Behind the end of the first of two joined lines, where blanks are left out. -/
  | gap
deriving DecidableEq

/-- The character that a letter behind a backslash stands for. -/
def escaped? (c : Char) : Option Char :=
  if c = '"' || c = '\\' then some c
  else if c = 'b' then some '\x08'
  else if c = 'f' then some '\x0c'
  else if c = 'n' then some '\n'
  else if c = 'r' then some '\r'
  else if c = 't' then some '\t'
  else none

/-- The character of a number. Not every number has one. -/
def charOf? (n : Nat) : Option Char :=
  if n < 0xD800 || (0xDFFF < n && n < 0x110000) then some (Char.ofNat n) else none

/-- Whether a character may stand for itself in a string. -/
def isTextChar (c : Char) : Bool :=
  c = '\t' || (0x20 ≤ c.toNat && c.toNat ≠ 0x7F)

/-- The end of a string at the front of a text: the quotes that still belong to
the string, and the text behind it. Of up to five quotes at the end of a string
of several lines the last three close it. -/
def closing? (form : StringForm) (cs : List Char) : Option (List Char × List Char) :=
  -- two quotes before the three that close a string are still in it
  let quotes := (cs.takeWhile (· = form.quote)).take (if form.isMultiLine then 5 else 1)
  let needed := if form.isMultiLine then 3 else 1
  if quotes.length < needed then none
  else some (quotes.drop needed, cs.drop quotes.length)

/-- The contents of a string behind its opening quotes, and the text behind the
string. -/
def contents? (form : StringForm) : Stage → List Char → Option (List Char × List Char)
  | _, [] => none
  | .escape, c :: cs =>
    if c = 'u' then contents? form (.number 4 0) cs
    else if c = 'U' then contents? form (.number 8 0) cs
    else if form.isMultiLine && c = '\n' then contents? form .gap cs
    else if form.isMultiLine && Text.isSpace c then contents? form .joint cs
    else do
      let c ← escaped? c
      let (text, rest) ← contents? form .text cs
      some (c :: text, rest)
  | .number left value, c :: cs => do
    let digit ← Text.hexDigit? c
    let value := 16 * value + digit
    -- the last digit gives the character
    if 1 < left then contents? form (.number (left - 1) value) cs
    else do
      let c ← charOf? value
      let (text, rest) ← contents? form .text cs
      some (c :: text, rest)
  | .joint, c :: cs =>
    if c = '\n' then contents? form .gap cs
    else if Text.isSpace c then contents? form .joint cs
    else none
  | stage, c :: cs =>
    if stage = .gap && (c = '\n' || Text.isSpace c) then contents? form .gap cs
    else match closing? form (c :: cs) with
      | some closed => some closed
      | none =>
        if c = '\\' && form.hasEscapes then contents? form .escape cs
        else if isTextChar c || (form.isMultiLine && c = '\n') then do
          let (text, rest) ← contents? form .text cs
          some (c :: text, rest)
        else none

/-- The string at the front of a text, and the text behind it. A line end right
behind three opening quotes does not belong to the string. -/
def readString? : List Char → Option (StringForm × String × List Char)
  | [] => none
  | quote :: cs =>
    if quote = '"' || quote = '\'' then
      let (form, cs) : StringForm × List Char :=
        match Text.dropWord? [quote, quote] cs with
        | some ('\n' :: rest) => (⟨quote, true⟩, rest)
        | some rest => (⟨quote, true⟩, rest)
        | none => (⟨quote, false⟩, cs)
      (contents? form .text cs).map fun (text, rest) => (form, String.ofList text, rest)
    else none

end PineCheck.Toml
