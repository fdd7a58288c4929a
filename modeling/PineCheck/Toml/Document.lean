import PineCheck.Toml.Quoted

/-!
# PineCheck — settings files

Settings files are written in TOML: an entry `key = value` to a line, comments
behind `#`, and headers in brackets that open a table.

No setting is an array, a date, a number with a fraction or a key with parts, so
that a document with one of these is no settings file, and `read?` does not
accept it. A setting that chooses between words may be written as a word, or as a
table that has the word as its only key and an empty table as its value.
-/

namespace PineCheck.Toml

/-- The value of an entry. -/
inductive Value where
  | text (value : String)
  | integer (value : Int)
  | boolean (value : Bool)
  /-- A table with this one key, whose value is an empty table. -/
  | table (key : String)
deriving DecidableEq, Inhabited

/-- A line of a document that is not blank. -/
inductive Item where
  | entry (key : String) (value : Value)
  | header (path : List String)
deriving DecidableEq, Inhabited

/-! ## Characters -/

/-- Writes every line end as a single character. -/
def foldLineEnds : List Char → List Char
  | [] => []
  | '\r' :: '\n' :: cs => '\n' :: foldLineEnds cs
  | c :: cs => c :: foldLineEnds cs

/-- Leaves out a byte order mark. -/
def dropOrderMark : List Char → List Char
  | [] => []
  | c :: cs => if c.toNat = 0xFEFF then cs else c :: cs

/-- Whether a character may stand in a key without quotes. -/
def isKeyChar (c : Char) : Bool :=
  c.isAlphanum || c = '-' || c = '_'

/-- Whether a character may stand in a comment. -/
def isCommentChar (c : Char) : Bool :=
  c = '\t' || 0x20 ≤ c.toNat

/-- The text behind the end of a line, before which there may be blanks and a
comment. -/
def lineEnd? (cs : List Char) : Option (List Char) :=
  let rest :=
    match Text.skipSpaces cs with
    | '#' :: cs => cs.dropWhile isCommentChar
    | cs => cs
  match rest with
  | [] => some []
  | c :: cs => if c = '\n' then some cs else none

/-- The text behind a mark, with the blanks around the mark left out. -/
def mark? (mark : Char) (cs : List Char) : Option (List Char) :=
  match Text.skipSpaces cs with
  | [] => none
  | c :: cs => if c = mark then some (Text.skipSpaces cs) else none

/-! ## Keys and values -/

/-- The key at the front of a text. In quotes it has to stay on its line. -/
def readKey? (cs : List Char) : Option (String × List Char) :=
  match cs.takeWhile isKeyChar with
  | [] => do
    let (form, key, rest) ← readString? cs
    if form.isMultiLine then none else some (key, rest)
  | key => some (String.ofList key, cs.dropWhile isKeyChar)

/-- The digits of a number, which may have underscores between them. -/
def digits? (base : Nat) (cs : List Char) : Option (List Nat) :=
  let groups := Text.splitAll (· = '_') cs
  -- an underscore stands between two digits
  if groups.any List.isEmpty then none else groups.flatten.mapM (Text.digit? base)

/-- A number in the decimal system, which has no zeros at its front. -/
def decimal? (cs : List Char) : Option Nat := do
  let digits ← digits? 10 cs
  if digits.head? = some 0 && 1 < digits.length then none
  else some (Text.ofDigits 10 digits)

/-- A number in a system that is named at its front, or in the decimal system
with a minus before it. -/
def number? : List Char → Option Int
  | '0' :: 'x' :: cs => (digits? 16 cs).map fun digits => (Text.ofDigits 16 digits : Int)
  | '0' :: 'o' :: cs => (digits? 8 cs).map fun digits => (Text.ofDigits 8 digits : Int)
  | '0' :: 'b' :: cs => (digits? 2 cs).map fun digits => (Text.ofDigits 2 digits : Int)
  | '-' :: cs => (decimal? cs).map fun n => -(n : Int)
  | cs => (decimal? cs).map fun n => (n : Int)

/-- A number that fits a signed machine word. -/
def integer? (cs : List Char) : Option Int :=
  (number? cs).filter fun n => -0x8000000000000000 ≤ n && n < 0x8000000000000000

/-- The value that a word without quotes stands for. -/
def wordValue? (word : List Char) : Option Value :=
  if word = "true".toList then some (.boolean true)
  else if word = "false".toList then some (.boolean false)
  else (integer? word).map .integer

/-- The table that is written behind an opening brace. -/
def readTable? (cs : List Char) : Option (Value × List Char) := do
  let (key, cs) ← readKey? (Text.skipSpaces cs)
  let cs ← mark? '=' cs
  let cs ← mark? '\x7b' cs
  let cs ← mark? '\x7d' cs
  let cs ← mark? '\x7d' cs
  some (.table key, cs)

/-- The value at the front of a text. A number may have a plus before it. -/
def readValue? (cs : List Char) : Option (Value × List Char) :=
  match cs with
  | [] => none
  | '\x7b' :: cs => readTable? cs
  | '+' :: cs =>
    (integer? (cs.takeWhile isKeyChar)).map fun n => (.integer n, cs.dropWhile isKeyChar)
  | '"' :: _ | '\'' :: _ => (readString? cs).map fun (_, text, rest) => (.text text, rest)
  | cs => (wordValue? (cs.takeWhile isKeyChar)).map fun value => (value, cs.dropWhile isKeyChar)

/-! ## Documents -/

/-- The entry at the front of a text. -/
def readEntry? (cs : List Char) : Option (Item × List Char) := do
  let (key, cs) ← readKey? cs
  let cs ← mark? '=' cs
  let (value, rest) ← readValue? cs
  some (.entry key value, rest)

/-- The keys of a header, which points separate. -/
def readPath? : Nat → List Char → Option (List String × List Char)
  | 0, _ => none
  | fuel + 1, cs => do
    let (key, cs) ← readKey? (Text.skipSpaces cs)
    match mark? '.' cs with
    | some cs =>
      let (path, rest) ← readPath? fuel cs
      some (key :: path, rest)
    | none => some ([key], Text.skipSpaces cs)

/-- The header at the front of a text, in one or two pairs of brackets. -/
def readHeader? (cs : List Char) : Option (Item × List Char) := do
  let (brackets, cs) :=
    match cs with
    | '[' :: '[' :: cs => ("]]", cs)
    | cs => ("]", cs.drop 1)
  let (path, cs) ← readPath? (cs.length + 1) cs
  let rest ← Text.dropWord? brackets.toList cs
  some (.header path, rest)

/-- The lines of a document. -/
def readItems? : Nat → List Char → Option (List Item)
  | 0, _ => none
  | fuel + 1, cs =>
    match Text.skipSpaces cs with
    | [] => some []
    | c :: cs =>
      if c = '#' || c = '\n' then do
        let rest ← lineEnd? (c :: cs)
        readItems? fuel rest
      else do
        let (item, rest) ← if c = '[' then readHeader? (c :: cs) else readEntry? (c :: cs)
        let rest ← lineEnd? rest
        let items ← readItems? fuel rest
        some (item :: items)

/-- The document in a text. A line takes at least one character, so the length of
the text bounds their number. -/
def read? (text : String) : Option (List Item) :=
  let cs := foldLineEnds (dropOrderMark text.toList)
  readItems? (cs.length + 1) cs

end PineCheck.Toml
