import PineCheck.Text.Slice
import PineCheck.Token.Lexer

/-!
# PineCheck — call sites in masked text

A call site is a name, perhaps with a namespace, followed by an opening
parenthesis. Call sites are found in masked text without a parse, so that they
are found also where the parse fails.

* `callSites` lists the call sites of a text in order, nested ones too.
* `splitArguments` cuts an argument list at its own commas.
* `namedArguments` picks the arguments of the form `name = value`.
-/

namespace PineCheck.Text

open Lexer (isWordStart isWordChar)

/-- The word at the front of a text, if there is one, and the text behind it. -/
def word? (cs : List Char) : Option (List Char × List Char) :=
  match cs with
  | [] => none
  | c :: _ =>
    if isWordStart c then some (cs.takeWhile isWordChar, cs.dropWhile isWordChar) else none

/-- The end of a name with its namespaces: words joined by full stops. -/
def nameTail : List Char → List Char × List Char
  | [] => ([], [])
  | c :: cs =>
    -- a full stop belongs to the name only before another word
    if isWordChar c || (c = '.' && cs.head?.any isWordStart) then
      let (taken, rest) := nameTail cs
      (c :: taken, rest)
    else ([], c :: cs)

/-- The text before the delimiter that brings the depth down to zero, and the
text from that delimiter on. -/
def upToClosing? (opening closing : Char) (depth : Int) :
    List Char → Option (List Char × List Char)
  | [] => none
  | c :: cs =>
    if c = closing && depth = 1 then some ([], c :: cs)
    else
      -- behind a delimiter that closes nothing the depth is below zero
      let depth :=
        if c = opening then depth + 1 else if c = closing then depth - 1 else depth
      (upToClosing? opening closing depth cs).map fun (inside, rest) => (c :: inside, rest)

/-- How many bytes lie before the bracket that closes the first one. -/
def closingBracket? (cs : List Char) : Option Nat :=
  (upToClosing? '[' ']' 0 cs).map fun (inside, _) => byteLength inside

/-- A name followed by an argument list. -/
structure CallSite where
  /-- The name with its namespaces. -/
  name : String
  offset : Nat
  /-- The text between the parentheses. -/
  arguments : Slice
  isClosed : Bool
  /-- Whether this is the head of a function definition, `f(x) =>`. -/
  isDefinition : Bool
deriving Inhabited

/-- Whether an arrow follows, behind spaces. -/
def arrowFollows (cs : List Char) : Bool :=
  match skipSpaces cs with
  | '=' :: '>' :: _ => true
  | _ => false

/-- The call site whose name starts at the front of a text. A keyword before a
parenthesis is none. -/
def callSiteAt? (offset : Nat) (cs : List Char) : Option CallSite :=
  let (name, behind) := nameTail cs
  let blanks := behind.takeWhile isSpace
  match skipSpaces behind with
  | '(' :: inner =>
    let name := String.ofList name
    if (Keyword.ofSpelling? name).isSome then none
    else
      let start := offset + byteLength name.toList + byteLength blanks + 1
      match upToClosing? '(' ')' 1 inner with
      | some (inside, rest) =>
        some ⟨name, offset, ⟨start, inside⟩, true, arrowFollows (rest.drop 1)⟩
      -- an argument list that is left open goes to the end of the script
      | none => some ⟨name, offset, ⟨start, inner⟩, false, false⟩
  | _ => none

/-- Whether a name can start at `c`: names do not start inside a word nor behind
a full stop. -/
def startsName (previous : Option Char) (c : Char) : Bool :=
  isWordStart c && !previous.any fun p => isWordChar p || p = '.'

/-- The call sites of a text, seen from a place inside it. -/
def callSitesFrom (previous : Option Char) (offset : Nat) : List Char → List CallSite
  | [] => []
  | c :: cs =>
    let here := if startsName previous c then (callSiteAt? offset (c :: cs)).toList else []
    here ++ callSitesFrom (some c) (offset + c.utf8Size) cs

/-- Every call site of a masked text, in order. -/
def callSites (masked : List Char) : List CallSite :=
  callSitesFrom none 0 masked

/-! ## Arguments -/

/-- The pieces of an argument list between the commas that stand in no further
parentheses or brackets. -/
def rawArguments (depth : Int) : List Char → List (List Char)
  | [] => [[]]
  | c :: cs =>
    if c = ',' && depth = 0 then [] :: rawArguments depth cs
    else
      -- behind a mark that closes nothing the depth is below zero, and commas do not cut
      let depth :=
        if c = '(' || c = '[' then depth + 1
        else if c = ')' || c = ']' then depth - 1
        else depth
      match rawArguments depth cs with
      | [] => [[c]]
      | piece :: pieces => (c :: piece) :: pieces

/-- Places pieces one behind the other, with a comma between them. -/
def placePieces (offset : Nat) : List (List Char) → List Slice
  | [] => []
  | piece :: pieces => ⟨offset, piece⟩ :: placePieces (offset + byteLength piece + 1) pieces

/-- The arguments of an argument list, trimmed. An empty list has none. -/
def splitArguments (arguments : Slice) : List Slice :=
  let parts := (placePieces arguments.offset (rawArguments 0 arguments.text)).map Slice.trim
  match parts with
  | [part] => if part.text = [] then [] else [part]
  | parts => parts

/-- An argument of the form `name = value`. -/
structure NamedArgument where
  name : String
  offset : Nat
  value : Slice
deriving Inhabited

/-- Reads an argument as a named one. Comparisons and arrows give no name. -/
def namedArgument? (part : Slice) : Option NamedArgument := do
  let (name, behind) ← word? part.text
  match skipSpaces behind with
  | '=' :: value =>
    if value.head? = some '=' || value.head? = some '>' then none
    else
      let before := byteLength name + byteLength (behind.takeWhile isSpace) + 1
      some ⟨String.ofList name, part.offset, (Slice.mk (part.offset + before) value).trim⟩
  | _ => none

/-- The named arguments of an argument list, in order. -/
def namedArguments (arguments : Slice) : List NamedArgument :=
  (splitArguments arguments).filterMap namedArgument?

/-! ## Probing every offset -/

/-- What a text holds at one byte offset: the end of the word that starts there,
the end of the spaces that start there, and the bracket that closes the first
one from there on. -/
structure Probe where
  wordEnd : Option Nat
  spacesEnd : Nat
  bracketEnd : Option Nat

/-- Probes every byte offset of a text, with the one behind it. Inside a
character there is neither a word nor a space. -/
def probes (offset : Nat) : List Char → List Probe
  | [] => [⟨none, offset, none⟩]
  | c :: cs =>
    let text := c :: cs
    let next := offset + c.utf8Size
    let first : Probe :=
      { wordEnd := (word? text).map fun (word, _) => offset + byteLength word
        spacesEnd := offset + byteLength (text.takeWhile isSpace)
        bracketEnd := (closingBracket? text).map (offset + ·) }
    -- inside a character only the search for a bracket goes on
    let inner := (List.range (c.utf8Size - 1)).map fun i =>
      ⟨none, offset + i + 1, (closingBracket? cs).map (next + ·)⟩
    first :: (inner ++ probes next cs)

end PineCheck.Text
