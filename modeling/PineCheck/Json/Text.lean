import PineCheck.Json.Value
import PineCheck.Text.Blank
import PineCheck.Text.Digit

/-!
# PineCheck — reading JSON texts

Reading goes in two steps. `JsonText.read?` checks the grammar and keeps the
text as it is written: numbers as their digits, strings with their escapes. What
the text means is decided afterwards by whoever uses it, because the meaning can
fail where the grammar does not: an escape may name half a character, a number
may be too large, and arrays may be nested too deeply.

* `JsonText.value?` gives the whole text a meaning.
* `JsonText.record?` takes a text for a record with named fields and leaves the
  rest of it unread.
-/

namespace PineCheck

/-- A number as it is written. -/
structure Numeral where
  isNegative : Bool
  whole : List Char
  /-- The digits behind the point, of which there are none without a point. -/
  fraction : List Char
  /-- The sign and the digits of the exponent. -/
  exponent : Option (Bool × List Char)
deriving Inhabited

/-- A piece of a string as it is written: a character, or a `\u` escape with the
number it names. -/
inductive StringPiece where
  | plain (c : Char)
  | unit (n : Nat)
deriving Inhabited

/-- A JSON text whose grammar is checked. -/
inductive JsonText where
  | null
  | bool (value : Bool)
  | number (numeral : Numeral)
  | string (pieces : List StringPiece)
  | array (elements : List JsonText)
  | object (fields : List (List StringPiece × JsonText))
deriving Inhabited

namespace JsonText

/-! ## Grammar -/

/-- Leaves out the blanks at the front of a text. -/
def skipBlanks (cs : List Char) : List Char :=
  cs.dropWhile fun c => c = ' ' || c = '\n' || c = '\t' || c = '\r'

/-- The character that a short escape stands for. -/
def shortEscape? (c : Char) : Option Char :=
  if c = '"' || c = '\\' || c = '/' then some c
  else if c = 'b' then some '\x08'
  else if c = 'f' then some '\x0c'
  else if c = 'n' then some '\n'
  else if c = 'r' then some '\r'
  else if c = 't' then some '\t'
  else none

/-- The pieces of a string behind its opening quote, and the text behind it. -/
def readString? : List Char → Option (List StringPiece × List Char)
  | [] => none
  | '"' :: cs => some ([], cs)
  | '\\' :: 'u' :: a :: b :: c :: d :: cs => do
    let a ← Text.hexDigit? a
    let b ← Text.hexDigit? b
    let c ← Text.hexDigit? c
    let d ← Text.hexDigit? d
    let (pieces, rest) ← readString? cs
    some (.unit (((a * 16 + b) * 16 + c) * 16 + d) :: pieces, rest)
  | '\\' :: c :: cs => do
    let c ← shortEscape? c
    let (pieces, rest) ← readString? cs
    some (.plain c :: pieces, rest)
  | c :: cs =>
    if c.toNat < 0x20 || c = '\\' then none
    else do
      let (pieces, rest) ← readString? cs
      some (.plain c :: pieces, rest)

/-- The exponent of a number behind its mark. -/
def readExponent? (cs : List Char) : Option ((Bool × List Char) × List Char) :=
  let (isNegative, cs) :=
    match cs with
    | '+' :: cs => (false, cs)
    | '-' :: cs => (true, cs)
    | cs => (false, cs)
  let digits := cs.takeWhile Char.isDigit
  if digits = [] then none else some ((isNegative, digits), cs.dropWhile Char.isDigit)

/-- The number at the front of a text. Its whole part has no leading zero, and
digits follow its point and its exponent mark. -/
def readNumber? (cs : List Char) : Option (Numeral × List Char) := do
  let (isNegative, cs) :=
    match cs with
    | '-' :: cs => (true, cs)
    | cs => (false, cs)
  let whole := cs.takeWhile Char.isDigit
  let cs := cs.dropWhile Char.isDigit
  if whole = [] || (whole.head? = some '0' && 1 < whole.length) then none
  let (fraction, cs) ←
    match cs with
    | '.' :: cs =>
      let digits := cs.takeWhile Char.isDigit
      if digits = [] then none else some (digits, cs.dropWhile Char.isDigit)
    | cs => some ([], cs)
  match cs with
  | c :: cs =>
    if c = 'e' || c = 'E' then
      let (exponent, rest) ← readExponent? cs
      some (⟨isNegative, whole, fraction, some exponent⟩, rest)
    else some (⟨isNegative, whole, fraction, none⟩, c :: cs)
  | [] => some (⟨isNegative, whole, fraction, none⟩, [])

mutual

/-- The value at the front of a text, behind blanks. -/
def readValue? : Nat → List Char → Option (JsonText × List Char)
  | 0, _ => none
  | fuel + 1, cs =>
    match skipBlanks cs with
    | [] => none
    | '"' :: cs => (readString? cs).map fun (pieces, rest) => (.string pieces, rest)
    | '[' :: cs =>
      match skipBlanks cs with
      | ']' :: cs => some (.array [], cs)
      | cs => (readElements? fuel cs).map fun (elements, rest) => (.array elements, rest)
    | '\x7b' :: cs =>
      match skipBlanks cs with
      | '\x7d' :: cs => some (.object [], cs)
      | cs => (readFields? fuel cs).map fun (fields, rest) => (.object fields, rest)
    | c :: cs =>
      if c = 'n' then (Text.dropWord? "null".toList (c :: cs)).map (.null, ·)
      else if c = 't' then (Text.dropWord? "true".toList (c :: cs)).map (.bool true, ·)
      else if c = 'f' then (Text.dropWord? "false".toList (c :: cs)).map (.bool false, ·)
      else (readNumber? (c :: cs)).map fun (numeral, rest) => (.number numeral, rest)

/-- The elements of an array up to and with its closing bracket. -/
def readElements? : Nat → List Char → Option (List JsonText × List Char)
  | 0, _ => none
  | fuel + 1, cs => do
    let (element, cs) ← readValue? fuel cs
    match skipBlanks cs with
    | ',' :: cs =>
      let (elements, rest) ← readElements? fuel cs
      some (element :: elements, rest)
    | ']' :: cs => some ([element], cs)
    | _ => none

/-- The fields of an object up to and with its closing brace. -/
def readFields? : Nat → List Char → Option (List (List StringPiece × JsonText) × List Char)
  | 0, _ => none
  | fuel + 1, cs =>
    match skipBlanks cs with
    | '"' :: cs => do
      let (name, cs) ← readString? cs
      match skipBlanks cs with
      | ':' :: cs =>
        let (value, cs) ← readValue? fuel cs
        match skipBlanks cs with
        | ',' :: cs =>
          let (fields, rest) ← readFields? fuel cs
          some ((name, value) :: fields, rest)
        | '\x7d' :: cs => some ([(name, value)], cs)
        | _ => none
      | _ => none
    | _ => none

end

/-- The grammar tree of a text that holds one value and nothing else. Every step
of reading takes a character off the text or goes down by one part of a value,
so twice the length of the text bounds their number. -/
def read? (text : String) : Option JsonText :=
  let cs := text.toList
  match readValue? (2 * cs.length + 2) cs with
  | some (json, rest) => if skipBlanks rest = [] then some json else none
  | none => none

/-! ## Meaning of strings and numbers -/

/-- The characters that the pieces of a string stand for. Two `\u` escapes that
name the halves of a character stand for it; half a character has no meaning. -/
def decode? : List StringPiece → Option (List Char)
  | [] => some []
  | .plain c :: pieces => (decode? pieces).map (c :: ·)
  | .unit high :: .unit low :: pieces =>
    -- a second half cannot come first
    if 0xDC00 ≤ high && high ≤ 0xDFFF then none
    else if 0xD800 ≤ high && high ≤ 0xDBFF then
      if 0xDC00 ≤ low && low ≤ 0xDFFF then
        let n := 0x10000 + (high - 0xD800) * 0x400 + (low - 0xDC00)
        (decode? pieces).map (Char.ofNat n :: ·)
      else none
    else (decode? (.unit low :: pieces)).map (Char.ofNat high :: ·)
  | .unit n :: pieces =>
    if 0xD800 ≤ n && n ≤ 0xDFFF then none
    else (decode? pieces).map (Char.ofNat n :: ·)

/-- The text that the pieces of a string stand for. -/
def decodeString? (pieces : List StringPiece) : Option String :=
  (decode? pieces).map String.ofList

end JsonText

namespace Numeral

/-- The largest number of an unsigned machine word. -/
def maxWord : Nat := 0xFFFFFFFFFFFFFFFF

/-- Appends digits to a number as long as it stays within a machine word, and
leaves the others over. -/
def absorb (n : Nat) : List Char → Nat × List Char
  | [] => (n, [])
  | c :: cs =>
    let next := 10 * n + (c.toNat - '0'.toNat)
    if next ≤ maxWord then absorb next cs else (n, c :: cs)

/-- Divides by a power of ten, in steps that binary numbers can hold. -/
def shrink (x : Float) (power : Nat) : Float :=
  if power ≤ 308 then x / (Decimal.mk 1 power).toFloat
  -- stops early: what is zero stays zero
  else if x == 0 then x
  else shrink (x / (Decimal.mk 1 308).toFloat) (power - 308)
termination_by power

/-- The product of a machine word and a power of ten, unless it is too large. -/
def scaled? (significand : Nat) (exponent : Int) : Option Float :=
  let x := significand.toUInt64.toFloat
  if exponent < 0 then some (shrink x exponent.natAbs)
  else if 308 < exponent then if x == 0 then some x else none
  else
    let y := x * (Decimal.mk 1 exponent).toFloat
    if y.isInf then none else some y

/-- The size of a number with a point, an exponent or too many digits: its first
digits as a machine word, scaled by a power of ten. Digits beyond the word are
dropped. -/
def size? (numeral : Numeral) : Option Float :=
  let (significand, dropped) := absorb 0 numeral.whole
  let (significand, left) := absorb significand numeral.fraction
  let exponent : Int := (dropped.length : Int) - (numeral.fraction.length - left.length)
  match numeral.exponent with
  | none => scaled? significand exponent
  | some (isNegative, digits) =>
    let power := Decimal.ofDigits digits
    -- such a power is out of range, whatever the digits before it are
    if 0x80000000 ≤ power then
      if significand ≠ 0 && !isNegative then none else some 0
    else scaled? significand (if isNegative then exponent - power else exponent + power)

/-- What a number means: an integer if it is written as one and fits a machine
word, else a binary number. A number that is too large has no meaning. -/
def value? (numeral : Numeral) : Option Json :=
  let n := Decimal.ofDigits numeral.whole
  if numeral.fraction = [] && numeral.exponent.isNone && n ≤ maxWord then
    if !numeral.isNegative then some (.int n)
    -- minus zero keeps its sign, which only a binary number can
    else if 0 < n && n ≤ 0x8000000000000000 then some (.int (-(n : Int)))
    else some (.float (-n.toUInt64.toFloat))
  else
    numeral.size?.map fun x => .float (if numeral.isNegative then -x else x)

end Numeral

namespace JsonText

/-! ## Meaning of a whole text -/

/-- Puts a field into a list of fields that is sorted by name, in place of an
earlier field of this name. -/
def insertField (name : String) (value : Json) : List (String × Json) → List (String × Json)
  | [] => [(name, value)]
  | field :: fields =>
    if name < field.1 then (name, value) :: field :: fields
    else if name = field.1 then (name, value) :: fields
    else field :: insertField name value fields

mutual

/-- The value of a text in which arrays and objects are nested at most `depth`
deep. The fields of an object are sorted by name, and of several fields with one
name the last one counts. -/
def valueWithin? (depth : Nat) : JsonText → Option Json
  | null => some .null
  | bool value => some (.bool value)
  | number numeral => numeral.value?
  | string pieces => (decodeString? pieces).map .string
  | array elements =>
    if depth = 0 then none else (elementsWithin? (depth - 1) elements).map .array
  | object fields =>
    if depth = 0 then none else (fieldsWithin? (depth - 1) fields []).map .object

/-- The values of the elements of an array. -/
def elementsWithin? (depth : Nat) : List JsonText → Option (List Json)
  | [] => some []
  | element :: elements => do
    let value ← valueWithin? depth element
    let values ← elementsWithin? depth elements
    some (value :: values)

/-- The fields of an object, put into those that are read already. -/
def fieldsWithin? (depth : Nat) :
    List (List StringPiece × JsonText) → List (String × Json) → Option (List (String × Json))
  | [], known => some known
  | (name, value) :: fields, known => do
    let name ← decodeString? name
    let value ← valueWithin? depth value
    -- inserted in order of the text, so that a later field replaces an earlier one
    fieldsWithin? depth fields (insertField name value known)

end

/-- How deep arrays and objects may be nested. -/
def maxDepth : Nat := 127

/-- The value of a text. -/
def value? (json : JsonText) : Option Json :=
  valueWithin? maxDepth json

/-! ## Records -/

/-- Whether a record may have fields that are not asked for. -/
inductive Strangers where
  | ignored
  | refused
deriving DecidableEq

/-- Finds the fields of an object that are called `names`. Each may occur at most
once. -/
def objectRecord? (names : List String) (strangers : Strangers) :
    List (List StringPiece × JsonText) → Option (List (String × JsonText))
  | [] => some []
  | (name, value) :: fields => do
    let name ← decodeString? name
    let found ← objectRecord? names strangers fields
    if names.contains name then
      -- a field that is asked for may not be given twice
      if found.any (·.1 = name) then none else some ((name, value) :: found)
    else if strangers = .refused then none
    else some found

/-- Takes a text for a record with the given fields and finds those that are
there. A record is an object, or an array of the first fields in order. -/
def record? (names : List String) (strangers : Strangers) :
    JsonText → Option (List (String × JsonText))
  | object fields => objectRecord? names strangers fields
  | array elements =>
    if elements.length ≤ names.length then some (names.zip elements) else none
  | _ => none

/-- A text. -/
def asString? : JsonText → Option String
  | string pieces => decodeString? pieces
  | _ => none

/-- A truth value. -/
def asBool? : JsonText → Option Bool
  | bool value => some value
  | _ => none

/-- A list of values. -/
def asArray? : JsonText → Option (List JsonText)
  | array elements => some elements
  | _ => none

/-- Something that may be absent: `null` stands for nothing. -/
def asOptional? {α : Type} (decode? : JsonText → Option α) : JsonText → Option (Option α)
  | null => some none
  | json => (decode? json).map some

/-- Reads the field of a record, or takes the default if it is not there. -/
def fieldOr? {α : Type} (record : List (String × JsonText)) (name : String)
    (decode? : JsonText → Option α) (default : Option α) : Option α :=
  match record.find? (·.1 = name) with
  | some (_, json) => decode? json
  | none => default

end JsonText

namespace Json

/-- A natural number that fits a machine word. -/
def asWord? : Json → Option Nat
  | int (.ofNat n) => if n ≤ Numeral.maxWord then some n else none
  | _ => none

/-- A binary number, which an integer stands for as well. -/
def asFloat? : Json → Option Float
  | int (.ofNat n) => some n.toUInt64.toFloat
  | int (.negSucc n) => some (-(n + 1).toUInt64.toFloat)
  | float x => some x
  | _ => none

/-- The value of a JSON text. -/
def parse? (text : String) : Option Json := do
  let json ← JsonText.read? text
  json.value?

end Json

end PineCheck
