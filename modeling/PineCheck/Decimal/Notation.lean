import PineCheck.Decimal.Binary

/-!
# PineCheck — how numbers are written

Numbers appear in two places of the output: in messages, where they are written
out in full, and in JSON, where very large and very small ones have an exponent.
Numbers in a script are read by `readFloat?`.
-/

namespace PineCheck

namespace Decimal

/-- Digits with a point such that `point` of them stand before it, padded with
zeros on either side. -/
def positional (digits : List Char) (point : Int) (suffix : String) : String :=
  let n := digits.length
  if point ≤ 0 then
    "0." ++ String.ofList (List.replicate (-point).toNat '0' ++ digits)
  else if (n : Int) ≤ point then
    String.ofList (digits ++ List.replicate (point.toNat - n) '0') ++ suffix
  else
    String.ofList (digits.take point.toNat) ++ "." ++ String.ofList (digits.drop point.toNat)

/-- One digit before the point, and the power of ten behind an `e`. -/
def scientific (digits : List Char) (point : Int) : String :=
  let exponent := point - 1
  let power := (if exponent < 0 then "-" else "+") ++ toString exponent.natAbs
  match digits with
  | [] => "0"
  | [d] => String.ofList [d] ++ "e" ++ power
  | d :: ds => String.ofList (d :: '.' :: ds) ++ "e" ++ power

/-- Whether the sign bit of a number is set. -/
def isNegative (x : Float) : Bool :=
  (x.toBits >>> 63) == 1

/-- The digits of a finite number, and the number of them before the point. -/
def layout (x : Float) (tie : Tie) : List Char × Int :=
  let d := shortest (.ofBits (x.toBits &&& 0x7FFFFFFFFFFFFFFF)) tie
  let digits := Nat.toDigits 10 d.digits
  (digits, digits.length + d.exponent)

/-- A number in a message: the fewest digits that read back, a half rounded up,
and never an exponent. -/
def inMessage (x : Float) : String :=
  if x.isNaN then "NaN"
  else
    let sign := if isNegative x then "-" else ""
    if x.isInf then sign ++ "inf"
    else
      let (digits, point) := layout x .up
      sign ++ positional digits point ""

/-- A finite number in JSON: the fewest digits that read back, a half rounded to
even, with an exponent from `1e+16` on and below `0.00001`. -/
def inJson (x : Float) : String :=
  let sign := if isNegative x then "-" else ""
  let (digits, point) := layout x .toEven
  if -5 < point && point ≤ 16 then sign ++ positional digits point ".0"
  else sign ++ scientific digits point

/-! ## Reading numbers -/

/-- The value of a list of decimal digits. -/
def ofDigits (digits : List Char) : Nat :=
  digits.foldl (fun n c => 10 * n + (c.toNat - '0'.toNat)) 0

/-- The exponent behind the mark `e`: a sign and at least one digit, and nothing
else. -/
def readExponent? : List Char → Option Int
  | [] => none
  | c :: cs =>
    let digits := if c = '+' || c = '-' then cs else c :: cs
    if digits ≠ [] && digits.all Char.isDigit then
      some (if c = '-' then -(ofDigits digits : Int) else ofDigits digits)
    else none

/-- A decimal without a sign: digits with at most one point among them, at least
one digit, and perhaps an exponent. -/
def readDecimal? (cs : List Char) : Option Decimal :=
  let whole := cs.takeWhile Char.isDigit
  let rest := cs.dropWhile Char.isDigit
  let (fraction, rest) :=
    match rest with
    | '.' :: rest => (rest.takeWhile Char.isDigit, rest.dropWhile Char.isDigit)
    | rest => ([], rest)
  let digits := whole ++ fraction
  if digits = [] then none
  else
    let decimal (exponent : Int) : Decimal := ⟨ofDigits digits, exponent - fraction.length⟩
    match rest with
    | [] => some (decimal 0)
    | c :: cs => if c = 'e' || c = 'E' then (readExponent? cs).map decimal else none

/-- The finite number that a text stands for, with or without a sign. Words such
as `inf` and numbers beyond all binary ones stand for no finite number. -/
def readFloat? (text : String) : Option Float :=
  let (isNegative, cs) :=
    match text.toList with
    | '-' :: cs => (true, cs)
    | '+' :: cs => (false, cs)
    | cs => (false, cs)
  match readDecimal? cs with
  | none => none
  | some d =>
    let size := d.toFloat
    if size.isFinite then some (if isNegative then -size else size) else none

end Decimal

end PineCheck
