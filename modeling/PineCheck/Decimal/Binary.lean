/-!
# PineCheck — between decimals and binary numbers

A decimal is a natural number times a power of ten. Two functions join decimals
with the 64-bit binary numbers of a `Float`, both by exact arithmetic on natural
numbers:

* `Decimal.toFloat` is the binary number that lies nearest to a decimal, and of
  two equally near ones the even one;
* `Decimal.shortest` is a decimal with the fewest digits that lies nearest to no
  other binary number, and of several the one that is closest to the value.
-/

namespace PineCheck

/-- The number `digits * 10 ^ exponent`. -/
structure Decimal where
  digits : Nat
  exponent : Int
deriving DecidableEq, Inhabited

namespace Decimal

/-- Which of two equally close digits is taken. -/
inductive Tie where
  | toEven
  | up
deriving DecidableEq

/-- A power of two. -/
def twoTo (k : Nat) : Nat := Nat.pow 2 k

/-- A power of ten. -/
def tenTo (k : Nat) : Nat := Nat.pow 10 k

/-- The leading one of the 53 bits of a significand. -/
def leadingBit : Nat := twoTo 52

/-! ## From decimal to binary -/

/-- The quotient rounded to the nearest natural number, a half to the even one. -/
def divNearest (num den : Nat) : Nat :=
  let q := num / den
  let r := 2 * (num % den)
  if r < den then q
  else if den < r then q + 1
  else q + q % 2

/-- The bits of the binary number nearest to `num / den`, which is not zero. The
significand has 53 bits unless the exponent is at its least value. -/
def nearestBits (num den : Nat) : UInt64 :=
  -- the lengths give the exponent, or one more than it
  let guess : Int := (Nat.log2 num : Int) - (Nat.log2 den : Int) - 52
  let fits (e : Int) : Bool := leadingBit * den * twoTo e.toNat ≤ num * twoTo (-e).toNat
  let exponent := max (-1074) (if fits guess then guess else guess - 1)
  let significand := divNearest (num * twoTo (-exponent).toNat) (den * twoTo exponent.toNat)
  -- rounding up may carry into one more bit
  let (significand, exponent) :=
    if significand = 2 * leadingBit then (leadingBit, exponent + 1) else (significand, exponent)
  -- beyond the largest finite number
  if 971 < exponent then 0x7FF0000000000000
  -- without the leading bit the field of the exponent is zero
  else if significand < leadingBit then significand.toUInt64
  else ((exponent + 1075).toNat * leadingBit + (significand - leadingBit)).toUInt64

/-- The number of decimal digits of a natural number. -/
def width (n : Nat) : Nat :=
  (Nat.toDigits 10 n).length

/-- The binary number nearest to a decimal. Beyond the range of binary numbers
this is infinity or zero, which is known without computing the power of ten. -/
def toFloat (d : Decimal) : Float :=
  if d.digits = 0 then Float.ofBits 0
  else
    let top : Int := (width d.digits : Int) + d.exponent
    if 310 < top then Float.ofBits 0x7FF0000000000000
    else if top < -325 then Float.ofBits 0
    else Float.ofBits
      (nearestBits (d.digits * tenTo d.exponent.toNat) (tenTo (-d.exponent).toNat))

/-! ## From binary to decimal -/

/-- A positive binary number, `significand * 2 ^ exponent`. -/
structure Binary where
  significand : Nat
  exponent : Int
  /-- Whether the next smaller number is only half as far away as the next
  larger one. -/
  isPowerOfTwo : Bool

/-- The size of a finite binary number, given by its bits. -/
def Binary.ofBits (bits : UInt64) : Binary :=
  let e := ((bits >>> 52) &&& 0x7FF).toNat
  let f := (bits &&& 0xFFFFFFFFFFFFF).toNat
  if e = 0 then ⟨f, -1074, false⟩ else ⟨leadingBit + f, (e : Int) - 1075, f = 0 && 1 < e⟩

/-- Compares `a * 10 ^ i` with `b * 2 ^ j`. -/
def compareScaled (a : Nat) (i : Int) (b : Nat) (j : Int) : Ordering :=
  compare (a * tenTo i.toNat * twoTo (-j).toNat) (b * twoTo j.toNat * tenTo (-i).toNat)

/-- Whether a decimal lies among the reals that are nearest to a binary number:
between the midpoints to its neighbours, or on one of them if the significand is
even. -/
def readsAs (d : Decimal) (x : Binary) : Bool :=
  -- in quarters of a unit, so that the midpoints are whole numbers
  let low := 4 * x.significand - (if x.isPowerOfTwo then 1 else 2)
  let high := 4 * x.significand + 2
  let isEven := x.significand % 2 = 0
  let below := compareScaled d.digits d.exponent low (x.exponent - 2)
  let above := compareScaled d.digits d.exponent high (x.exponent - 2)
  (below == .gt || (isEven && below == .eq)) && (above == .lt || (isEven && above == .eq))

/-- The least `k` with `x < 10 ^ k`, looked for from `k` on. -/
def scaleFrom (x : Binary) : Nat → Int → Int
  | 0, k => k
  | fuel + 1, k =>
    if compareScaled 1 k x.significand x.exponent == .gt then k else scaleFrom x fuel (k + 1)

/-- The least `k` with `x < 10 ^ k`. The search starts below it: a number with
`b` binary digits has at least `3 * b / 10` decimal ones. -/
def scale (x : Binary) : Int :=
  let bits := (Nat.log2 x.significand : Int) + x.exponent
  scaleFrom x 40 (Int.fdiv (bits * 30103) 100000 - 2)

/-- A decimal with `n` digits that reads as `x`, if there is one: of the two
neighbours of `x` with `n` digits the closer one that does. -/
def withDigits? (x : Binary) (tie : Tie) (k : Int) (n : Nat) : Option Decimal :=
  let e := k - n
  let num := x.significand * twoTo x.exponent.toNat * tenTo (-e).toNat
  let den := twoTo (-x.exponent).toNat * tenTo e.toNat
  let floor : Decimal := ⟨num / den, e⟩
  let ceiling : Decimal := ⟨num / den + 1, e⟩
  match floor.readsAs x, ceiling.readsAs x with
  | true, false => some floor
  | false, true => some ceiling
  | false, false => none
  | true, true =>
    let r := 2 * (num % den)
    if r < den then some floor
    else if den < r then some ceiling
    else match tie with
      | .up => some ceiling
      | .toEven => some (if num / den % 2 = 0 then floor else ceiling)

/-- The value of `x` itself, with all its digits. -/
def exact (x : Binary) : Decimal :=
  ⟨x.significand * twoTo x.exponent.toNat * Nat.pow 5 (-x.exponent).toNat, min 0 x.exponent⟩

/-- Moves zeros at the end of the digits into the exponent. -/
def trimZeros : Nat → Decimal → Decimal
  | 0, d => d
  | fuel + 1, d =>
    if d.digits ≠ 0 && d.digits % 10 = 0 then trimZeros fuel ⟨d.digits / 10, d.exponent + 1⟩
    else d

/-- A decimal with the fewest digits that reads as `x`. -/
def shortest (x : Binary) (tie : Tie) : Decimal :=
  if x.significand = 0 then ⟨0, 0⟩
  else
    let k := scale x
    -- seventeen digits tell every binary number from its neighbours
    let found := (List.range 17).findSome? fun n => withDigits? x tie k (n + 1)
    let d := found.getD (exact x)
    trimZeros (width d.digits) d

end Decimal

end PineCheck
