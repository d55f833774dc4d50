import Lossless.Text.Basic

/-!
# Numbers

Double-precision numbers, the numerals that are read as such, and the shortest numerals they are written with.
-/

namespace Lossless

/-!
## Binary floating-point numbers

A double-precision number is a word of 64 bits. A finite one stands for a significand times a power of two;
`ofRatio` rounds a quotient to the nearest such number, a tie to the even significand.
-/

/-- A double-precision number, by its bits. -/
structure Binary64 where
  bits : UInt64
  deriving DecidableEq

namespace Binary64

/-- The bits of positive infinity. -/
def infinityBits : Nat := 2047 * Nat.pow 2 52

/-- The bits without the sign. -/
def magnitudeBits (number : Binary64) : Nat :=
  number.bits.toNat % Nat.pow 2 63

def isNegative (number : Binary64) : Bool :=
  Nat.pow 2 63 ≤ number.bits.toNat

def isNaN (number : Binary64) : Bool :=
  infinityBits < number.magnitudeBits

def isInfinite (number : Binary64) : Bool :=
  number.magnitudeBits = infinityBits

def isZero (number : Binary64) : Bool :=
  number.magnitudeBits = 0

/-- Equal as numbers: no NaN equals anything, and both zeros are equal. -/
def agrees (left right : Binary64) : Bool :=
  !left.isNaN && !right.isNaN && ((left.isZero && right.isZero) || left = right)

/-- The significand `m` and the exponent `e` of the magnitude `m * 2 ^ (e - 1074)` of a finite number. -/
def parts (number : Binary64) : Nat × Nat :=
  let exponent := number.magnitudeBits / Nat.pow 2 52
  let fraction := number.magnitudeBits % Nat.pow 2 52
  if exponent = 0 then (fraction, 0) else (fraction + Nat.pow 2 52, exponent - 1)

/-- The number with a sign and the bits of a magnitude. -/
def ofBits
    (negative : Bool)
    (magnitude : Nat) : Binary64 :=
  ⟨.ofNat (if negative then magnitude + Nat.pow 2 63 else magnitude)⟩

/-- The quotient of two numbers rounded to the nearest integer, a tie to the even one. -/
def roundDiv (numerator denominator : Nat) : Nat :=
  let quotient := numerator / denominator
  let twice := 2 * (numerator % denominator)
  if twice < denominator then quotient
  else if denominator < twice then quotient + 1
  else quotient + quotient % 2

/-- The power of two at or below a positive quotient, as an integer exponent. -/
def floorLog2 (numerator denominator : Nat) : Int :=
  let estimate : Int := numerator.log2 - denominator.log2
  let isAbove :=
    if 0 ≤ estimate then denominator * Nat.pow 2 estimate.toNat ≤ numerator
    else denominator ≤ numerator * Nat.pow 2 (-estimate).toNat
  if isAbove then estimate else estimate - 1

/-- The number nearest to a quotient; too large ones go to infinity. -/
def ofRatio
    (negative : Bool)
    (numerator denominator : Nat) : Binary64 :=
  if numerator = 0 then ofBits negative 0
  else
    let exponent := (floorLog2 numerator denominator - 52 + 1074).toNat
    let significand :=
      if exponent ≤ 1074 then
        roundDiv (numerator * Nat.pow 2 (1074 - exponent)) denominator
      else
        roundDiv numerator (denominator * Nat.pow 2 (exponent - 1074))
    ofBits negative (min (exponent * Nat.pow 2 52 + significand) infinityBits)

end Binary64

/-!
## Decimal numerals

A numeral is an optional sign, digits with at most one point among them, and an optional exponent. At least
one digit is needed, and an exponent needs one too. A numeral is read as the nearest double-precision
number.
-/

/-- The number `digits * 10 ^ exponent` with a sign. -/
structure Decimal where
  isNegative : Bool
  digits : Nat
  exponent : Int
  deriving DecidableEq

namespace Decimal

/-- The value of a run of decimal digits. -/
def digitsValue (text : Text) : Nat :=
  text.foldl (fun value digit => value * 10 + (digit.toNat - '0'.toNat)) 0

/-- Take off a sign. -/
def splitSign : Text -> Bool × Text
  | '-' :: rest => (true, rest)
  | '+' :: rest => (false, rest)
  | rest => (false, rest)

/-- The exponent at the end of a numeral; zero when there is none. -/
def exponentOf? : Text -> Option Int
  | [] => some 0
  | mark :: rest =>
      let (negative, digits) := splitSign rest
      if (mark = 'e' || mark = 'E') && !digits.isEmpty && digits.all Char.isDigit then
        let value : Int := digitsValue digits
        some (if negative then -value else value)
      else
        none

/-- The digits after a point, and the text after them. -/
def splitFraction : Text -> Text × Text
  | '.' :: rest => (rest.takeWhile Char.isDigit, rest.dropWhile Char.isDigit)
  | rest => ([], rest)

/-- Read a numeral. -/
def ofText? (text : Text) : Option Decimal :=
  let (isNegative, body) := splitSign text
  let whole := body.takeWhile Char.isDigit
  let (fraction, rest) := splitFraction (body.dropWhile Char.isDigit)
  if whole.isEmpty && fraction.isEmpty then none
  else
    (exponentOf? rest).map fun exponent =>
      ⟨isNegative, digitsValue (whole ++ fraction), exponent - fraction.length⟩

/-- The double-precision number nearest to a decimal. Beyond 400 places it is zero or infinity. -/
def toBinary64 (decimal : Decimal) : Binary64 :=
  let places : Int := (Nat.toDigits 10 decimal.digits).length + decimal.exponent
  if decimal.digits = 0 || places < -400 then .ofBits decimal.isNegative 0
  else if 400 < places then .ofBits decimal.isNegative Binary64.infinityBits
  else
    .ofRatio decimal.isNegative (decimal.digits * Nat.pow 10 decimal.exponent.toNat)
      (Nat.pow 10 (-decimal.exponent).toNat)

end Decimal

/-- Read a numeral as a double-precision number. -/
def Binary64.ofText? (text : Text) : Option Binary64 :=
  (Decimal.ofText? text).map Decimal.toBinary64

/-!
## Shortest decimals

A double-precision number is written with the fewest digits that read back as the same number and, of
those, the digits nearest to it. The reals that round to a number form an interval between the midpoints
to its neighbours; the midpoints belong to it when the significand is even. The digits are found on the
grids of one, two, ... decimal digits: the first grid that has a point in the interval wins.
-/

namespace Binary64

/--
A positive magnitude over a common denominator, with the interval of the reals that round to it.
-/
structure Interval where
  lower : Nat
  value : Nat
  upper : Nat
  denominator : Nat
  /-- Whether the ends belong to the interval. -/
  isClosed : Bool

/-- The interval of a finite positive magnitude. -/
def interval (number : Binary64) : Interval :=
  let (significand, exponent) := number.parts
  let scale := Nat.pow 2 (exponent - 1076)
  let isPowerOfTwo := significand = Nat.pow 2 52 && 0 < exponent
  { lower := (4 * significand - (if isPowerOfTwo then 1 else 2)) * scale
    value := 4 * significand * scale
    upper := (4 * significand + 2) * scale
    denominator := Nat.pow 2 (1076 - exponent)
    isClosed := significand % 2 = 0 }

/-- The power of ten at or below a positive quotient, as an integer exponent. -/
def floorLog10 (numerator denominator : Nat) : Int :=
  if denominator ≤ numerator then
    (Nat.toDigits 10 (numerator / denominator)).length - 1
  else
    -((Nat.toDigits 10 ((denominator - 1) / numerator)).length : Int)

/-- The point `digits * 10 ^ exponent` lies in the interval. -/
def Interval.contains
    (interval : Interval)
    (digits : Nat)
    (exponent : Int) : Bool :=
  let point := digits * Nat.pow 10 exponent.toNat * interval.denominator
  let unit := Nat.pow 10 (-exponent).toNat
  if interval.isClosed then
    interval.lower * unit ≤ point && point ≤ interval.upper * unit
  else
    interval.lower * unit < point && point < interval.upper * unit

/--
The point of the grid `10 ^ exponent` that is written for the value: of its two neighbours on the grid
the one in the interval, and of two such the nearer.
-/
def Interval.gridPoint?
    (interval : Interval)
    (exponent : Int) : Option Nat :=
  let numerator := interval.value * Nat.pow 10 (-exponent).toNat
  let denominator := interval.denominator * Nat.pow 10 exponent.toNat
  let below := numerator / denominator
  let isNearerBelow := 2 * (numerator % denominator) < denominator
  match interval.contains below exponent, interval.contains (below + 1) exponent with
  | true, true => some (if isNearerBelow then below else below + 1)
  | true, false => some below
  | false, true => some (below + 1)
  | false, false => none

/-- The first point found on finer and finer grids, with the exponent of its grid. -/
def Interval.search
    (interval : Interval) : Nat -> Int -> Nat × Int
  | 0, exponent => (interval.value * Nat.pow 10 (-exponent).toNat / interval.denominator, exponent)
  | grids + 1, exponent =>
      match interval.gridPoint? exponent with
      | some digits => (digits, exponent)
      | none => interval.search grids (exponent - 1)

/-- The fewest digits that read back as a finite positive magnitude, and the exponent of the last one. -/
def shortest (number : Binary64) : Nat × Int :=
  let interval := number.interval
  interval.search 17 (floorLog10 interval.value interval.denominator)

/-- A decimal written without an exponent. -/
def positional (digits : Nat) (exponent : Int) : Text :=
  let written := Nat.toDigits 10 digits ++ List.replicate exponent.toNat '0'
  let places := (-exponent).toNat
  if places = 0 then written
  else
    let padded := List.replicate (places + 1 - written.length) '0' ++ written
    padded.take (padded.length - places) ++ '.' :: padded.drop (padded.length - places)

/-- Drop the zeros at the end of the digits. -/
def dropZeros : Nat -> Nat -> Int -> Nat × Int
  | bound + 1, digits, exponent =>
      if digits % 10 = 0 && exponent < 0 then dropZeros bound (digits / 10) (exponent + 1)
      else (digits, exponent)
  | 0, digits, exponent => (digits, exponent)

/-- A number in decimal, without an exponent and without a point that nothing follows. -/
def toText (number : Binary64) : Text :=
  if number.isNaN then "NaN".toList
  else
    let magnitude :=
      if number.isInfinite then "inf".toList
      else if number.isZero then ['0']
      else
        let (digits, exponent) := number.shortest
        let (digits, exponent) := dropZeros 17 digits exponent
        positional digits exponent
    if number.isNegative then '-' :: magnitude else magnitude

end Binary64

end Lossless
