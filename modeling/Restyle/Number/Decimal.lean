import Restyle.Number.Binary64

/-!
# Decimal text of binary numbers

Reading a decimal gives the nearest number.  Writing a number gives the fewest
digits that read back as it and, of those, the decimal nearest to it.
-/

namespace Restyle

/-- The number of decimal digits of a natural number; zero has one. -/
def decimalLength (value : Nat) : Nat := (Nat.toDigits 10 value).length

namespace Binary64

/-- The number nearest to `± digits * 10 ^ exponent`.  Beyond the range of
finite numbers the power is not computed. -/
def ofDecimal (negative : Bool) (digits : Nat) (exponent : Int) : Binary64 :=
  if digits = 0 then zeroOf negative
  else
    let magnitude := exponent + decimalLength digits
    if 310 < magnitude then .infinite negative
    else if magnitude < -330 then zeroOf negative
    else if exponent < 0 then ofRatio negative digits (Nat.pow 10 exponent.natAbs)
    else ofRatio negative (digits * Nat.pow 10 exponent.natAbs) 1

/-- A rational times `10 ^ power`, as a numerator and a denominator. -/
def timesTen (numerator denominator : Nat) (power : Int) : Nat × Nat :=
  if power < 0 then (numerator, denominator * Nat.pow 10 power.natAbs)
  else (numerator * Nat.pow 10 power.natAbs, denominator)

/-- The position of the decimal point: a positive rational is below
`10 ^ position` and not below `10 ^ (position - 1)`. -/
def pointPosition (numerator denominator : Nat) : Int :=
  let guess : Int := (decimalLength numerator : Int) - decimalLength denominator
  let (scaledNumerator, scaledDenominator) := timesTen numerator denominator (-guess)
  if scaledNumerator < scaledDenominator then guess else guess + 1

/-- A positive number by its mantissa and exponent, as the reader sees it:
every rational between `low` and `high`, in units of `2 ^ exponent / 4`, reads
as the number, the ends included when the mantissa is even. -/
structure ReadingInterval where
  low : Nat
  value : Nat
  high : Nat
  /-- The exponent of the common unit. -/
  exponent : Int
  /-- Whether the ends read as the number. -/
  closed : Bool

/-- The interval of rationals that read as `mantissa * 2 ^ exponent`. -/
def readingInterval (mantissa : Nat) (exponent : Int) : ReadingInterval :=
  let step := if mantissa = Nat.pow 2 52 && leastExponent < exponent then 1 else 2
  { low := 4 * mantissa - step
    value := 4 * mantissa
    high := 4 * mantissa + 2
    exponent := exponent - 2
    closed := mantissa % 2 == 0 }

/-- Whether a decimal `digits * 10 ^ power` reads as the number. -/
def ReadingInterval.accepts (interval : ReadingInterval) (digits : Nat) (power : Int) : Bool :=
  let (unitNumerator, unitDenominator) := ratio 1 interval.exponent
  let (numerator, denominator) := timesTen digits 1 power
  let point := numerator * unitDenominator
  let low := interval.low * unitNumerator * denominator
  let high := interval.high * unitNumerator * denominator
  if interval.closed then low ≤ point && point ≤ high
  else low < point && point < high

/-- The decimals with the given number of digits just below and just above the
number, the nearer first; of two at the same distance, the even one first. -/
def neighbours (numerator denominator : Nat) (power : Int) : List Nat :=
  let (scaledNumerator, scaledDenominator) := timesTen numerator denominator (-power)
  let below := scaledNumerator / scaledDenominator
  if roundQuotient scaledNumerator scaledDenominator = below then [below, below + 1]
  else [below + 1, below]

/-- Looks for a decimal that reads as the number, with `count` digits or more.
`fuel` bounds the further digits tried. -/
def shortestFrom (interval : ReadingInterval) (numerator denominator : Nat) (point : Int)
    (count : Nat) : (fuel : Nat) → Nat × Int
  | 0 =>
      let power := point - count
      ((neighbours numerator denominator power).headD 0, power)
  | fuel + 1 =>
      let power := point - count
      match (neighbours numerator denominator power).find? (interval.accepts · power) with
      | some digits => (digits, power)
      | none => shortestFrom interval numerator denominator point (count + 1) fuel

/-- The shortest decimal `digits * 10 ^ power` that reads as the number.
Seventeen digits always suffice. -/
def shortest (mantissa : Nat) (exponent : Int) : Nat × Int :=
  if mantissa = 0 then (0, 0)
  else
    let (numerator, denominator) := ratio mantissa exponent
    shortestFrom (readingInterval mantissa exponent) numerator denominator
      (pointPosition numerator denominator) 1 16

/-- Drops the zeros at the end of a digit list given last digit first. -/
def dropZeros : List Char → List Char
  | '0' :: digits => dropZeros digits
  | digits => digits

/-- Digits with a point after the first `position` of them, and at least one
digit on either side. -/
def positional (digits : List Char) (position : Int) : List Char :=
  if position ≤ 0 then
    '0' :: '.' :: List.replicate position.natAbs '0' ++ digits
  else
    let whole := digits.take position.toNat
    let part := digits.drop position.toNat
    whole ++ List.replicate (position.toNat - whole.length) '0' ++
      '.' :: (if part.isEmpty then ['0'] else part)

/-- Digits with a point after the first of them and a signed exponent of at
least two digits. -/
def scientific (digits : List Char) (exponent : Int) : List Char :=
  let lead := digits.take 1
  let part := digits.drop 1
  let size := (Nat.toDigits 10 exponent.natAbs)
  let padded := if size.length < 2 then '0' :: size else size
  lead ++ (if part.isEmpty then [] else '.' :: part) ++
    'e' :: (if exponent < 0 then '-' else '+') :: padded

/-- The text of a decimal: positional from `0.0001` up to sixteen digits before
the point, and scientific beyond. -/
def decimalText (digits : Nat) (power : Int) : List Char :=
  if digits = 0 then "0.0".toList
  else
    let written := Nat.toDigits 10 digits
    let position := power + written.length
    let significant := (dropZeros written.reverse).reverse
    if -4 < position && position ≤ 16 then positional significant position
    else scientific significant (position - 1)

/-- The shortest text that reads back as the number; the others are called
`nan` and `inf`. -/
def text : Binary64 → String
  | .finite negative mantissa exponent =>
      let (digits, power) := shortest mantissa exponent
      String.ofList ((if negative then ['-'] else []) ++ decimalText digits power)
  | .infinite negative => if negative then "-inf" else "inf"
  | .notANumber => "nan"

/-- The number of units of `10 ^ -places` nearest to a magnitude. -/
def unitsAt (places mantissa : Nat) (exponent : Int) : Nat :=
  let (numerator, denominator) := ratio mantissa exponent
  roundQuotient (numerator * Nat.pow 10 places) denominator

/-- The number nearest to the decimal with the given places that is nearest to
a number. -/
def roundTo (places : Nat) : Binary64 → Binary64
  | .finite negative mantissa exponent =>
      ofDecimal negative (unitsAt places mantissa exponent) (-(places : Int))
  | other => other

def textTwoPlaces : Binary64 → String
  | .finite negative mantissa exponent =>
      let units := unitsAt 2 mantissa exponent
      let part := units % 100
      (if negative then "-" else "") ++ toString (units / 100) ++ "." ++
        (if part < 10 then "0" else "") ++ toString part
  | other => other.text

end Binary64

end Restyle
