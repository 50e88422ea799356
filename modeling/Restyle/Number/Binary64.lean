/-!
# Binary floating-point numbers

A number has 53 significant bits and a bounded exponent.  Every operation is
the exact rational result followed by one rounding to the nearest number, a
tie going to the even mantissa.
-/

namespace Restyle

/-- A floating-point number: `finite negative mantissa exponent` is
`± mantissa * 2 ^ exponent`. -/
inductive Binary64 where
  | finite (negative : Bool) (mantissa : Nat) (exponent : Int)
  | infinite (negative : Bool)
  | notANumber
  deriving DecidableEq, Repr, Inhabited

/-- The quotient of two natural numbers rounded to the nearest one, a tie
going to the even one. -/
def roundQuotient (numerator denominator : Nat) : Nat :=
  let whole := numerator / denominator
  let rest := 2 * (numerator % denominator)
  if rest < denominator then whole
  else if denominator < rest then whole + 1
  else if whole % 2 = 0 then whole
  else whole + 1

namespace Binary64

/-- The exponent of the smallest positive number. -/
def leastExponent : Int := -1074

def greatestExponent : Int := 971

def zeroOf (negative : Bool) : Binary64 := .finite negative 0 leastExponent

/-- A rational scaled by a power of two, as a numerator and a denominator. -/
def scaled (numerator denominator : Nat) (exponent : Int) : Nat × Nat :=
  if exponent < 0 then (numerator * Nat.pow 2 exponent.natAbs, denominator)
  else (numerator, denominator * Nat.pow 2 exponent.natAbs)

/-- The exponent at which the rational has 53 significant bits, or the least
exponent when that is greater. -/
def exponentOf (numerator denominator : Nat) : Int :=
  let guess : Int := (numerator.log2 : Int) - denominator.log2 - 52
  let (scaledNumerator, scaledDenominator) := scaled numerator denominator guess
  let exponent := if scaledNumerator < scaledDenominator * Nat.pow 2 52 then guess - 1 else guess
  max exponent leastExponent

/-- The number nearest to `± numerator / denominator`. -/
def ofRatio (negative : Bool) (numerator denominator : Nat) : Binary64 :=
  if numerator = 0 then zeroOf negative
  else
    let exponent := exponentOf numerator denominator
    let (scaledNumerator, scaledDenominator) := scaled numerator denominator exponent
    let mantissa := roundQuotient scaledNumerator scaledDenominator
    let (mantissa, exponent) :=
      if mantissa = Nat.pow 2 53 then (Nat.pow 2 52, exponent + 1) else (mantissa, exponent)
    if greatestExponent < exponent then .infinite negative
    else .finite negative mantissa exponent

/-- The number nearest to an integer. -/
def ofInt (value : Int) : Binary64 :=
  ofRatio (value < 0) value.natAbs 1

/-- The magnitude of `mantissa * 2 ^ exponent` as a numerator and a
denominator. -/
def ratio (mantissa : Nat) (exponent : Int) : Nat × Nat :=
  if exponent < 0 then (mantissa, Nat.pow 2 exponent.natAbs)
  else (mantissa * Nat.pow 2 exponent.natAbs, 1)

/-- The integer `± magnitude`. -/
def signed (negative : Bool) (magnitude : Nat) : Int :=
  if negative then -(magnitude : Int) else magnitude

def isZero : Binary64 → Bool
  | .finite _ mantissa _ => mantissa == 0
  | _ => false

def negate : Binary64 → Binary64
  | .finite negative mantissa exponent => .finite (!negative) mantissa exponent
  | .infinite negative => .infinite (!negative)
  | .notANumber => .notANumber

/-- The sum of two finite numbers before rounding, as an integer over a power
of two, given by its denominator. -/
def exactSum (left right : Bool × Nat × Int) : Int × Nat :=
  let (leftNumerator, leftDenominator) := ratio left.2.1 left.2.2
  let (rightNumerator, rightDenominator) := ratio right.2.1 right.2.2
  (signed left.1 leftNumerator * rightDenominator +
      signed right.1 rightNumerator * leftDenominator,
    leftDenominator * rightDenominator)

def add : Binary64 → Binary64 → Binary64
  | .notANumber, _ => .notANumber
  | _, .notANumber => .notANumber
  | .infinite left, .infinite right =>
      if left = right then .infinite left else .notANumber
  | .infinite left, .finite _ _ _ => .infinite left
  | .finite _ _ _, .infinite right => .infinite right
  | .finite leftSign leftMantissa leftExponent, .finite rightSign rightMantissa rightExponent =>
      let (sum, denominator) :=
        exactSum (leftSign, leftMantissa, leftExponent)
          (rightSign, rightMantissa, rightExponent)
      if sum = 0 then zeroOf (leftSign && rightSign)
      else ofRatio (sum < 0) sum.natAbs denominator

def sub (left right : Binary64) : Binary64 := add left (negate right)

def mul : Binary64 → Binary64 → Binary64
  | .notANumber, _ => .notANumber
  | _, .notANumber => .notANumber
  | .infinite left, .infinite right => .infinite (left != right)
  | .infinite left, .finite right mantissa _ =>
      if mantissa = 0 then .notANumber else .infinite (left != right)
  | .finite left mantissa _, .infinite right =>
      if mantissa = 0 then .notANumber else .infinite (left != right)
  | .finite leftSign leftMantissa leftExponent, .finite rightSign rightMantissa rightExponent =>
      let (leftNumerator, leftDenominator) := ratio leftMantissa leftExponent
      let (rightNumerator, rightDenominator) := ratio rightMantissa rightExponent
      ofRatio (leftSign != rightSign) (leftNumerator * rightNumerator)
        (leftDenominator * rightDenominator)

/-- The quotient; a zero divisor gives no answer here and is refused by the
callers. -/
def div : Binary64 → Binary64 → Binary64
  | .notANumber, _ => .notANumber
  | _, .notANumber => .notANumber
  | .infinite _, .infinite _ => .notANumber
  | .infinite left, .finite right _ _ => .infinite (left != right)
  | .finite left _ _, .infinite right => zeroOf (left != right)
  | .finite leftSign leftMantissa leftExponent, .finite rightSign rightMantissa rightExponent =>
      if rightMantissa = 0 then .notANumber
      else
        let (leftNumerator, leftDenominator) := ratio leftMantissa leftExponent
        let (rightNumerator, rightDenominator) := ratio rightMantissa rightExponent
        ofRatio (leftSign != rightSign) (leftNumerator * rightDenominator)
          (leftDenominator * rightNumerator)

/-- Whether one number is less than another.  Nothing compares with the value
that is not a number. -/
def lt : Binary64 → Binary64 → Bool
  | .notANumber, _ => false
  | _, .notANumber => false
  | .infinite left, .infinite right => left && !right
  | .infinite left, .finite _ _ _ => left
  | .finite _ _ _, .infinite right => !right
  | .finite leftSign leftMantissa leftExponent, .finite rightSign rightMantissa rightExponent =>
      let (difference, _) :=
        exactSum (leftSign, leftMantissa, leftExponent)
          (!rightSign, rightMantissa, rightExponent)
      difference < 0

/-- Whether two numbers have the same value; the two zeros do. -/
def eq : Binary64 → Binary64 → Bool
  | .notANumber, _ => false
  | _, .notANumber => false
  | .infinite left, .infinite right => left == right
  | .infinite _, .finite _ _ _ => false
  | .finite _ _ _, .infinite _ => false
  | .finite leftSign leftMantissa leftExponent, .finite rightSign rightMantissa rightExponent =>
      let (difference, _) :=
        exactSum (leftSign, leftMantissa, leftExponent)
          (!rightSign, rightMantissa, rightExponent)
      difference == 0

def le (left right : Binary64) : Bool := lt left right || eq left right

/-- The integer part of a finite number. -/
def truncate? : Binary64 → Option Int
  | .finite negative mantissa exponent =>
      let (numerator, denominator) := ratio mantissa exponent
      some (signed negative (numerator / denominator))
  | _ => none

/-- The nearest integer to a finite number, a tie going to the even one. -/
def round? : Binary64 → Option Int
  | .finite negative mantissa exponent =>
      let (numerator, denominator) := ratio mantissa exponent
      some (signed negative (roundQuotient numerator denominator))
  | _ => none

/-- Whether a number equals an integer. -/
def eqInt (value : Binary64) (whole : Int) : Bool :=
  match value with
  | .finite negative mantissa exponent =>
      let (numerator, denominator) := ratio mantissa exponent
      signed negative numerator == whole * denominator
  | _ => false

end Binary64

end Restyle
