import Restyle.Json.Coercion

/-!
# Arithmetic on values

Integers, reals and truth values are numbers.  Integers compare with reals by
their exact values, and the quotient of two integers is rounded once.
-/

namespace Restyle

namespace Json

inductive Number where
  | whole (value : Int)
  | broken (value : Binary64)
  deriving DecidableEq, Repr

def asNumber : Json → Except Fault Number
  | .boolean value => .ok (.whole (if value then 1 else 0))
  | .integer value => .ok (.whole value)
  | .real value => .ok (.broken value)
  | other => .error (.mismatch other.kind)

namespace Number

/-- The real nearest to a number. -/
def toReal : Number → Except Fault Binary64
  | .whole value => realOfInteger value
  | .broken value => .ok value

/-- The integer that a number is. -/
def asWhole : Number → Except Fault Int
  | .whole value => .ok value
  | .broken _ => .error (.mismatch .real)

/-- How a real compares with an integer, by exact value. -/
def compareWhole (real : Binary64) (whole : Int) : Option Ordering :=
  match real with
  | .notANumber => none
  | .infinite negative => some (if negative then .lt else .gt)
  | .finite negative mantissa exponent =>
      let (numerator, denominator) := Binary64.ratio mantissa exponent
      some (compare (Binary64.signed negative numerator) (whole * denominator))

/-- Whether one number is less than another. -/
def lt : Number → Number → Bool
  | .whole left, .whole right => left < right
  | .broken left, .broken right => left.lt right
  | .broken left, .whole right => compareWhole left right == some .lt
  | .whole left, .broken right => compareWhole right left == some .gt

/-- The product of two numbers. -/
def mul : Number → Number → Except Fault Number
  | .whole left, .whole right => .ok (.whole (left * right))
  | left, right => do return .broken ((← left.toReal).mul (← right.toReal))

/-- The quotient of two numbers, the second of which is not zero. -/
def div : Number → Number → Except Fault Binary64
  | .whole left, .whole right =>
      match Binary64.ofRatio ((left < 0) != (right < 0)) left.natAbs right.natAbs with
      | .infinite _ => .error .beyondReals
      | quotient => .ok quotient
  | left, right => do return (← left.toReal).div (← right.toReal)

/-- The nearest integer to a number, a tie going to the even one. -/
def round : Number → Except Fault Int
  | .whole value => .ok value
  | .broken .notANumber => .error .noInteger
  | .broken value =>
      match value.round? with
      | some nearest => .ok nearest
      | none => .error .infiniteInteger

end Number

end Json

end Restyle
