import Restyle.Json.Coercion
import Restyle.Suggestion.Colours

/-!
# Spacings and lengths

Numeric spacings refer to tokens, and arbitrary lengths are replaced by steps
of a scale.
-/

namespace Restyle.Suggestion

open Text

/-! ## Spacing tokens

A numeric spacing class, as in `p-4`, is a spacing property and a number.  The
suggestion refers to the spacing token of that number.  One final line feed is
ignored, and a class of another form stays as it is.
-/

def spacingProperties : List String :=
  ["p", "px", "py", "pt", "pr", "pb", "pl", "m", "mx", "my", "mt", "mr", "mb", "ml", "gap",
    "space-x", "space-y"]

/-- The token sizes of spacing numbers. -/
def spacingSizes : List (String × String) :=
  [("1", "xs"), ("2", "sm"), ("3", "sm"), ("4", "md"), ("5", "md"), ("6", "lg"), ("8", "lg"),
    ("10", "xl"), ("12", "xl"), ("16", "2xl")]

def numberAfter? (property text : List Char) : Option (List Char) :=
  match dropLead? (property ++ ['-']) text with
  | some number => if allDecimal number then some number else none
  | none => none

/-- The property and number of a spacing class. -/
def readSpacing? (className : List Char) : Option (List Char × List Char) :=
  let text := dropFinalFeed className
  spacingProperties.findSome? fun property =>
    (numberAfter? property.toList text).map fun number => (property.toList, number)

/-- The size of a spacing number, or the number itself. -/
def spacingSize (number : List Char) : List Char :=
  match spacingSizes.lookup (String.ofList number) with
  | some size => size.toList
  | none => number

def spacingToken (className : List Char) : List Char :=
  match readSpacing? className with
  | some (property, number) =>
      property ++ "-(--spacing-".toList ++ spacingSize number ++ [')']
  | none => className

/-! ## Steps of the scale

An arbitrary class, as in `p-[16px]`, is a property and a value in brackets.
The suggestion is the nearest step of the scale, on which four pixels are one
step and one `rem` or `em` is four.  A step is taken only between 1 and 96.
One final line feed is ignored, and a class of another form stays as it is.
-/

def spacingSteps : List (String × String) :=
  [("4px", "1"), ("8px", "2"), ("12px", "3"), ("16px", "4"), ("24px", "6"), ("32px", "8")]

def propertySteps : List (String × List (String × String)) :=
  [("p", spacingSteps), ("m", spacingSteps), ("gap", spacingSteps),
    ("w", [("100%", "full"), ("50%", "1/2"), ("33.333%", "1/3")]),
    ("h", [("100%", "full"), ("50%", "1/2")])]

/-- The property and value of an arbitrary class. -/
def readArbitrary? (className : List Char) : Option (List Char × List Char) :=
  let lead := className.takeWhile isWordOrDash
  match className.dropWhile isWordOrDash with
  | '[' :: inside =>
      let value := inside.takeWhile (· != ']')
      match inside.dropWhile (· != ']') with
      | ']' :: rest =>
          if lead.getLast? = some '-' && 1 < lead.length && !value.isEmpty &&
              (rest.isEmpty || rest == ['\n']) then
            some (lead.dropLast, value)
          else none
      | _ => none
  | _ => none

inductive LengthUnit where
  | pixel | root | relative
  deriving DecidableEq, Repr

/-- The unit that a text names; none is a pixel. -/
def readUnit? (text : List Char) : Option LengthUnit :=
  match String.ofList text with
  | "" => some .pixel
  | "px" => some .pixel
  | "rem" => some .root
  | "em" => some .relative
  | _ => none

/-- The number and unit of a length, one final line feed ignored. -/
def readLength? (value : List Char) : Option (List Char × LengthUnit) :=
  let text := dropFinalFeed value
  let whole := text.takeWhile isDecimal
  let afterWhole := text.dropWhile isDecimal
  if whole.isEmpty then none
  else
    let (number, rest) :=
      match afterWhole with
      | '.' :: later =>
          let part := later.takeWhile isDecimal
          if part.isEmpty then (whole, afterWhole)
          else (whole ++ '.' :: part, later.dropWhile isDecimal)
      | _ => (whole, afterWhole)
    (readUnit? rest).map fun unit => (number, unit)

/-- The nearest integer to a number that is not negative, a half going up, as
far as the addition is exact. -/
def roundHalfUp (value : Binary64) : Except Fault Int :=
  (Json.real (value.add (.ofDecimal false 5 (-1)))).toInteger

def lengthStep (number : Binary64) : LengthUnit → Except Fault Int
  | .pixel => roundHalfUp (number.div (.ofInt 4))
  | .root => roundHalfUp (number.mul (.ofInt 4))
  | .relative => roundHalfUp (number.mul (.ofInt 4))

/-- The step that a property gives to a value. -/
def namedStep? (property value : List Char) : Option String := do
  let steps ← propertySteps.lookup (String.ofList property)
  steps.lookup (String.ofList value)

/-- The class for a value without a named step. -/
def computedStep (property value : List Char) : Except Fault (List Char) := do
  let custom := property ++ "-(--spacing-custom)".toList
  match readLength? value with
  | none => return custom
  | some (number, unit) =>
      let step ← lengthStep ((readReal? number).getD .notANumber) unit
      if 0 < step ∧ step ≤ 96 then return property ++ '-' :: (toString step).toList
      else return custom

/-- The suggestion for an arbitrary value.  It fails only for a length beyond
the finite numbers. -/
def scaleValue (className : List Char) : Except Fault (List Char) :=
  match readArbitrary? className with
  | none => .ok className
  | some (property, value) =>
      match namedStep? property value with
      | some step => .ok (property ++ '-' :: step.toList)
      | none => computedStep property value

end Restyle.Suggestion
