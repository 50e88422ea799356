import Restyle.FixAction
import Restyle.Suggestion.Colours
import Restyle.Suggestion.Lengths
import Restyle.Suggestion.Names
import Restyle.Violation

/-!
# Resolutions

A resolution is the fix for a violation with a confidence between zero and
one.  Six rules have a fix; violations of all others, and those with nothing
to look for, have none.
-/

namespace Restyle

/-- A fix and the confidence in it. -/
structure Resolution where
  action : FixAction
  confidence : Binary64
  deriving DecidableEq, Repr

namespace Resolution

inductive FixableRule where
  | rawPalette
  | arbitraryColours
  | arbitraryValues
  | numericSpacing
  | inlineColour
  | repeatedClasses
  deriving DecidableEq, Repr

/-- The rule with a key, if it has a fix. -/
def FixableRule.ofKey? : Json → Option FixableRule
  | .text "no-raw-palette" => some .rawPalette
  | .text "no-arbitrary-colors" => some .arbitraryColours
  | .text "no-arbitrary-values" => some .arbitraryValues
  | .text "numeric-spacing-in-component" => some .numericSpacing
  | .text "no-inline-color" => some .inlineColour
  | .text "extract-repeated-classes" => some .repeatedClasses
  | _ => none

def mapText (transform : List Char → List Char) (value : Json) : Except Fault Json := do
  return .text (String.ofList (transform (← value.asText).toList))

def noteValue (note : Json) : Except Fault Json := do
  if note.isFilled then
    match Suggestion.inlineColour? (← note.settled.asText).toList with
    | some value => return .text (String.ofList value)
    | none => return .null
  else return .null

def fix (violation : Violation) : FixableRule → Except Fault FixAction
  | .rawPalette => do
      let source := violation.matched
      return .replace source (← mapText Suggestion.semanticToken source)
  | .arbitraryColours => do
      let value := violation.matched
      return .tokenize value (← mapText (Suggestion.tokenName "color".toList) value)
  | .arbitraryValues => do
      let source := violation.matched
      let scaled ← Suggestion.scaleValue (← source.asText).toList
      return .replace source (.text (String.ofList scaled))
  | .numericSpacing => do
      let source := violation.matched
      return .replace source (← mapText Suggestion.spacingToken source)
  | .inlineColour => do
      let value := (← noteValue violation.note).orElse violation.matched
      return .tokenize value (← mapText (Suggestion.tokenName "inline-color".toList) value)
  | .repeatedClasses => do
      let pattern := violation.matched
      let text ← pattern.asTextFor "split"
      return .extract pattern (.text (Suggestion.utilityName text.toList))

/-- The confidence in a kind of fix, before the matched text is looked at.  A
replacement by a token is surer than another. -/
def baseConfidence : FixAction → Except Fault Binary64
  | .replace _ replacement => do
      if ← replacement.holds "--" then return .ofDecimal false 95 (-2)
      else return .ofDecimal false 85 (-2)
  | .tokenize _ _ => return .ofDecimal false 70 (-2)
  | .extract _ _ => return .ofDecimal false 65 (-2)
  | .remove _ => return .ofDecimal false 90 (-2)

/-- What a conditional class takes away. -/
def conditionalPenalty : Binary64 := .ofDecimal false 20 (-2)

/-- What a compound of more than three pieces takes away. -/
def compoundPenalty : Binary64 := .ofDecimal false 10 (-2)

def isConditional (matched : Json) : Except Fault Bool := do
  if ← matched.holds "?" then return true
  else matched.holds ":"

/-- Whether the matched text has more than three pieces between spaces. -/
def isCompound (matched : Json) : Except Fault Bool := do
  if matched.isFilled then
    let text ← matched.asTextFor "split"
    return 3 < (text.toList.splitOn ' ').length
  else return false

/-- A number between zero and one. -/
def clamp (value : Binary64) : Binary64 :=
  let one := Binary64.ofInt 1
  let below := if value.lt one then value else one
  let bottom := Binary64.ofInt 0
  if bottom.lt below then below else bottom

/-- The confidence in a fix for a violation, to four places. -/
def confidenceIn (violation : Violation) (action : FixAction) : Except Fault Binary64 := do
  let base ← baseConfidence action
  let conditional ← isConditional violation.matched
  let afterCondition := if conditional then base.sub conditionalPenalty else base
  let compound ← isCompound violation.matched
  let afterCompound :=
    if compound then afterCondition.sub compoundPenalty else afterCondition
  return (clamp afterCompound).roundTo 4

/-- The fix for a violation, if there is one. -/
def ofViolation (violation : Violation) : Except Fault (Option Resolution) := do
  let key ← violation.ruleKey.asKey
  match FixableRule.ofKey? key with
  | none => return none
  | some rule =>
      let action ← fix violation rule
      if action.target.isFilled then
        return some ⟨action, ← confidenceIn violation action⟩
      else return none

end Resolution

/-- What a step shows of the source before and after. -/
structure Preview where
  before : Json
  after : Json
  deriving DecidableEq, Repr, Inhabited

/-- The preview of a fix. -/
def Preview.ofAction (violation : Violation) : FixAction → Except Fault Preview
  | .replace _ replacement => return ⟨violation.matched, replacement⟩
  | .tokenize value token => do
      let name ← token.asTextFor "removeprefix"
      let bare := String.ofList (Text.dropLead "--".toList name.toList)
      return ⟨violation.matched,
        .text ("/* Define: " ++ name ++ ": " ++ value.shown ++ " */ " ++ bare)⟩
  | .extract pattern utility => return ⟨pattern, utility⟩
  | .remove className => return ⟨className, .text "/* removed */"⟩

end Restyle
