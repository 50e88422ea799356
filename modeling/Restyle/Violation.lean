import Restyle.Strategy
import Restyle.Text.Parts

/-!
# Violations

A violation is one finding of the lint engine.  Its texts are carried as they
came and looked at only where they are used.
-/

namespace Restyle

/-- The start of every rule identifier of the linter. -/
def ruleFamily : String := "north/"

/-- A finding.  An absent class name, note or context is null. -/
structure Violation where
  ruleId : Json
  ruleKey : Json
  severity : Severity
  message : Json
  filePath : Json
  line : Int
  column : Int
  className : Json := .null
  note : Json := .null
  context : Json := .null
  deriving DecidableEq, Repr, Inhabited

/-- A rule identifier without the family. -/
def ruleKeyOf (ruleId : Json) : Except Fault String := do
  let text ← ruleId.asTextFor "removeprefix"
  return String.ofList (Text.dropLead ruleFamily.toList text.toList)

/-- A field that is written only when it is there. -/
def optionalField (name : String) (value : Json) : List (String × Json) :=
  if value = .null then [] else [(name, value)]

namespace Violation

/-- The rule identifier and key: either is made from the other when it is not
given. -/
def readRule (fields : List (String × Json)) : Except Fault (Json × Json) := do
  let givenKey := (Json.fieldOr "ruleKey" .null fields).orElse (.text "")
  let ruleId :=
    (Json.fieldOr "ruleId" .null fields).orElse (.text (ruleFamily ++ givenKey.shown))
  if givenKey.isFilled then return (ruleId, givenKey)
  else return (ruleId, .text (← ruleKeyOf ruleId))

/-- Reads a violation from the fields of an object. -/
def ofFields (fields : List (String × Json)) : Except Fault Violation := do
  let (ruleId, ruleKey) ← readRule fields
  let severity ← Severity.ofJson (Json.fieldOr "severity" (.text "warn") fields)
  let filePath ← Json.required "filePath" fields
  let line ← (← Json.required "line" fields).toInteger
  let column ← (Json.fieldOr "column" (.integer 0) fields).toInteger
  return {
    ruleId, ruleKey, severity, filePath, line, column
    message := Json.fieldOr "message" (.text "") fields
    className := Json.fieldOr "className" .null fields
    note := Json.fieldOr "note" .null fields
    context := Json.fieldOr "context" .null fields }

/-- Reads a violation. -/
def ofJson (value : Json) : Except Fault Violation := do
  ofFields (← value.fields)

/-- The document of a violation. -/
def toJson (violation : Violation) : Json :=
  .object
    ([("ruleId", violation.ruleId), ("ruleKey", violation.ruleKey),
        ("severity", .text violation.severity.name), ("message", violation.message),
        ("filePath", violation.filePath), ("line", .integer violation.line),
        ("column", .integer violation.column)] ++
      optionalField "className" violation.className ++ optionalField "note" violation.note ++
      optionalField "context" violation.context)

/-- The matched text, settled; empty when there is none. -/
def matched (violation : Violation) : Json :=
  (violation.className.orElse (.text "")).settled

end Violation

end Restyle
