import Restyle.Resolution

/-!
# Steps

A step is one planned edit of one line of a source file.
-/

namespace Restyle

/-- A planned edit.  `dependencies` names the steps that have to come first. -/
structure Step where
  id : Json
  file : Json
  line : Int
  column : Int
  ruleId : Json
  severity : Severity
  action : FixAction
  confidence : Binary64
  preview : Preview
  dependencies : Option (List Json) := none
  deriving DecidableEq, Repr, Inhabited

/-- The identifier of the step at a position counted from zero, with at least
three digits, as in `step-001`. -/
def stepId (index : Int) : String :=
  let number := index + 1
  let digits := toString number.natAbs
  let width := if number < 0 then 2 else 3
  let zeros := String.ofList (List.replicate (width - digits.length) '0')
  "step-" ++ (if number < 0 then "-" else "") ++ zeros ++ digits

namespace Step

/-- The rule of a step without the family. -/
def ruleKey (step : Step) : Except Fault String := ruleKeyOf step.ruleId

/-- The dependencies, none being none. -/
def dependencyList (step : Step) : List Json := step.dependencies.getD []

/-- Reads what a step shows. -/
def readPreview (fields : List (String × Json)) : Except Fault Preview := do
  let preview := (Json.fieldOr "preview" .null fields).orElse (.object [])
  let before ← preview.field? "before"
  let after ← preview.field? "after"
  return ⟨before.getD (.text ""), after.getD (.text "")⟩

def readDependencies (fields : List (String × Json)) : Except Fault (Option (List Json)) := do
  let dependencies := Json.fieldOr "dependencies" .null fields
  if dependencies.isFilled then return some (← dependencies.items) else return none

/-- Reads a step. -/
def ofJson (document : Json) : Except Fault Step := do
  let fields ← document.fields
  let id ← Json.required "id" fields
  let file ← Json.required "file" fields
  let line ← (← Json.required "line" fields).toInteger
  let column ← (Json.fieldOr "column" (.integer 0) fields).toInteger
  let ruleId ← Json.required "ruleId" fields
  let severity ← Severity.ofJson (← Json.required "severity" fields)
  let action ← FixAction.ofJson (← Json.required "action" fields)
  let confidence ← (← Json.required "confidence" fields).toReal
  let preview ← readPreview fields
  let dependencies ← readDependencies fields
  return {
    id, file, line, column, ruleId, severity, action, confidence, preview, dependencies }

/-- The document of a step.  An empty list of dependencies is not written. -/
def toJson (step : Step) : Json :=
  .object
    ([("id", step.id), ("file", step.file), ("line", .integer step.line),
        ("column", .integer step.column), ("ruleId", step.ruleId),
        ("severity", .text step.severity.name), ("action", step.action.toJson),
        ("confidence", .real step.confidence),
        ("preview", .object
          [("before", step.preview.before), ("after", step.preview.after)])] ++
      (if step.dependencyList.isEmpty then []
        else [("dependencies", .array step.dependencyList)]))

end Step

end Restyle
