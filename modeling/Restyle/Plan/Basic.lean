import Restyle.Digest.Sha256
import Restyle.Json.Table
import Restyle.Plan.Filters
import Restyle.Step
import Restyle.Strategy
import Restyle.Text.Utf8

/-!
# Plans

A plan is the list of steps that a migration takes, with the filters it was
built with and a summary.  The digest of a plan covers its whole document, so
that a checkpoint can tell the plan it belongs to.
-/

namespace Restyle

structure PlanSummary where
  totalViolations : Json := .integer 0
  addressableViolations : Json := .integer 0
  filesAffected : Json := .integer 0
  byRule : Table := []
  bySeverity : Table := Severity.all.map fun severity => (.text severity.name, .integer 0)
  deriving DecidableEq, Repr, Inhabited

structure Plan where
  strategy : Strategy
  steps : List Step
  filters : Filters
  summary : PlanSummary
  createdAt : Json
  version : Json
  deriving DecidableEq, Repr, Inhabited

def planVersion : Json := .integer 1

namespace PlanSummary

/-- Sets the rows of a table from a field, if it holds anything. -/
def tableField (name : String) (table : Table) (fields : List (String × Json)) :
    Except Fault Table :=
  table.update ((Json.fieldOr name .null fields).orElse (.object []))

/-- Reads a summary. -/
def ofJson (document : Json) : Except Fault PlanSummary := do
  let fields ← document.fields
  let bySeverity ← tableField "bySeverity" (PlanSummary.bySeverity {}) fields
  let byRule ← tableField "byRule" [] fields
  return {
    totalViolations := Json.fieldOr "totalViolations" (.integer 0) fields
    addressableViolations := Json.fieldOr "addressableViolations" (.integer 0) fields
    filesAffected := Json.fieldOr "filesAffected" (.integer 0) fields
    byRule, bySeverity }

/-- The document of a summary. -/
def toJson (summary : PlanSummary) : Json :=
  .object
    [("totalViolations", summary.totalViolations),
      ("addressableViolations", summary.addressableViolations),
      ("filesAffected", summary.filesAffected), ("byRule", summary.byRule.toJson),
      ("bySeverity", summary.bySeverity.toJson)]

end PlanSummary

namespace Plan

def readSteps (steps : Json) : Except Fault (List Step) := do
  (← steps.items).mapM Step.ofJson

def readStrategy (value : Json) : Except Fault Strategy :=
  match Strategy.ofJson? value with
  | some strategy => .ok strategy
  | none => .error (.notStrategy value)

/-- Reads a plan. -/
def ofJson (document : Json) : Except Fault Plan := do
  let fields ←
    match document with
    | .object fields => pure fields
    | other => throw (.mismatch other.kind)
  let version ← Json.required "version" fields
  let strategy ← readStrategy (Json.fieldOr "strategy" (.text "balanced") fields)
  let filters ←
    Filters.ofJson ((Json.fieldOr "config" .null fields).orElse (.object []))
  let steps ← readSteps ((Json.fieldOr "steps" .null fields).orElse (.array []))
  let summary ←
    PlanSummary.ofJson ((Json.fieldOr "summary" .null fields).orElse (.object []))
  return {
    strategy, steps, filters, summary, version
    createdAt := Json.fieldOr "createdAt" (.text "") fields }

/-- The document of a plan. -/
def toJson (plan : Plan) : Except Fault Json := do
  let filters ← plan.filters.toJson
  return .object
    [("version", plan.version), ("createdAt", plan.createdAt),
      ("strategy", .text plan.strategy.name), ("config", filters),
      ("steps", .array (plan.steps.map Step.toJson)), ("summary", plan.summary.toJson)]

/-- The bytes that the digest of a plan covers: its compact document. -/
def digestInput (plan : Plan) : Except Fault (List UInt8) := do
  let document ← plan.toJson
  if document.isEncodable then return Text.encode (Json.compactText document)
  else throw .unencodable

/-- The digest of a plan: the first sixteen digits of the SHA-256 of its
compact document. -/
def digest (plan : Plan) : Except Fault String := do
  let bytes := Sha256.digest (← plan.digestInput)
  return "sha256:" ++ String.ofList ((bytes.flatMap fun byte => Text.hex 2 byte.toNat).take 16)

end Plan

end Restyle
