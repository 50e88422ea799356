import Restyle.Plan.Basic

/-!
# Building plans

A plan is built from violations in stages: the filters choose violations, each
violation that has a fix becomes a step, the strategy chooses steps, the steps
are numbered, and replacements are linked to the steps that define the tokens
they refer to.
-/

namespace Restyle

/-- Keeps the violations whose rule is in a set, or those whose rule is not; an
empty set keeps all. -/
def selectRules (keepMembers : Bool) (rules : List RuleItem) (violations : List Violation) :
    Except Fault (List Violation) := do
  if rules.isEmpty then return violations
  else
    violations.filterM fun violation => do
      let key ← violation.ruleKey.asKey
      return rules.any (RuleItem.isRule key) == keepMembers

/-- Groups violations by file, the files in the order in which they first
occur. -/
def addToGroup (violation : Violation) :
    List (Json × List Violation) → List (Json × List Violation)
  | [] => [(violation.filePath, [violation])]
  | (file, group) :: groups =>
      if Json.same violation.filePath file then (file, group ++ [violation]) :: groups
      else (file, group) :: addToGroup violation groups

def groupByFile (violations : List Violation) : List (Json × List Violation) :=
  violations.foldl (fun groups violation => addToGroup violation groups) []

/-- Orders violations by severity, those of one severity as they came. -/
def bySeverity (violations : List Violation) : List Violation :=
  violations.mergeSort fun left right => left.severity.rank ≤ right.severity.rank

/-- Keeps the most severe violations of each file, at most `most` of each. -/
def capPerFile (most : Nat) (violations : List Violation) : List Violation :=
  (groupByFile violations).flatMap fun group => (bySeverity group.2).take most

def filterViolations (filters : Filters) (violations : List Violation) :
    Except Fault (List Violation) := do
  let included ← selectRules true (← filters.included.members) violations
  let kept ← selectRules false (← filters.excluded.members) included
  match ← filters.limit? kept.isEmpty with
  | none => return kept
  | some most =>
      let _ ← kept.mapM fun violation => violation.filePath.asKey
      return capPerFile most kept

/-- The step for a resolved violation. -/
def stepFor (id : String) (violation : Violation) (resolution : Resolution) :
    Except Fault Step := do
  let preview ← Preview.ofAction violation resolution.action
  return {
    id := .text id
    file := violation.filePath
    line := violation.line
    column := violation.column
    ruleId := violation.ruleId
    severity := violation.severity
    action := resolution.action
    confidence := resolution.confidence
    preview }

/-- The steps for violations, numbered from `next` on.  Those without a fix use
no number. -/
def stepsFrom (next : Nat) : List Violation → Except Fault (List Step)
  | [] => return []
  | violation :: violations => do
      match ← Resolution.ofViolation violation with
      | none => stepsFrom next violations
      | some resolution =>
          let step ← stepFor (stepId next) violation resolution
          return step :: (← stepsFrom (next + 1) violations)

/-- The steps that a strategy takes up. -/
def gate (strategy : Strategy) (steps : List Step) : List Step :=
  steps.filter fun step => strategy.accepts step.confidence step.severity

/-- Numbers steps without gaps from `next` on and drops their dependencies. -/
def renumberFrom (next : Nat) : List Step → List Step
  | [] => []
  | step :: steps =>
      { step with id := .text (stepId next), dependencies := none } ::
        renumberFrom (next + 1) steps

def renumber (steps : List Step) : List Step := renumberFrom 0 steps

/-- The tokens that steps define, each with the last step that defines it, in
the order of their first definitions. -/
def tokenTable : Table → List Step → Except Fault Table
  | table, [] => return table
  | table, step :: steps =>
      match step.action with
      | .tokenize _ token => do tokenTable (table.set (← token.asKey) step.id) steps
      | _ => tokenTable table steps

/-- Whether a token is named in a replacement. -/
def refersTo (replacement token : Json) : Except Fault Bool :=
  match replacement, token with
  | .text _, .text name => replacement.holds name
  | .text _, .torn _ => return false
  | .text _, other => throw (.mismatch other.kind)
  | .torn _, .text name => replacement.holds name
  | .torn text, .torn name => return Text.codesOccurIn name text
  | .torn _, other => throw (.mismatch other.kind)
  | .array items, other => return other.isAmong items
  | .object _, .text name => replacement.holds name
  | .object fields, .torn codes =>
      return (Json.lookup (Json.nameOf codes) fields).isSome
  | .object _, _ => return false
  | other, _ => throw (.mismatch other.kind)

/-- Links a replacement to the steps that define the tokens it refers to. -/
def linkStep (tokens : Table) (step : Step) : Except Fault Step := do
  match step.action with
  | .replace _ replacement =>
      let defining ← tokens.filterM fun row => refersTo replacement row.1
      if defining.isEmpty then return step
      else return { step with dependencies := some (defining.map (·.2)) }
  | _ => return step

/-- Links every replacement of a list of steps. -/
def link (steps : List Step) : Except Fault (List Step) := do
  let tokens ← tokenTable [] steps
  steps.mapM (linkStep tokens)

/-- One more in the row of a key. -/
def countIn (table : Table) (key : String) : Table :=
  let count := ((table.get? (.text key)).getD (.integer 0)).whole?.getD 0
  table.set (.text key) (.integer (count + 1))

def countStep (summary : PlanSummary) (step : Step) : Except Fault PlanSummary := do
  let rule ← step.ruleKey
  return { summary with
    byRule := countIn summary.byRule rule
    bySeverity := countIn summary.bySeverity step.severity.name }

/-- The summary of steps that were planned for a number of violations. -/
def summarize (violations : Json) (steps : List Step) : Except Fault PlanSummary := do
  let files ← steps.mapM fun step => step.file.asKey
  steps.foldlM countStep
    { totalViolations := violations
      addressableViolations := .integer steps.length
      filesAffected := .integer (Json.distinct files).length }

/-- How many violations and steps passed the stages of building a plan. -/
structure PlanCounts where
  planned : Nat
  violations : Nat
  filtered : Nat
  resolvable : Nat
  deriving DecidableEq, Repr

/-- The steps of a plan with the counts of their making. -/
structure PlanDraft where
  steps : List Step
  counts : PlanCounts
  deriving DecidableEq, Repr

/-- Makes the steps of a plan. -/
def Plan.draft (violations : List Violation) (strategy : Strategy) (filters : Filters) :
    Except Fault PlanDraft := do
  let filtered ← filterViolations filters violations
  let resolved ← stepsFrom 0 filtered
  let steps ← link (renumber (gate strategy resolved))
  return { steps, counts := ⟨steps.length, violations.length, filtered.length, resolved.length⟩ }

def PlanDraft.summary (draft : PlanDraft) : Except Fault PlanSummary :=
  summarize (.integer draft.counts.violations) draft.steps

/-- The plan with the steps of a draft. -/
def Plan.ofDraft (draft : PlanDraft) (summary : PlanSummary) (strategy : Strategy)
    (filters : Filters) (createdAt : String) : Plan where
  strategy
  steps := draft.steps
  filters
  summary
  createdAt := .text createdAt
  version := planVersion

def Plan.build (violations : List Violation) (strategy : Strategy) (filters : Filters)
    (createdAt : String) : Except Fault Plan := do
  let draft ← Plan.draft violations strategy filters
  return Plan.ofDraft draft (← draft.summary) strategy filters createdAt

end Restyle
