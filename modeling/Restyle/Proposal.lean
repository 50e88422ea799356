import Restyle.Path
import Restyle.Plan.Builder
import Restyle.Violation.Source

/-!
# Proposals

A proposal builds a plan from violations and writes it to the plan file.
-/

namespace Restyle

structure ProposalOptions where
  strategy : Json := .text "balanced"
  filters : Filters := {}
  source : String := "check"
  output : Option Path := none
  dryRun : Bool := false
  deriving DecidableEq, Repr, Inhabited

structure Proposal where
  planPath : String
  plan : Plan
  source : String
  written : Bool
  deriving DecidableEq, Repr, Inhabited

/-- The strategy with a name that the user gave. -/
def Strategy.named (name : Json) : Except Failure Strategy :=
  match Strategy.ofJson? name with
  | some strategy => .ok strategy
  | none => .error (.settings (.unknownStrategy name.shown))

namespace Proposal

/-- The line of the log about the making of a plan. -/
def countsLine (counts : PlanCounts) : String :=
  "Planned " ++ toString counts.planned ++ " step(s) from " ++ toString counts.violations ++
    " violation(s) (" ++ toString counts.filtered ++ " after filters, " ++
    toString counts.resolvable ++ " resolvable)"

/-- The plan for violations.  The counts are logged. -/
def buildPlan (violations : List Violation) (strategy : Strategy) (filters : Filters) :
    Activity Plan := do
  let draft ← Activity.value (Plan.draft violations strategy filters)
  Activity.log .debug .planning (countsLine draft.counts)
  let summary ← Activity.value draft.summary
  return Plan.ofDraft draft summary strategy filters (← Activity.timestampNow)

/-- The violations to plan for and the name of their source.  Given violations
count as read from a file. -/
def violationsFor (source : String) (given : Option (List Violation))
    (engine : Option LintEngine) : Activity (List Violation × String) := do
  match given with
  | some violations => return (violations, "file")
  | none =>
      let violations ← Violation.gather source engine
      return (violations, if source = "check" || source = "stdin" then source else "file")

/-- Makes a proposal. -/
def run (options : ProposalOptions) (layout : Layout) (given : Option (List Violation))
    (engine : Option LintEngine) : Activity Proposal := do
  let strategy ← Activity.lift (Strategy.named options.strategy)
  let (violations, source) ← violationsFor options.source given engine
  let plan ← buildPlan violations strategy options.filters
  let project := (← get).project
  let planPath := (options.output.map project.join).getD layout.plan
  if !options.dryRun then plan.store planPath
  return { planPath := planPath.toString, plan, source, written := !options.dryRun }

/-- The document of a proposal. -/
def toJson (proposal : Proposal) : Except Fault Json := do
  return .object
    [("kind", .text "propose"), ("planPath", .text proposal.planPath),
      ("plan", ← proposal.plan.toJson)]

end Proposal

end Restyle
