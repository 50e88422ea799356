import Restyle.CommandLine.Invocation
import Restyle.Consent
import Restyle.Migration
import Restyle.Promotion
import Restyle.Settings

/-!
# Running commands

A command loads the settings of the project, does its work and shows the
result.  It ends with a status, which is zero when all went well.
-/

namespace Restyle.CommandLine

def version : String := "0.1.0"

def versionLine : String := "north, version " ++ version ++ "\n"

/-- The status of a program whose arguments are refused.  A path that no file
can have is a failure and no wrong use. -/
def UsageError.status : UsageError → Nat
  | .nullInPath _ => 1
  | _ => 2

/-- Runs the work of a command and then `finish`.  A failure of the work that is
reported is shown and ends the command with status one; any other failure
remains. -/
def reporting (label : String) (work : Activity α) (finish : α → Activity Nat) :
    Activity Nat := do
  match ← Activity.attempt work with
  | .ok result => finish result
  | .error failure =>
      if failure.isReported then
        Activity.display
          (.text .errors
            ("\n  [red]" ++ label ++ " failed: " ++
              Display.escape (failure.message?.getD "") ++ "[/red]\n") true)
        return 1
      else throw failure

/-- The settings of the project and the layout they give. -/
def loadLayout : Activity (Settings × Layout) := do
  let settings ← Settings.load
  let layout ← Activity.value (settings.layout (← get).project)
  return (settings, layout)

def writeDocument (document : Json) : Activity Unit :=
  Activity.write (document.pretty ++ "\n")

/-- The rules given as arguments, else those of the settings, if there are
any. -/
def chooseRules (given : List String) (setting : Toml) : Except Fault RuleList := do
  if !given.isEmpty then return .given (.array (given.map Json.text))
  else
    let items ← Settings.ruleItems setting
    return if items.isEmpty then .given .null else .listed items

/-- The limit given as an argument, else that of the settings.  Zero means no
limit. -/
def chooseLimit (given : Option Nat) (setting : Toml) : Except Fault Json := do
  let limit ←
    match given with
    | some limit => pure (.integer limit)
    | none => setting.toJson
  return if limit.isFilled then limit else .null

namespace ProposeRequest

/-- What the arguments and the settings ask for. -/
def options (request : ProposeRequest) (settings : Settings) :
    Except Fault ProposalOptions := do
  return {
    strategy := ←
      match request.strategy with
      | some strategy => pure (.text strategy.name)
      | none => settings.strategy.toJson
    filters :=
      { included := ← chooseRules request.included settings.included
        excluded := ← chooseRules request.excluded settings.excluded
        maxChanges := ← chooseLimit request.maxChanges settings.maxChanges }
    source := request.source
    output := request.output.map Path.ofString
    dryRun := request.dryRun }

/-- Makes a proposal and shows it. -/
def run (request : ProposeRequest) : Activity Nat :=
  reporting "Propose"
    (do
      let (settings, layout) ← loadLayout
      let options ← Activity.value (request.options settings)
      Proposal.run options layout none none)
    fun proposal => do
      if request.json then
        writeDocument (← Activity.value proposal.toJson)
      else if !request.quiet then
        Activity.display
          (← Activity.value
            (Display.planPanel proposal.plan proposal.planPath proposal.source proposal.written))
        if proposal.plan.steps.isEmpty then
          Activity.display
            (.text .output "  [yellow]No addressable violations for this strategy.[/yellow]\n"
              true)
      return 0

end ProposeRequest

namespace MigrateRequest

/-- A value for a flag that was given, and null for one that was not. -/
def flagValue (flag : Bool) : Json := if flag then .boolean true else .null

/-- What the arguments and the settings ask for. -/
def options (request : MigrateRequest) (settings : Settings) : MigrationOptions where
  planPath := request.plan.map Path.ofString
  only := request.only.map Json.text
  skip := request.skip.map Json.text
  file := request.file.getD ""
  interactive := request.interactive || settings.interactive.isFilled
  backup := settings.backup.isFilled && !request.noBackup
  apply :=
    (Caller.commandLine.appliesChanges (flagValue request.apply)
      (flagValue request.dryRun)).isFilled
  resume := request.resume

/-- The steps that the results of a run are about. -/
def stepsOf (report : RunReport) (plan : Plan) : List Step :=
  let latest := plan.steps.reverse
  report.results.filterMap fun result => stepWith? result.stepId latest

/-- Shows what a run did or would do. -/
def present (report : RunReport) : Activity Unit := do
  if report.applied then
    Activity.display (← Activity.value (Display.reportPanel report false))
  else if !report.results.isEmpty then
    let plan ← Plan.load (Path.ofString report.planPath)
    Activity.display
      (← Activity.value
        (Display.previewPanel report plan.steps.length (stepsOf report plan)))
  else
    report.nextSteps.forM fun step =>
      Activity.display (.text .output ("\n  " ++ step ++ "\n") true)

/-- Runs a plan and shows what became of its steps. -/
def run (request : MigrateRequest) : Activity Nat :=
  reporting "Migration"
    (do
      let (settings, layout) ← loadLayout
      Migration.run (request.options settings) layout .absent)
    fun report => do
      if request.json then writeDocument report.toJson
      else if !request.quiet then present report
      return if report.summary.failed = 0 then 0 else 1

end MigrateRequest

namespace PromoteRequest

/-- Promotes a pattern and shows the utility. -/
def run (request : PromoteRequest) : Activity Nat := do
  if request.apply && request.dryRun then
    Activity.display
      (.text .errors "\n  [red]Use either --apply or --dry-run, not both.[/red]\n" true)
    return 1
  else
    reporting "Promotion"
      (do
        let (_, layout) ← loadLayout
        Promotion.run layout.stylesheet request.name request.pattern request.apply)
      fun promotion => do
        if request.json then writeDocument promotion.toJson
        else
          (Display.promotion promotion.name promotion.pattern promotion.block
            promotion.applied promotion.stylesheet).forM Activity.display
        return 0

end PromoteRequest

def Command.run : Command → Activity Nat
  | .propose request => request.run
  | .migrate request => request.run
  | .promote request => request.run

/-- Does what the program is asked for and gives its status. -/
def Invocation.run : Invocation → Activity Nat
  | .version => do
      Activity.write versionLine
      return 0
  | .command _ asked => asked.run

/-- The least urgent level that is logged. -/
def Invocation.logLevel : Invocation → LogLevel
  | .command true _ => .debug
  | _ => .warning

end Restyle.CommandLine
