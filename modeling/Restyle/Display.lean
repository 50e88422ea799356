import Restyle.Activity
import Restyle.Json.Arithmetic
import Restyle.Ranking
import Restyle.Report
import Restyle.Text.Markup

/-!
# Displays

The panels and lines that the commands show.  Text from outside is escaped
where it could be taken for a tag.
-/

namespace Restyle

namespace Display

/-- The most steps that a preview lists. -/
def previewLimit : Nat := 10

/-- The most results that a report lists. -/
def resultLimit : Nat := 20

def escape (text : String) : String :=
  String.ofList (Text.escape text.toList)

def escapeText (value : Json) : Except Fault String := do
  return escape (← value.asText)

def severityColour : Severity → String
  | .error => "red"
  | .warn => "yellow"
  | .info => "blue"

def statusLabel : StepStatus → String
  | .applied => "[green]ok[/green]"
  | .skipped => "[yellow]skip[/yellow]"
  | .failed => "[red]FAIL[/red]"
  | .pending => "[dim]...[/dim]"

/-- The colour of a confidence: green from 0.9 and yellow from 0.7 on. -/
def confidenceColour (score : Json.Number) : String :=
  if !score.lt (.broken (.ofDecimal false 9 (-1))) && score != .broken .notANumber then "green"
  else if !score.lt (.broken (.ofDecimal false 7 (-1))) && score != .broken .notANumber then
    "yellow"
  else "red"

/-- The greatest number that can be a length. -/
def lengthLimit : Int := 9223372036854775807

/-- The greatest length of a text that there is room for. -/
def roomLimit : Int := 4294967296

/-- A character repeated; a negative count is none. -/
def bar (character : Char) (count : Int) : Except Fault String :=
  if lengthLimit < count || count < -lengthLimit - 1 then .error .beyondCounting
  else if roomLimit < count then .error .beyondMemory
  else .ok (String.ofList (List.replicate count.toNat character))

/-- A bar of a width that is filled as far as a confidence says. -/
def confidenceBar (score width : Json.Number) : Except Fault String := do
  let filled ← (← score.mul width).round
  let colour := confidenceColour score
  let solid ← bar '█' filled
  let light ← bar '░' ((← width.asWhole) - filled)
  return "[" ++ colour ++ "]" ++ solid ++ light ++ "[/" ++ colour ++ "]"

def barWidth : Json.Number := .whole 12

def joinLines (lines : List String) : String := "\n".intercalate lines

def addressableShare (summary : PlanSummary) : Except Fault Int := do
  if summary.totalViolations.isFilled then
    let share ←
      (← summary.addressableViolations.asNumber).div (← summary.totalViolations.asNumber)
    Json.Number.round (.broken (share.mul (.ofInt 100)))
  else return 0

/-- The rows of a table, the greatest number first and equal ones as they
stand. -/
def byCount (table : Table) : Except Fault Table := do
  let counted ← table.mapM fun row => do return (← row.2.asNumber, row)
  return (rank (fun left right => right.1.lt left.1) counted).map (·.2)

def planPanel (plan : Plan) (planPath source : String) (written : Bool) :
    Except Fault Shown := do
  let summary := plan.summary
  let share ← addressableShare summary
  let rules ← byCount summary.byRule
  let head :=
    ["", "  Strategy: [bold]" ++ plan.strategy.name ++ "[/bold]",
      "  Source:   " ++ (if source = "check" then "lint check (ran fresh)" else source), "",
      "  Total violations: " ++ summary.totalViolations.shown,
      "  Addressable:      " ++ summary.addressableViolations.shown ++ " (" ++ toString share ++
        "%)",
      "  Files affected:   " ++ summary.filesAffected.shown]
  let ruleLines :=
    if rules.isEmpty then []
    else
      ["", "  [bold]By rule[/bold]"] ++
        rules.map fun row => "    " ++ row.1.shown ++ ": " ++ row.2.shown
  let severityLines := Severity.all.map fun severity =>
    let colour := severityColour severity
    let count := (summary.bySeverity.get? (.text severity.name)).getD (.integer 0)
    "    [" ++ colour ++ "]" ++ severity.name ++ "[/" ++ colour ++ "]: " ++ count.shown
  let tail :=
    if written then
      ["  Plan written to: " ++ planPath, "", "  Next steps:",
        "    1. Preview changes: [bold]north migrate[/bold]",
        "    2. Apply changes:   [bold]north migrate --apply[/bold]"]
    else ["  [dim]Dry run: plan not written.[/dim]"]
  return .panel .output
    (joinLines
      (head ++ ruleLines ++ ["", "  [bold]By severity[/bold]"] ++ severityLines ++ [""] ++
        tail ++ [""]))
    "[bold]Migration Plan Generated[/bold]" "cyan"

def previewLines (step : Step) : Except Fault (List String) := do
  let file ← escapeText step.file
  let rule ← step.ruleKey
  return [
      "  [bold]" ++ step.id.shown ++ "[/bold] [dim]\\[PREVIEW][/dim]",
      "    File:   " ++ file ++ ":" ++ toString step.line, "    Rule:   " ++ rule,
      "    Action: " ++ escape step.action.description, ""]

/-- The panel about what a run would do. -/
def previewPanel (report : RunReport) (planTotal : Int) (steps : List Step) :
    Except Fault Shown := do
  let listed ← (steps.take previewLimit).mapM previewLines
  let more :=
    if previewLimit < steps.length then
      ["  [dim]... (" ++ toString (steps.length - previewLimit) ++ " more steps)[/dim]", ""]
    else []
  return .panel .output
    (joinLines
      (["", "  Plan:  " ++ report.planPath,
          "  Steps: " ++ toString planTotal ++ " total, " ++ toString steps.length ++
            " will execute", ""] ++
        listed.flatten ++ more ++
        ["  Steps: " ++ toString report.summary.total ++ "  Files: " ++
            toString report.summary.filesChanged, "",
          "  Run [bold]north migrate --apply[/bold] to execute.", ""]))
    "[bold]Migration Preview (dry-run)[/bold]" "blue"

/-- The panel that asks about a step. -/
def promptPanel (step : Step) : Except Fault Shown := do
  let score := Json.Number.broken step.confidence
  let colour := confidenceColour score
  let file ← escapeText step.file
  let filled ← confidenceBar score barWidth
  let before ← escapeText step.preview.before
  let after ← escapeText step.preview.after
  return .panel .output
    (joinLines
      ["  " ++ file ++ ":" ++ toString step.line,
        "  Confidence: " ++ filled ++ " " ++ step.confidence.textTwoPlaces, "",
        "  [dim]Before:[/dim]", "  [red]- " ++ before ++ "[/red]", "  [dim]After:[/dim]",
        "  [green]+ " ++ after ++ "[/green]"])
    ("[bold]Step " ++ step.id.shown ++ ": " ++ escape step.action.description ++ "[/bold]")
    colour

/-- The part of a path after its last slash. -/
def fileName (path : List Char) : List Char :=
  (path.reverse.takeWhile (· != '/')).reverse

def resultLine (result : StepResult) : Except Fault String := do
  let path ← result.file.asTextFor "rsplit"
  let name := escape (String.ofList (fileName path.toList))
  let reason :=
    match result.error with
    | some error => if error = "" then "" else "  [dim](" ++ escape error ++ ")[/dim]"
    | none => ""
  return "  " ++ statusLabel result.status ++ " " ++ result.stepId.shown ++ ": " ++ name ++
    " - " ++ escape result.action ++ reason

/-- A number in a colour, unless it is zero. -/
def colouredCount (colour : String) (count : Int) : String :=
  if count = 0 then "0" else "[" ++ colour ++ "]" ++ toString count ++ "[/" ++ colour ++ "]"

/-- Lines with numbers in front, counted from `next`. -/
def numberedFrom (next : Nat) : List String → List String
  | [] => []
  | line :: lines =>
      ("    " ++ toString next ++ ". " ++ line) :: numberedFrom (next + 1) lines

/-- The panel about what a run did. -/
def reportPanel (report : RunReport) (all : Bool) : Except Fault Shown := do
  let summary := report.summary
  let listed ←
    (if all then report.results else report.results.take resultLimit).mapM resultLine
  let more :=
    if !all && resultLimit < report.results.length then
      ["  [dim]... (" ++ toString (report.results.length - resultLimit) ++
        " more results)[/dim]"]
    else []
  let totals :=
    ["", "  Total: " ++ toString summary.total,
      "  Applied: [green]" ++ toString summary.applied ++ "[/green]",
      "  Failed: " ++ colouredCount "red" summary.failed,
      "  Skipped: " ++ colouredCount "yellow" summary.skipped,
      "  Files changed: " ++ toString summary.filesChanged,
      "  Lines: [red]-" ++ toString summary.removed ++ "[/red], [green]+" ++
        toString summary.added ++ "[/green]"]
  let warnings := report.warnings.map fun warning =>
    "  [yellow]Warning: " ++ escape warning ++ "[/yellow]"
  let saved :=
    if report.checkpoint.isSome then
      ["", "  [dim]Checkpoint saved: " ++ report.checkpointPath.getD "None" ++ "[/dim]"]
    else []
  let next :=
    if report.nextSteps.isEmpty then []
    else ["", "  [bold]Next steps:[/bold]"] ++ numberedFrom 1 report.nextSteps
  return .panel .output
    (joinLines
      (["", "  Plan: " ++ report.planPath, ""] ++ listed ++ more ++ totals ++ warnings ++ saved ++
        next ++ [""]))
    "[bold]Migration Applied[/bold]" (if summary.failed = 0 then "green" else "red")

/-- What is shown about a promoted utility. -/
def promotion (name pattern block : String) (applied : Bool) (stylesheet : String) :
    List Shown :=
  [.text .output ("\n  [bold]Promote: " ++ escape name ++ "[/bold]") true,
    .text .output ("  [dim]Pattern: " ++ escape pattern ++ "[/dim]\n") true,
    .text .output "  [dim]Suggested @utility:[/dim]" true] ++
    ((Text.shownLines block.toList).map fun line =>
      .text .output ("  " ++ String.ofList line) false) ++
    [if applied then
        .text .output
          ("\n  [green]Applied promotion to " ++ escape stylesheet ++ "[/green]\n") true
      else
        .text .output
          "\n  [dim]Dry run only. Use --apply to write the stylesheet.[/dim]\n" true]

end Display

/-! ## Plain screens

What a command shows, as plain text for a terminal without colours and frames.
-/

namespace Shown

/-- Where something is shown. -/
def outlet : Shown → Outlet
  | .panel outlet _ _ _ => outlet
  | .text outlet _ _ => outlet

/-- Marked text as it reads. -/
def plain (marked : String) : String :=
  String.ofList (Text.omitTags marked.toList)

/-- Something shown as plain text.  A panel has its title above it. -/
def toText : Shown → String
  | .panel _ body title _ => plain title ++ "\n" ++ plain body ++ "\n"
  | .text _ body tags => (if tags then plain body else body) ++ "\n"

end Shown

end Restyle
