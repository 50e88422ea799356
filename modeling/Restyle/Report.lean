import Restyle.Checkpoint

/-!
# Reports

What a run did with each step, and the totals.
-/

namespace Restyle

inductive StepStatus where
  | applied | skipped | failed | pending
  deriving DecidableEq, Repr, Inhabited

namespace StepStatus

def all : List StepStatus := [.applied, .skipped, .failed, .pending]

def name : StepStatus → String
  | .applied => "applied"
  | .skipped => "skipped"
  | .failed => "failed"
  | .pending => "pending"

/-- The status that a value names. -/
def ofJson (value : Json) : Except Fault StepStatus :=
  match all.find? fun status => value == .text status.name with
  | some status => .ok status
  | none => .error (.notStatus value)

end StepStatus

/-- The numbers of characters that an edit removed and added. -/
structure EditSize where
  removed : Int
  added : Int
  deriving DecidableEq, Repr, Inhabited

/-- What a run did with one step. -/
structure StepResult where
  stepId : Json
  status : StepStatus
  file : Json
  action : String
  error : Option String := none
  size : Option EditSize := none
  deriving DecidableEq, Repr, Inhabited

structure RunSummary where
  total : Int := 0
  applied : Int := 0
  skipped : Int := 0
  failed : Int := 0
  filesChanged : Int := 0
  removed : Int := 0
  added : Int := 0
  deriving DecidableEq, Repr, Inhabited

/-- Everything a run did, or would do. -/
structure RunReport where
  applied : Bool
  planPath : String
  results : List StepResult := []
  summary : RunSummary := {}
  checkpointPath : Option String := none
  checkpoint : Option Checkpoint := none
  nextSteps : List String := []
  warnings : List String := []
  deriving DecidableEq, Repr, Inhabited

def EditSize.toJson (size : EditSize) : Json :=
  .object [("removed", .integer size.removed), ("added", .integer size.added)]

def StepResult.toJson (result : StepResult) : Json :=
  .object
    ([("stepId", result.stepId), ("status", .text result.status.name), ("file", result.file),
        ("action", .text result.action)] ++
      (match result.error with
        | some error => [("error", .text error)]
        | none => []) ++
      (match result.size with
        | some size => [("diff", size.toJson)]
        | none => []))

def RunSummary.toJson (summary : RunSummary) : Json :=
  .object
    [("total", .integer summary.total), ("applied", .integer summary.applied),
      ("skipped", .integer summary.skipped), ("failed", .integer summary.failed),
      ("filesChanged", .integer summary.filesChanged),
      ("linesRemoved", .integer summary.removed), ("linesAdded", .integer summary.added)]

/-- The document of a report. -/
def RunReport.toJson (report : RunReport) : Json :=
  .object
    ([("kind", .text "migrate"), ("applied", .boolean report.applied),
        ("planPath", .text report.planPath),
        ("results", .array (report.results.map StepResult.toJson)),
        ("summary", report.summary.toJson)] ++
      (match report.checkpointPath with
        | some path => [("checkpointPath", .text path)]
        | none => []) ++
      (match report.checkpoint with
        | some checkpoint => [("checkpoint", checkpoint.toJson)]
        | none => []) ++
      (if report.nextSteps.isEmpty then []
        else [("nextSteps", .array (report.nextSteps.map Json.text))]) ++
      (if report.warnings.isEmpty then []
        else [("warnings", .array (report.warnings.map Json.text))]))

def RunSummary.count (summary : RunSummary) (result : StepResult) : RunSummary :=
  match result.status with
  | .applied =>
      let size := result.size.getD ⟨0, 0⟩
      { summary with
        applied := summary.applied + 1
        removed := summary.removed + size.removed
        added := summary.added + size.added }
  | .failed => { summary with failed := summary.failed + 1 }
  | .skipped => { summary with skipped := summary.skipped + 1 }
  | .pending => summary

def RunSummary.ofResults (results : List StepResult) (filesChanged : Nat) : RunSummary :=
  results.foldl RunSummary.count { total := results.length, filesChanged }

/-- What to do after a run. -/
def RunSummary.advice (summary : RunSummary) : List String :=
  (if 0 < summary.failed then
      ["Fix failed steps manually or adjust plan",
        "Run 'north migrate --continue --apply' to retry"]
    else []) ++
    (if 0 < summary.applied then ["Run 'north check' to verify remaining violations"] else [])

end Restyle
