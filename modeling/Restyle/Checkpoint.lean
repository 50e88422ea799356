import Restyle.Plan.Store

/-!
# Checkpoints

A checkpoint records which steps of a plan have been completed, have failed or
were skipped.  It carries the digest of the plan, and a run resumes only with
the plan of the same digest.
-/

namespace Restyle

structure Checkpoint where
  planPath : Json
  planDigest : Json
  completed : List Json := []
  failed : List Json := []
  skipped : List Json := []
  lastUpdated : Json
  deriving DecidableEq, Repr, Inhabited

namespace Checkpoint

/-- The items of a list of steps; a field that holds nothing is an empty list. -/
def stepList (name : String) (fields : List (String × Json)) : Except Fault (List Json) :=
  ((Json.fieldOr name .null fields).orElse (.array [])).items

/-- Reads a checkpoint. -/
def ofJson (document : Json) : Except Fault Checkpoint := do
  let fields ← document.fields
  let planDigest ← Json.required "planHash" fields
  let completed ← stepList "completedSteps" fields
  let failed ← stepList "failedSteps" fields
  let skipped ← stepList "skippedSteps" fields
  return {
    planDigest, completed, failed, skipped
    planPath := Json.fieldOr "planPath" (.text "") fields
    lastUpdated := Json.fieldOr "lastUpdated" (.text "") fields }

/-- The document of a checkpoint. -/
def toJson (checkpoint : Checkpoint) : Json :=
  .object
    [("planPath", checkpoint.planPath), ("planHash", checkpoint.planDigest),
      ("completedSteps", .array checkpoint.completed),
      ("failedSteps", .array checkpoint.failed), ("skippedSteps", .array checkpoint.skipped),
      ("lastUpdated", checkpoint.lastUpdated)]

/-- Whether a fault in a checkpoint file makes it unusable; the others end the
run. -/
def isTolerated (fault : Fault) : Bool :=
  fault.category = .absence || fault.category = .kind || fault.category = .operation

/-- Reads a checkpoint from the text of its file: a checkpoint, the reason why
it is ignored, or a failure. -/
def ofText (text : String) : Except Failure (Except String Checkpoint) :=
  match Json.read text with
  | .error (.tooLong digits) => .error (.value (.integerTooLong digits))
  | .error error => .ok (.error error.message)
  | .ok document =>
      match Checkpoint.ofJson document with
      | .ok checkpoint => .ok (.ok checkpoint)
      | .error fault =>
          if isTolerated fault then .ok (.error fault.message) else .error (.value fault)

/-- The saved checkpoint, if there is a usable one. -/
def load (path : Path) : Activity (Option Checkpoint) := do
  match ← Activity.readText path with
  | .error failure =>
      if failure.isMissing then return none
      else
        Activity.log .warning .records
          ("Could not read checkpoint " ++ path.toString ++ ": " ++ failure.message)
        return none
  | .ok text =>
      match ← Activity.lift (ofText text) with
      | .ok checkpoint => return some checkpoint
      | .error reason =>
          Activity.log .warning .records
            ("Ignoring unreadable checkpoint " ++ path.toString ++ ": " ++ reason)
          return none

def save (checkpoint : Checkpoint) (path : Path) : Activity Unit := do
  Activity.writeFile path checkpoint.toJson.pretty
  Activity.log .info .records
    ("Saved checkpoint " ++ path.toString ++ " (" ++ toString checkpoint.completed.length ++
      " completed, " ++ toString checkpoint.failed.length ++ " failed, " ++
      toString checkpoint.skipped.length ++ " skipped)")

/-- Refuses a checkpoint of a plan with another digest. -/
def verify (checkpoint : Checkpoint) (digest : String) : Except Failure Unit :=
  if checkpoint.planDigest = .text digest then .ok () else .error .planChanged

end Checkpoint

end Restyle
