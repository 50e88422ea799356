import Restyle.Plan.Store
import Restyle.Violation

/-!
# Sources of violations

Violations come from a fresh check by the lint engine, from standard input or
from a file.  The text is a list of records, or an object with such a list
under `violations`.
-/

namespace Restyle

/-- A lint engine: a fresh check that gives violations. -/
abbrev LintEngine := Activity (List Violation)

namespace Violation

/-- Whether a fault in a record is reported with the record; the others end the
command as they are. -/
def isReported (fault : Fault) : Bool :=
  fault.category = .absence || fault.category = .content || fault.category = .kind

def ofRecord (index : Nat) : Json → Except Failure Violation
  | .object fields =>
      match ofFields fields with
      | .ok violation => .ok violation
      | .error fault =>
          if isReported fault then .error (.violationSource (.badRecord index fault))
          else .error (.value fault)
  | _ => .error (.violationSource (.notRecord index))

/-- Reads records counted from `index`. -/
def ofRecords (index : Nat) : List Json → Except Failure (List Violation)
  | [] => .ok []
  | record :: records => do
      let violation ← ofRecord index record
      return violation :: (← ofRecords (index + 1) records)

def recordsOf : Json → Except Failure (List Json)
  | .object fields =>
      match ((Json.fieldOr "violations" .null fields).orElse (.array [])).items with
      | .ok records => .ok records
      | .error fault => .error (.value fault)
  | .array records => .ok records
  | _ => .error (.violationSource .notContainer)

def ofText (text : String) : Except Failure (List Violation) := do
  let document ← readDocument (fun error => .violationSource (.unparsable error)) text
  ofRecords 0 (← recordsOf document)

def ofFile (path : Path) : Activity (List Violation) := do
  match ← Activity.readText path with
  | .ok text => Activity.lift (ofText text)
  | .error (.system _) => throw (.violationSource (.unreadable path))
  | .error failure => throw (.reading failure)

/-- Reads violations from a source.  The lint engine, if there is one, runs only
for a fresh check. -/
def gather (source : String) (engine : Option LintEngine) : Activity (List Violation) := do
  let session ← get
  if source = "check" then
    match engine with
    | some check => check
    | none => throw (.violationSource .noEngine)
  else if source = "stdin" then Activity.lift (ofText session.input)
  else ofFile (session.project.join (Path.ofString source))

end Violation

end Restyle
