import Restyle.Activity
import Restyle.Json.Printer
import Restyle.Plan.Basic

/-!
# Plan files

A plan file holds the document of a plan.  A file that is no plan of the right
version is refused with the cause.
-/

namespace Restyle

/-- Reads a document.  A text that is no document fails with `wrap` applied to
the error; an integer that is too long is a fault of its own. -/
def readDocument (wrap : Json.ReadError → Failure) (text : String) : Except Failure Json :=
  match Json.read text with
  | .ok value => .ok value
  | .error (.tooLong digits) => .error (.value (.integerTooLong digits))
  | .error error => .error (wrap error)

namespace Plan

/-- The failure for a fault in the fields of a plan.  A number out of range is
not reported as such. -/
def fieldFailure (fault : Fault) : Failure :=
  if fault.category = .range then .value fault else .planFormat (.badField fault)

/-- Reads a plan from the text of a plan file. -/
def ofText (text : String) : Except Failure Plan := do
  let document ← readDocument (fun error => .planFormat (.unparsable error)) text
  match document with
  | .object fields =>
      let version := Json.fieldOr "version" .null fields
      if Json.same version planVersion then
        match Plan.ofJson document with
        | .ok plan => return plan
        | .error fault => throw (fieldFailure fault)
      else throw (.planFormat (.wrongVersion version))
  | _ => throw (.planFormat .notObject)

/-- Loads the plan of a plan file. -/
def load (path : Path) : Activity Plan := do
  match ← Activity.readText path with
  | .error failure =>
      if failure.isMissing then throw (.planMissing path)
      else throw (.planFormat (.unreadable failure))
  | .ok text =>
      let plan ← Activity.lift (ofText text)
      Activity.log .debug .records
        ("Loaded plan " ++ path.toString ++ " with " ++ toString plan.steps.length ++
          " step(s)")
      return plan

/-- Writes a plan to a plan file. -/
def store (plan : Plan) (path : Path) : Activity Unit := do
  Activity.writeFile path (← Activity.value plan.toJson).pretty
  Activity.log .info .planning ("Wrote migration plan to " ++ path.toString)

end Plan

end Restyle
