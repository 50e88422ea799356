import Restyle.Plan.Basic

/-!
# Schedules

A run takes some of the steps of a plan, in an order in which the dependencies
of a step come before it.  The order is that of a depth-first walk from the
steps as they are listed.  A dependency that is still being walked closes a
cycle: it counts as done, and the cycle is reported.  A dependency is looked
at only when the walk comes to it; one that cannot be a key ends the walk there.
-/

namespace Restyle

/-- Which steps of a plan to take.  An empty list chooses nothing. -/
structure Selection where
  only : List Json := []
  skip : List Json := []
  /-- The file whose steps are taken, if it is not empty. -/
  file : String := ""
  completed : List Json := []
  deriving DecidableEq, Repr, Inhabited

/-- Keeps the steps whose identifier is in a set, or those whose identifier is
not; an empty set keeps all. -/
def selectIds (keepMembers : Bool) (ids : List Json) (steps : List Step) :
    Except Fault (List Step) := do
  let members ← ids.mapM Json.asKey
  if members.isEmpty then return steps
  else
    steps.filterM fun step => do
      let id ← step.id.asKey
      return id.isAmong members == keepMembers

/-- Whether a step is in a file, given by its whole path or by the end of it
from some directory on. -/
def Step.isIn (step : Step) (file : String) : Except Fault Bool := do
  if step.file = .text file then return true
  else
    match step.file with
    | .torn path => return (Text.codes ('/' :: file.toList)).isSuffixOf path
    | other =>
        let path ← other.asTextFor "endswith"
        return ('/' :: file.toList).isSuffixOf path.toList

/-- Keeps the steps of a file; no file keeps all. -/
def selectFile (file : String) (steps : List Step) : Except Fault (List Step) := do
  if file.isEmpty then return steps
  else steps.filterM fun step => step.isIn file

/-- The steps that a selection takes, in the order of the plan. -/
def Selection.filter (selection : Selection) (steps : List Step) : Except Fault (List Step) := do
  let chosen ← selectIds true selection.only steps
  let kept ← selectIds false selection.skip chosen
  let inFile ← selectFile selection.file kept
  selectIds false selection.completed inFile

/-- The step with an identifier, in a list with the last step first.  Of several
steps with the identifier the last one counts. -/
def stepWith? (id : Json) (latest : List Step) : Option Step :=
  latest.find? fun step => Json.same id step.id

/-- A step on the current path of the walk, with the dependencies that are
still to be looked at. -/
structure Visit where
  id : Json
  pending : List Json
  deriving DecidableEq, Repr

/-- The visit of the step with an identifier, before its dependencies are looked
at. -/
def Visit.enter (latest : List Step) (id : Json) : Visit where
  id
  pending := ((stepWith? id latest).map (·.dependencyList)).getD []

/-- A cycle, from a step along dependencies back to it. -/
abbrev Cycle := List String

def Cycle.warning (cycle : Cycle) : String :=
  "Dependency cycle between steps " ++ " -> ".intercalate cycle ++
    "; breaking it at " ++ cycle.getLastD ""

structure Walk where
  /-- The path, innermost visit first. -/
  path : List Visit := []
  /-- The identifiers that are done, in order. -/
  done : List Json := []
  cycles : List Cycle := []
  /-- What ended the walk before all steps were done. -/
  fault : Option Fault := none
  deriving DecidableEq, Repr

namespace Walk

/-- Ends the innermost visit: its step is done. -/
def leave (walk : Walk) (visit : Visit) (outer : List Visit) : Walk :=
  { walk with path := outer, done := walk.done ++ [visit.id] }

/-- Ends the walk. -/
def stop (walk : Walk) (fault : Fault) : Walk :=
  { walk with path := [], fault := some fault }

/-- The identifiers from a dependency on the path along the path back to it. -/
def cycleAt (path : List Visit) (dependency : Json) : List Json :=
  (path.reverse.map (·.id)).dropWhile (fun id => !Json.same dependency id) ++ [dependency]

/-- Reports the cycle that a dependency on the path closes.  Its identifiers
must be texts. -/
def report (walk : Walk) (dependency : Json) : Walk :=
  match (cycleAt walk.path dependency).mapM Json.asText with
  | .ok cycle => { walk with cycles := walk.cycles ++ [cycle] }
  | .error fault => walk.stop fault

/-- Looks at a dependency of the innermost visit, which is a step of the list.
One that is done needs nothing, one on the path closes a cycle, and any other
is entered. -/
def look (latest : List Step) (walk : Walk) (dependency : Json) : Walk :=
  if dependency.isAmong walk.done then walk
  else if walk.path.any fun visit => Json.same dependency visit.id then walk.report dependency
  else { walk with path := .enter latest dependency :: walk.path }

/-- Takes the next dependency of the innermost visit, or ends that visit.
Dependencies that are no steps of the list are passed over, and a null
identifier ends the dependencies. -/
def advance (latest : List Step) (walk : Walk) : Walk :=
  match walk.path with
  | [] => walk
  | visit :: outer =>
      match visit.pending with
      | [] => walk.leave visit outer
      | dependency :: pending =>
          let next := { walk with path := { visit with pending } :: outer }
          if !dependency.isKey then walk.stop (.notKey dependency.kind)
          else if (stepWith? dependency latest).isNone then next
          else if dependency = .null then walk.leave visit outer
          else next.look latest dependency

/-- Advances until the path is empty; `fuel` bounds the number of times. -/
def run (latest : List Step) : (fuel : Nat) → Walk → Walk
  | 0, walk => walk
  | fuel + 1, walk => if walk.path.isEmpty then walk else run latest fuel (advance latest walk)

/-- A bound on the advances of a walk: each step is entered once, looks at each
of its dependencies once, and is left once. -/
def bound (steps : List Step) : Nat :=
  steps.foldr (fun step total => step.dependencyList.length + 2 + total) 0

/-- Walks from a step that is not done yet. -/
def startAt (latest : List Step) (fuel : Nat) (walk : Walk) (root : Step) : Walk :=
  if walk.fault.isSome || root.id.isAmong walk.done then walk
  else run latest fuel { walk with path := [.enter latest root.id] }

def stepsDone (latest : List Step) (walk : Walk) : List Step :=
  walk.done.filterMap fun id => stepWith? id latest

end Walk

def walkSteps (steps : List Step) : Walk :=
  let latest := steps.reverse
  let fuel := Walk.bound steps
  steps.foldl (Walk.startAt latest fuel) {}

/-- The steps with dependencies first. -/
def order (steps : List Step) : List Step := (walkSteps steps).stepsDone steps.reverse

def cycles (steps : List Step) : List Cycle := (walkSteps steps).cycles

/-- The steps of a run in order, with the warnings about cycles. -/
structure Schedule where
  steps : List Step
  warnings : List String
  /-- The fault that ended the walk, if there is one. -/
  fault : Option Fault
  deriving DecidableEq, Repr

/-- The schedule of a list of steps, whose identifiers must be keys. -/
def Schedule.ofSteps (steps : List Step) : Except Fault Schedule := do
  let _ ← steps.mapM fun step => step.id.asKey
  let walk := walkSteps steps
  return {
    steps := walk.stepsDone steps.reverse
    warnings := walk.cycles.map Cycle.warning
    fault := walk.fault }

end Restyle
