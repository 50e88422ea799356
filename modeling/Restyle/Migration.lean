import Restyle.Consent
import Restyle.Display
import Restyle.Edit
import Restyle.Path
import Restyle.Schedule

/-!
# Migrations

A migration runs the steps of a plan one at a time.  Files are read once and
edited in memory; nothing is written until every step has been processed.
Then the changed files are written, the declarations of the edits are added
to the stylesheet in one go, and the checkpoint is saved.
-/

namespace Restyle

/-- What a run is asked to do. -/
structure MigrationOptions where
  planPath : Option Path := none
  only : List Json := []
  skip : List Json := []
  file : String := ""
  interactive : Bool := false
  backup : Bool := true
  apply : Bool := false
  resume : Bool := false
  deriving DecidableEq, Repr, Inhabited

/-- What happens when the index of the project is rebuilt. -/
inductive IndexRebuild where
  | absent
  | works
  | fails (reason : String)
  deriving DecidableEq, Repr, Inhabited

/-- A file that has been read, with its edited content. -/
structure Buffer where
  path : Path
  /-- The content as it was read. -/
  loaded : List Char
  content : List Char
  deriving DecidableEq, Repr

structure RunState where
  completed : List Json := []
  failed : List Json := []
  skipped : List Json := []
  results : List StepResult := []
  buffers : List Buffer := []
  backedUp : List Path := []
  utilityBlocks : List String := []
  tokenDeclarations : List String := []
  deriving DecidableEq, Repr

namespace RunState

/-- Moves a step to the list of its status. -/
def mark (state : RunState) (id : Json) (status : StepStatus) : RunState :=
  let completed := Json.removeFirst id state.completed
  let failed := Json.removeFirst id state.failed
  let skipped := Json.removeFirst id state.skipped
  match status with
  | .applied => { state with completed := completed ++ [id], failed, skipped }
  | .failed => { state with completed, failed := failed ++ [id], skipped }
  | .skipped => { state with completed, failed, skipped := skipped ++ [id] }
  | .pending => { state with completed, failed, skipped }

/-- Records what became of a step. -/
def record (state : RunState) (step : Step) (status : StepStatus) (error : Option String)
    (size : Option EditSize) : RunState :=
  let result : StepResult :=
    { stepId := step.id, status, file := step.file, action := step.action.description
      error, size }
  { state with results := state.results ++ [result] }.mark step.id status

def fail (state : RunState) (step : Step) (error : String) : RunState :=
  state.record step .failed (some error) none

def buffer? (state : RunState) (path : Path) : Option Buffer :=
  state.buffers.find? fun buffer => buffer.path = path

def setContent (state : RunState) (path : Path) (content : List Char) : RunState :=
  { state with
    buffers := state.buffers.map fun buffer =>
      if buffer.path = path then { buffer with content } else buffer }

/-- Keeps the declaration of an edit for the stylesheet. -/
def keepSideEffect (state : RunState) : Option SideEffect → RunState
  | none => state
  | some (.utility block) =>
      { state with utilityBlocks := state.utilityBlocks ++ [block] }
  | some (.token declaration) =>
      { state with tokenDeclarations := state.tokenDeclarations ++ [declaration] }

/-- Whether a dependency of a step has failed. -/
def isBlocked (state : RunState) (step : Step) : Bool :=
  step.dependencyList.any fun dependency => dependency.isAmong state.failed

end RunState

/-- The reason given for a step whose dependency has failed. -/
def dependencyFailed : String := "Dependency failed"

namespace Migration

/-- The place of a path seen from the project. -/
def place (path : Path) : Activity Path := do
  Activity.requirePath path
  return (← get).project.resolve path

/-- The path of the file of a step. -/
def pathOf (file : Json) : Activity Path := do
  place (Path.ofString (← Activity.value file.asText))

/-- The buffer of a path, read from the file when it is not there yet, or the
reason why it cannot be read. -/
def openBuffer (state : RunState) (step : Step) (path : Path) :
    Activity (Except String (RunState × List Char)) := do
  match state.buffer? path with
  | some buffer => return .ok (state, buffer.content)
  | none =>
      match ← Activity.readText path with
      | .error failure =>
          if failure.isMissing then
            return .error ("File not found: " ++ step.file.shown)
          else
            return .error ("Could not read " ++ step.file.shown ++ ": " ++ failure.message)
      | .ok text =>
          Activity.log .debug .running ("Cached " ++ path.toString)
          let content := text.toList
          let buffer : Buffer := { path, loaded := content, content }
          return .ok ({ state with buffers := state.buffers ++ [buffer] }, content)

/-- Copies a file beside itself before its first edit. -/
def backUp (state : RunState) (path : Path) : Activity RunState := do
  if state.backedUp.contains path then return state
  else
    match ← Activity.copyFile path (path.withSuffix ".bak") with
    | .ok () => pure ()
    | .error error =>
        Activity.log .warning .running
          ("Could not back up " ++ path.toString ++ ": " ++ error.message)
    return { state with backedUp := state.backedUp ++ [path] }

def applyStep (backup : Bool) (state : RunState) (step : Step) : Activity RunState := do
  let path ← pathOf step.file
  match ← openBuffer state step path with
  | .error reason => return state.fail step reason
  | .ok (opened, content) =>
      match ← Activity.value (step.edit content) with
      | none =>
          return opened.fail step
            ("Could not locate target at line " ++ toString step.line)
      | some edit =>
          let kept ← if backup then backUp opened path else pure opened
          Activity.log .debug .running
            ("Applied " ++ step.id.shown ++ " to " ++ step.file.shown)
          return ((kept.setContent path edit.content).keepSideEffect edit.sideEffect).record
            step .applied none (some ⟨edit.removed, edit.added⟩)

/-- Asks about a step. -/
def confirm (step : Step) : Activity Decision := do
  Activity.display (← Activity.value (Display.promptPanel step))
  return Decision.ofAnswer (← Activity.nextAnswer)

/-- Records that a step is skipped because a dependency has failed. -/
def skipBlocked (state : RunState) (step : Step) : Activity RunState := do
  Activity.log .debug .running ("Skipping " ++ step.id.shown ++ ": dependency failed")
  return state.record step .skipped (some dependencyFailed) none

/-- Runs steps in order.  With `ask` every step is asked about, until the answer
is to apply all that remain; the answer to quit ends the run. -/
def execute (backup : Bool) : (ask : Bool) → RunState → List Step → Activity RunState
  | _, state, [] => return state
  | ask, state, step :: steps => do
      if state.isBlocked step then
        execute backup ask (← skipBlocked state step) steps
      else if ask then
        match ← confirm step with
        | .quit =>
            Activity.log .info .running ("Stopped at " ++ step.id.shown ++ " on user request")
            return state
        | .no => execute backup true (state.record step .skipped none none) steps
        | .all => execute backup false (← applyStep backup state step) steps
        | .yes => execute backup true (← applyStep backup state step) steps
      else execute backup false (← applyStep backup state step) steps

/-- Whether a result is an applied one of a file.  The file of any other result
is not looked at. -/
def isAppliedAt (path : Path) (result : StepResult) : Activity Bool := do
  if result.status = .applied then return decide ((← pathOf result.file) = path)
  else return false

/-- Turns the applied results of a file into failures. -/
def failResults (path : Path) (error : String) :
    (state : RunState) → List StepResult → Activity (RunState × List StepResult)
  | state, [] => return (state, [])
  | state, result :: results => do
      if ← isAppliedAt path result then
        let (after, later) ←
          failResults path error (state.mark result.stepId .failed) results
        return (after, { result with status := .failed, error := some error } :: later)
      else
        let (after, later) ← failResults path error state results
        return (after, result :: later)

/-- Writes the changed buffers.  Gives the files that were written. -/
def commit : (state : RunState) → (written : List Path) → List Buffer →
    Activity (RunState × List Path)
  | state, written, [] => return (state, written)
  | state, written, buffer :: buffers => do
      if buffer.content = buffer.loaded then commit state written buffers
      else
        match ← Activity.attempt
            (Activity.writeFile buffer.path (String.ofList buffer.content)) with
        | .ok () =>
            Activity.log .info .running ("Wrote " ++ buffer.path.toString)
            commit state (written ++ [buffer.path]) buffers
        | .error (.write cause) =>
            Activity.log .warning .running
              ("Failed to write " ++ buffer.path.toString ++ ": " ++ cause.message)
            let (after, results) ←
              failResults buffer.path ("Failed to write file: " ++ cause.message) state
                state.results
            commit { after with results } written buffers
        | .error failure => throw failure

/-- A stylesheet without the blanks at its end. -/
def trimEnd (stylesheet : String) : String :=
  String.ofList (Text.trimRight stylesheet.toList)

/-- A stylesheet with a section of token declarations, if there are any. -/
def withTokens (stylesheet : String) (declarations : List String) : String :=
  if declarations.isEmpty then stylesheet
  else
    trimEnd stylesheet ++ "\n/* north migrate: tokens */\n@theme \x7b\n  " ++
      "\n  ".intercalate declarations ++ "\n\x7d\n"

/-- A stylesheet with a section of utility blocks, if there are any. -/
def withUtilities (stylesheet : String) (blocks : List String) : String :=
  if blocks.isEmpty then stylesheet
  else
    trimEnd stylesheet ++ "\n/* north migrate: utilities */\n" ++ "\n\n".intercalate blocks ++
      "\n"

/-- Adds the declarations of a run to the stylesheet. -/
def appendDeclarations (stylesheet : Path) (state : RunState) : Activity Unit := do
  let old ←
    match ← Activity.readText stylesheet with
    | .ok text => pure text
    | .error failure =>
        if failure.isMissing then pure "" else throw (.write (.stylesheet failure))
  Activity.writeFile stylesheet
    (withUtilities (withTokens old state.tokenDeclarations) state.utilityBlocks)
  Activity.log .info .running
    ("Appended " ++ toString state.tokenDeclarations.length ++ " token(s) and " ++
      toString state.utilityBlocks.length ++ " utility block(s) to " ++ stylesheet.toString)

/-- Adds the declarations of a run to the stylesheet, if there are any.  Gives
the files written so far and the warnings. -/
def updateStylesheet (stylesheet : Path) (state : RunState) (written : List Path) :
    Activity (List Path × List String) := do
  if state.utilityBlocks.isEmpty && state.tokenDeclarations.isEmpty then return (written, [])
  else
    match ← Activity.attempt (appendDeclarations stylesheet state) with
    | .ok () =>
        return (if written.contains stylesheet then written else written ++ [stylesheet], [])
    | .error (.write cause) =>
        let warning := "Could not update " ++ stylesheet.toString ++ ": " ++ cause.message
        Activity.log .warning .running warning
        return (written, [warning])
    | .error failure => throw failure

def rebuildIndex : IndexRebuild → Activity Unit
  | .absent => return ()
  | .works => modify fun session => { session with rebuilds := session.rebuilds + 1 }
  | .fails reason => do
      modify fun session => { session with rebuilds := session.rebuilds + 1 }
      Activity.log .warning .running ("Index rebuild failed: " ++ reason)

/-- What a run would do. -/
def preview (planPath : Path) (steps : List Step) : Except Fault RunReport := do
  let files ← steps.mapM fun step => step.file.asKey
  return {
    applied := false
    planPath := planPath.toString
    results := steps.map fun step =>
      { stepId := step.id, status := .pending, file := step.file
        action := step.action.description }
    summary :=
      { total := steps.length, filesChanged := (Json.distinct files).length } }

/-- The steps of a run in order.  Cycles are logged. -/
def schedule (selection : Selection) (steps : List Step) : Activity (List Step) := do
  let schedule ← Activity.value (do Schedule.ofSteps (← selection.filter steps))
  schedule.warnings.forM (Activity.log .warning .scheduling)
  match schedule.fault with
  | some fault => throw (.value fault)
  | none => return schedule.steps

/-- The checkpoint to resume from, which must belong to the plan. -/
def resumeFrom (path : Path) (digest : String) : Activity (Option Checkpoint) := do
  match ← Checkpoint.load path with
  | none => return none
  | some checkpoint =>
      Activity.lift (checkpoint.verify digest)
      return some checkpoint

/-- The report of a run that has nothing to do. -/
def emptyReport (planPath : Path) (resumed : Bool) : RunReport where
  applied := false
  planPath := planPath.toString
  nextSteps :=
    [if resumed then "All steps completed or skipped."
      else
        "No steps to execute. Check filters or run 'north propose' to generate a new plan."]

def startState : Option Checkpoint → RunState
  | none => {}
  | some checkpoint =>
      { completed := checkpoint.completed
        failed := checkpoint.failed
        skipped := checkpoint.skipped }

/-- Runs the scheduled steps, writes what they changed and saves a checkpoint. -/
def applySteps (options : MigrationOptions) (layout : Layout) (index : IndexRebuild)
    (planPath : Path) (digest : String) (checkpoint : Option Checkpoint) (steps : List Step) :
    Activity RunReport := do
  let start := startState checkpoint
  let executed ←
    if options.interactive then
      Activity.inConversation (execute options.backup true start steps)
    else execute options.backup false start steps
  let (state, sources) ← commit executed [] executed.buffers
  let (written, warnings) ← updateStylesheet layout.stylesheet state sources
  if !written.isEmpty then rebuildIndex index
  let saved : Checkpoint :=
    { planPath := .text planPath.toString
      planDigest := .text digest
      completed := state.completed
      failed := state.failed
      skipped := state.skipped
      lastUpdated := .text (← Activity.timestampNow) }
  saved.save layout.checkpoint
  let summary := RunSummary.ofResults state.results written.length
  return {
    applied := true
    planPath := planPath.toString
    results := state.results
    summary
    checkpointPath := some layout.checkpoint.toString
    checkpoint := some saved
    nextSteps := summary.advice
    warnings }

def run (options : MigrationOptions) (layout : Layout) (index : IndexRebuild) :
    Activity RunReport := do
  let planPath := (← options.planPath.mapM place).getD layout.plan
  let plan ← Plan.load planPath
  let digest ← Activity.value plan.digest
  let checkpoint ←
    if options.resume then resumeFrom layout.checkpoint digest else pure none
  let steps ←
    schedule
      { only := options.only
        skip := options.skip
        file := options.file
        completed := (checkpoint.map (·.completed)).getD [] }
      plan.steps
  if steps.isEmpty then return emptyReport planPath checkpoint.isSome
  else if options.apply then
    applySteps options layout index planPath digest checkpoint steps
  else Activity.value (preview planPath steps)

end Migration

end Restyle
