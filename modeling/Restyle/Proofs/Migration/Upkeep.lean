import Restyle.Proofs.Activity.Maintenance
import Restyle.Proofs.Migration.Running

/-!
# What runs maintain

The parts of a run log what they do.  Preparing does nothing else.  Executing
steps also copies files, and what comes after it writes files and may rebuild
the index.  So a property of sessions that does not look at the log is
maintained by a part, as long as the copies and writes of that part maintain it.
-/

namespace Restyle

namespace Migration

open Activity

variable {holds : Session → Prop} {options : MigrationOptions} {layout : Layout}
  {index : IndexRebuild} {task : Task}

/-! ## Preparing -/

theorem maintains_place (path : Path) : Maintains holds (place path) := by
  unfold place
  exact (maintains_requirePath path).bind fun _ => maintains_get.bind fun _ => maintains_pure _

theorem maintains_pathOf (file : Json) : Maintains holds (pathOf file) := by
  unfold pathOf
  exact (maintains_value _).bind fun _ => maintains_place _

theorem maintains_load (logs : IgnoresLog holds) (path : Path) :
    Maintains holds (Plan.load path) := by
  unfold Plan.load
  refine (maintains_readText path).bind fun outcome => ?_
  cases outcome with
  | error failure =>
      dsimp only
      split
      · exact maintains_throw _
      · exact maintains_throw _
  | ok text =>
      exact (maintains_lift _).bind fun _ =>
        (maintains_log logs _ _ _).bind fun _ => maintains_pure _

theorem maintains_loadCheckpoint (logs : IgnoresLog holds) (path : Path) :
    Maintains holds (Checkpoint.load path) := by
  unfold Checkpoint.load
  refine (maintains_readText path).bind fun outcome => ?_
  cases outcome with
  | error failure =>
      dsimp only
      split
      · exact maintains_pure _
      · exact (maintains_log logs _ _ _).bind fun _ => maintains_pure _
  | ok text =>
      refine (maintains_lift _).bind fun found => ?_
      cases found with
      | ok checkpoint => exact maintains_pure _
      | error reason => exact (maintains_log logs _ _ _).bind fun _ => maintains_pure _

theorem maintains_resumeFrom (logs : IgnoresLog holds) (path : Path) (digest : String) :
    Maintains holds (resumeFrom path digest) := by
  unfold resumeFrom
  refine (maintains_loadCheckpoint logs path).bind fun found => ?_
  cases found with
  | none => exact maintains_pure _
  | some checkpoint => exact (maintains_lift _).bind fun _ => maintains_pure _

theorem maintains_forM_log (logs : IgnoresLog holds) (level : LogLevel) (channel : LogChannel)
    (messages : List String) : Maintains holds (messages.forM (log level channel)) := by
  induction messages with
  | nil => exact maintains_pure _
  | cons message messages induction =>
      show Maintains holds (log level channel message >>= fun _ =>
        messages.forM (log level channel))
      exact (maintains_log logs _ _ _).bind fun _ => induction

theorem maintains_schedule (logs : IgnoresLog holds) (selection : Selection) (steps : List Step) :
    Maintains holds (schedule selection steps) := by
  unfold schedule
  refine (maintains_value _).bind fun found =>
    (maintains_forM_log logs _ _ found.warnings).bind fun _ => ?_
  split
  · exact maintains_throw _
  · exact maintains_pure _

theorem maintains_prepare (logs : IgnoresLog holds) (options : MigrationOptions)
    (layout : Layout) : Maintains holds (prepare options layout) := by
  have placed : Maintains holds (options.planPath.mapM place) := by
    cases options.planPath with
    | none => exact maintains_pure none
    | some named =>
        show Maintains holds (some <$> place named)
        rw [map_eq_pure_bind]
        exact (maintains_place named).bind fun _ => maintains_pure _
  unfold prepare
  refine placed.bind fun chosen => (maintains_load logs _).bind fun plan =>
    (maintains_value _).bind fun digest => ?_
  have last : ∀ checkpoint : Option Checkpoint, Maintains holds (do
      let steps ← schedule (selectionOf options checkpoint) plan.steps
      return (Task.mk (chosen.getD layout.plan) plan digest checkpoint steps)) :=
    fun checkpoint => (maintains_schedule logs _ _).bind fun _ => maintains_pure _
  split
  · exact (maintains_resumeFrom logs _ _).bind last
  · exact last none

/-! ## Executing -/

theorem maintains_openBuffer (logs : IgnoresLog holds) (state : RunState) (step : Step)
    (path : Path) : Maintains holds (openBuffer state step path) := by
  unfold openBuffer
  split
  · exact maintains_pure _
  · refine (maintains_readText path).bind fun outcome => ?_
    cases outcome with
    | error failure =>
        dsimp only
        split
        · exact maintains_pure _
        · exact maintains_pure _
    | ok text => exact (maintains_log logs _ _ _).bind fun _ => maintains_pure _

theorem maintains_backUp (logs : IgnoresLog holds) (state : RunState) (path : Path)
    (copies : Maintains holds (copyFile path (path.withSuffix ".bak"))) :
    Maintains holds (backUp state path) := by
  unfold backUp
  split
  · exact maintains_pure _
  · refine copies.bind fun outcome => ?_
    cases outcome with
    | ok done => exact maintains_pure _
    | error error => exact (maintains_log logs _ _ _).bind fun _ => maintains_pure _

theorem maintains_applyStep (logs : IgnoresLog holds)
    (copies : ∀ path : Path, Maintains holds (copyFile path (path.withSuffix ".bak")))
    (backup : Bool) (state : RunState) (step : Step) :
    Maintains holds (applyStep backup state step) := by
  unfold applyStep
  refine (maintains_pathOf _).bind fun path => (maintains_openBuffer logs _ _ _).bind
    fun outcome => ?_
  cases outcome with
  | error reason => exact maintains_pure _
  | ok opened =>
      refine (maintains_value _).bind fun edit => ?_
      cases edit with
      | none => exact maintains_pure _
      | some edit =>
          have last : ∀ kept : RunState, Maintains holds (do
              Activity.log .debug .running
                ("Applied " ++ step.id.shown ++ " to " ++ step.file.shown)
              return afterEdit kept step path edit) :=
            fun kept => (maintains_log logs _ _ _).bind fun _ => maintains_pure _
          cases backup with
          | true => exact (maintains_backUp logs _ _ (copies path)).bind last
          | false => exact last _

theorem maintains_skipBlocked (logs : IgnoresLog holds) (state : RunState) (step : Step) :
    Maintains holds (skipBlocked state step) := by
  unfold skipBlocked
  exact (maintains_log logs _ _ _).bind fun _ => maintains_pure _

/-! ## Finishing -/

theorem maintains_isAppliedAt (path : Path) (result : StepResult) :
    Maintains holds (isAppliedAt path result) := by
  unfold isAppliedAt
  split
  · exact (maintains_pathOf _).bind fun _ => maintains_pure _
  · exact maintains_pure _

theorem maintains_failResults (path : Path) (error : String) (state : RunState)
    (results : List StepResult) : Maintains holds (failResults path error state results) := by
  induction results generalizing state with
  | nil => exact maintains_pure _
  | cons result results induction =>
      unfold failResults
      refine (maintains_isAppliedAt _ _).bind fun found => ?_
      split
      · exact (induction _).bind fun _ => maintains_pure _
      · exact (induction _).bind fun _ => maintains_pure _

theorem maintains_commit (logs : IgnoresLog holds) {buffers : List Buffer}
    (writes : ∀ buffer ∈ buffers, buffer.content ≠ buffer.loaded →
      Maintains holds (writeFile buffer.path (String.ofList buffer.content)))
    (state : RunState) (written : List Path) : Maintains holds (commit state written buffers) := by
  induction buffers generalizing state written with
  | nil => exact maintains_pure _
  | cons buffer buffers induction =>
      have rest := induction fun other member => writes other (List.mem_cons_of_mem _ member)
      unfold commit
      split
      · exact rest _ _
      · rename_i changed
        refine (writes buffer List.mem_cons_self changed).attempt.bind fun outcome => ?_
        cases outcome with
        | ok done => exact (maintains_log logs _ _ _).bind fun _ => rest _ _
        | error failure =>
            cases failure with
            | write cause =>
                exact (maintains_log logs _ _ _).bind fun _ =>
                  (maintains_failResults _ _ _ _).bind fun _ => rest _ _
            | _ => exact maintains_throw _

theorem maintains_appendDeclarations (logs : IgnoresLog holds) {stylesheet : Path}
    (writes : ∀ content, Maintains holds (writeFile stylesheet content)) (state : RunState) :
    Maintains holds (appendDeclarations stylesheet state) := by
  have written : ∀ old message : String, Maintains holds (do
      writeFile stylesheet
        (withUtilities (withTokens old state.tokenDeclarations) state.utilityBlocks)
      Activity.log .info .running message) :=
    fun old message => (writes _).bind fun _ => maintains_log logs _ _ _
  unfold appendDeclarations
  refine (maintains_readText stylesheet).bind fun outcome => ?_
  cases outcome with
  | ok text => exact written _ _
  | error failure =>
      dsimp only
      split
      · exact written _ _
      · exact maintains_throw _

theorem maintains_updateStylesheet (logs : IgnoresLog holds) {stylesheet : Path}
    (writes : ∀ content, Maintains holds (writeFile stylesheet content)) (state : RunState)
    (written : List Path) : Maintains holds (updateStylesheet stylesheet state written) := by
  unfold updateStylesheet
  split
  · exact maintains_pure _
  · refine (maintains_appendDeclarations logs writes state).attempt.bind fun outcome => ?_
    cases outcome with
    | ok done => exact maintains_pure _
    | error failure =>
        cases failure with
        | write cause => exact (maintains_log logs _ _ _).bind fun _ => maintains_pure _
        | _ => exact maintains_throw _

/-- A property that does not look at how often the index was rebuilt. -/
def IgnoresRebuilds (holds : Session → Prop) : Prop :=
  ∀ session rebuilds, holds session → holds { session with rebuilds }

theorem maintains_rebuildIndex (logs : IgnoresLog holds) (rebuilds : IgnoresRebuilds holds)
    (index : IndexRebuild) : Maintains holds (rebuildIndex index) := by
  cases index with
  | absent => exact maintains_pure _
  | works => exact maintains_modify fun session => rebuilds session _
  | fails reason =>
      exact (maintains_modify fun session => rebuilds session _).bind fun _ =>
        maintains_log logs _ _ _

theorem maintains_timestampNow : Maintains holds timestampNow := by
  unfold timestampNow
  refine maintains_get.bind fun session => ?_
  dsimp only
  split
  · exact maintains_pure _
  · exact maintains_throw _

theorem maintains_conclude (logs : IgnoresLog holds)
    (writes : ∀ content, Maintains holds (writeFile layout.checkpoint content)) (state : RunState)
    (written : List Path) (warnings : List String) :
    Maintains holds (conclude layout task state written warnings) := by
  unfold conclude
  refine maintains_timestampNow.bind fun stamp => ?_
  unfold Checkpoint.save
  exact ((writes _).bind fun _ => maintains_log logs _ _ _).bind fun _ => maintains_pure _

/-- What comes after the execution of the steps maintains what its writes
maintain: those of the changed buffers, the stylesheet and the checkpoint. -/
theorem maintains_finish (logs : IgnoresLog holds) (rebuilds : IgnoresRebuilds holds)
    {executed : RunState}
    (sources : ∀ buffer ∈ executed.buffers, buffer.content ≠ buffer.loaded →
      Maintains holds (writeFile buffer.path (String.ofList buffer.content)))
    (stylesheet : ∀ content, Maintains holds (writeFile layout.stylesheet content))
    (checkpoint : ∀ content, Maintains holds (writeFile layout.checkpoint content))
    (index : IndexRebuild) (task : Task) : Maintains holds (finish layout index task executed) := by
  unfold finish
  refine (maintains_commit logs sources _ _).bind fun committed =>
    (maintains_updateStylesheet logs stylesheet _ _).bind fun styled => ?_
  dsimp only
  split
  · exact (maintains_rebuildIndex logs rebuilds index).bind fun _ =>
      maintains_conclude logs checkpoint _ _ _
  · exact maintains_conclude logs checkpoint _ _ _

end Migration

end Restyle
