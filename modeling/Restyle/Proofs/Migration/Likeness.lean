import Restyle.Proofs.Activity.Likeness
import Restyle.Proofs.Migration.Running

/-!
# Runs that end alike

The parts of a run are steady.  More is true of a step: it looks at the buffers and
the copied files of the state, and adds its outcome to whatever else the state
holds.  So from states that agree in these it does the same, and every relation
between states that only speaks of what it adds is kept.
-/

namespace Restyle

namespace Migration

open Activity

variable {options : MigrationOptions} {layout : Layout} {index : IndexRebuild} {task : Task}
  {related : RunState → RunState → Prop} {state other : RunState} {step : Step}
  {steps : List Step}

/-- What has to hold of related states for a step to do the same from both and to
leave them related. -/
structure KeepsRelation (related : RunState → RunState → Prop) (step : Step) : Prop where
  buffers : ∀ {state other}, related state other → other.buffers = state.buffers
  backedUp : ∀ {state other}, related state other → other.backedUp = state.backedUp
  failed : ∀ {state other}, related state other → other.failed = state.failed
  buffering : ∀ {state other} buffers, related state other →
    related { state with buffers } { other with buffers }
  backing : ∀ {state other} backedUp, related state other →
    related { state with backedUp } { other with backedUp }
  keeping : ∀ {state other} effect, related state other →
    related (state.keepSideEffect effect) (other.keepSideEffect effect)
  recording : ∀ {state other} status error size, related state other →
    related (state.record step status error size) (other.record step status error size)

theorem KeepsRelation.afterEdit (keeps : KeepsRelation related step) (same : related state other)
    (path : Path) (edit : Edit) :
    related (afterEdit state step path edit) (afterEdit other step path edit) := by
  have edited : related (state.setContent path edit.content)
      (other.setContent path edit.content) := by
    unfold RunState.setContent
    rw [keeps.buffers same]
    exact keeps.buffering _ same
  exact keeps.recording _ _ _ (keeps.keeping _ edited)

theorem KeepsRelation.isBlocked (keeps : KeepsRelation related step) (same : related state other) :
    other.isBlocked step = state.isBlocked step := by
  unfold RunState.isBlocked
  rw [keeps.failed same]

/-! ## Finishing -/

end Migration

end Restyle
