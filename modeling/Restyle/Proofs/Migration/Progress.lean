import Restyle.Proofs.Migration.Lists
import Restyle.Proofs.Migration.Records
import Restyle.Proofs.Schedule.Selection

/-!
# The progress of a run

What a run that performs its task leaves in the checkpoint: the lists it
started from with some steps of the task marked, found again by the next run.
-/

namespace Restyle

namespace Migration

variable {options : MigrationOptions} {layout : Layout} {index : IndexRebuild} {task : Task}
  {report : RunReport} {session started after : Session}

/-- The scheduled steps are steps of the plan, each once, and none of them is
completed. -/
theorem Schedules.steps {selection : Selection} {steps scheduled : List Step}
    (schedules : Schedules selection steps scheduled) :
    (∀ step ∈ scheduled, step ∈ steps ∧ step.id.isKey = true ∧
        step.id.isAmong selection.completed = false) ∧
      (scheduled.map (·.id.key?)).Nodup ∧ ∀ id ∈ selection.completed, id.isKey = true := by
  obtain ⟨selected, schedule, filtered, ordered, _, rfl⟩ := schedules
  obtain ⟨sublist, completedKeys, fresh⟩ := Selection.filter_eq_ok filtered
  obtain ⟨keys, members, distinct⟩ := Schedule.ofSteps_eq_ok ordered
  refine ⟨fun step member => ?_, distinct, completedKeys⟩
  have chosen := members step member
  exact ⟨sublist.subset chosen, keys step chosen, fresh step chosen⟩

/-- The lists that a run starts from. -/
def Task.start (task : Task) : Lists := (startState task.checkpoint).lists

/-- What a run that performs its task saves. -/
structure Saves (layout : Layout) (task : Task) (report : RunReport) (after : Session)
    (saved : Checkpoint) : Prop where
  reported : report.checkpoint = some saved
  bytes : after.workspace.readBytes layout.checkpoint =
    .ok (Text.encode saved.toJson.pretty.toList)
  clean : layout.checkpoint.hasNull = false
  digest : saved.planDigest = .text task.digest
  texts : ∃ planPath lastUpdated, saved.planPath = .text planPath ∧
    saved.lastUpdated = .text lastUpdated
  lists : ∃ marked : List StepResult, saved.lists = task.start.markResults marked ∧
    ∀ result ∈ marked, ∃ step ∈ task.steps, result.stepId = step.id
  results : ∀ result ∈ report.results, ∃ step ∈ task.steps, result.stepId = step.id
  applied : ∀ result ∈ report.results, result.status = .applied →
    result.stepId ∈ saved.completed

theorem Applies.saves (applied : Applies options layout task session report after)
    (keys : ∀ step ∈ task.steps, step.id.isKey = true)
    (distinct : (task.steps.map (·.id.key?)).Nodup) :
    ∃ saved, Saves layout task report after saved := by
  cases applied with
  | @intro done cut executed state written files refused warnings _ _ middle committed styled ready _
      split whole execution commitment _ setting styling quiet conclusion =>
      obtain ⟨stamp, wrote, _, _, writing, ended, results, _, reported⟩ := conclude_eq_ok conclusion
      have attempted : ∀ step ∈ done, step ∈ task.steps := by
        intro step member
        rw [split]
        exact List.mem_append_left _ member
      have doneDistinct : (done.map (·.id.key?)).Nodup := by
        rw [split, List.map_append] at distinct
        exact (List.nodup_append.mp distinct).1
      obtain ⟨outcomes, made, subjects, lists⟩ := execution.records
      rw [startState_results, List.nil_append] at made
      obtain ⟨marked, markedLists, markedIds⟩ := commitment.marks
      have ids : ∀ result ∈ outcomes, ∃ step ∈ task.steps, result.stepId = step.id := by
        intro result member
        have listed : result.stepId ∈ done.map (·.id) :=
          map_stepId_of_subjects subjects ▸ List.mem_map_of_mem member
        obtain ⟨step, among, same⟩ := List.mem_map.mp listed
        exact ⟨step, attempted step among, same.symm⟩
      have reflects : Reflects state := commitment.reflects (execution.reflects
        (startState_results _) (fun step member => keys step (attempted step member)) doneDistinct)
      refine ⟨checkpointOf task state stamp, reported, ?_, Activity.writeFile_clean writing, rfl,
        ⟨_, _, rfl, rfl⟩, ⟨outcomes ++ marked, ?_, ?_⟩, ?_, ?_⟩
      · rw [ended.workspace]
        exact (Activity.writeFile_ok writing).2.2
      · rw [Lists.markResults_append, Task.start, ← lists]
        exact markedLists
      · intro result member
        rcases List.mem_append.mp member with first | second
        · exact ids result first
        · obtain ⟨old, among, same⟩ := markedIds result second
          rw [same]
          exact ids old (made ▸ among)
      · intro result member
        rw [results, commitment.results] at member
        obtain ⟨old, among, rfl⟩ := List.mem_map.mp member
        have same : (refuseAll middle.project refused old).stepId = old.stepId :=
          congrArg Prod.fst (refuseAll_subject ..)
        rw [same]
        exact ids old (made ▸ among)
      · intro result member isApplied
        exact reflects.completed result (results ▸ member) isApplied

theorem Saves.storedAt {saved : Checkpoint} (saves : Saves layout task report after saved)
    (stepsTidy : ∀ step ∈ task.steps, Json.IsTidy step.id)
    (startTidy : ∀ id ∈ task.start.all, Json.IsTidy id) :
    Checkpoint.storedAt after.workspace layout.checkpoint = .ok (some saved) := by
  obtain ⟨planPath, lastUpdated, isPath, isUpdated⟩ := saves.texts
  obtain ⟨marked, lists, known⟩ := saves.lists
  refine Checkpoint.storedAt_of_bytes (Checkpoint.isTidy_toJson ?_ ?_ ?_ ?_) saves.bytes
  · intro id member
    have among : id ∈ (task.start.markResults marked).all := lists ▸ member
    rcases Lists.mem_all_markResults among with ⟨result, found, rfl⟩ | old
    · obtain ⟨step, scheduled, same⟩ := known result found
      rw [same]
      exact stepsTidy step scheduled
    · exact startTidy id old
  · rw [isPath]
    trivial
  · rw [saves.digest]
    trivial
  · rw [isUpdated]
    trivial

theorem ResumesFrom.tidy {workspace : Workspace} {digest : String} {checkpoint : Option Checkpoint}
    (resumes : ResumesFrom options layout workspace digest checkpoint) :
    ∀ id ∈ (startState checkpoint).lists.all, Json.IsTidy id := by
  unfold ResumesFrom at resumes
  cases checkpoint with
  | none =>
      intro id member
      cases member
  | some found =>
      split at resumes
      · exact Checkpoint.hasTidyLists_of_storedAt resumes.1
      · cases resumes

/-- A run that may change files and returns a report has nothing to do and
changes nothing, or saves a checkpoint that is found again. -/
theorem run_progress (applying : options.apply = true)
    (returned : run options layout index session = .ok report after) :
    ∃ task, Prepared options layout session task ∧
      ((task.steps = [] ∧ report.results = [] ∧ report.checkpoint = none ∧
          after.workspace = session.workspace) ∨
        ∃ saved, Saves layout task report after saved ∧
          Checkpoint.storedAt after.workspace layout.checkpoint = .ok (some saved)) := by
  obtain ⟨task, started, preparing, outcome⟩ := run_cases applying returned
  obtain ⟨prepared, quiet⟩ := prepare_eq_ok preparing
  refine ⟨task, prepared, ?_⟩
  rcases outcome with ⟨idle, rfl, rfl⟩ | ⟨_, applied⟩
  · exact Or.inl ⟨idle, rfl, rfl, quiet.workspace⟩
  · obtain ⟨scheduled, distinct, _⟩ := prepared.steps.steps
    obtain ⟨saved, saves⟩ :=
      applied.saves (fun step member => (scheduled step member).2.1) distinct
    refine Or.inr ⟨saved, saves, saves.storedAt ?_ prepared.checkpoint.tidy⟩
    exact fun step member => prepared.plan.tidy_ids step (scheduled step member).1

end Migration

end Restyle
