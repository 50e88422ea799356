import Restyle.Proofs.Migration.FailedRuns
import Restyle.Proofs.Migration.Tallies

/-!
# Where runs write

Executing steps makes backups, and finishing a run writes the edited files, the
stylesheet and the checkpoint, each through a temporary file of its own.  Every
write stays within the places that it may touch and takes its temporary file away
again, so the same is true of the whole run, however it ends.
-/

namespace Restyle

/-- Nothing stands in a place with a certain name on the way to it. -/
def Workspace.Lacks (workspace : Workspace) (name : String) : Prop :=
  ∀ place, name ∈ place → workspace.get? place = none

theorem Workspace.Evolves.lacks {touched made : Place → Prop} {before after : Workspace}
    {name : String} (evolved : Workspace.Evolves touched made before after)
    (lacks : before.Lacks name) (unmade : ∀ place, made place → name ∉ place)
    (cleared : ∀ place, touched place → name ∈ place → after.get? place = none) :
    after.Lacks name := by
  intro place named
  by_cases concerned : touched place
  · exact cleared place concerned named
  · rcases evolved.keepsOther place concerned with kept | ⟨_, directory⟩
    · exact kept.trans (lacks place named)
    · rcases evolved.newDirectory place directory with old | permitted
      · rw [lacks place named] at old
        cases old
      · exact absurd named (unmade place permitted)

/-- The name of a backup has a suffix, which the name of a temporary file has not. -/
theorem Session.temporaryName_ne_backup {session : Session} (plain : session.HasPlainTag)
    (name : String) : session.temporaryName ≠ name ++ ".bak" := by
  intro same
  have letters := congrArg (fun text => text.toList.reverse) same
  simp only [Session.temporaryName_toList, String.toList_append, List.reverse_append] at letters
  have suffix : ".bak".toList.reverse = ['k', 'a', 'b', '.'] := by decide
  have lead : ".north-tmp-".toList.reverse =
      ['-', 'p', 'm', 't', '-', 'h', 't', 'r', 'o', 'n', '.'] := by decide
  rw [suffix, lead] at letters
  have dotted : ∀ tag : List Char, (∀ character ∈ tag, character ≠ '.') →
      tag ++ ['-', 'p', 'm', 't', '-', 'h', 't', 'r', 'o', 'n', '.'] ≠
        ['k', 'a', 'b', '.'] ++ name.toList.reverse := by
    intro tag free
    rcases tag with _ | ⟨first, _ | ⟨second, _ | ⟨third, _ | ⟨fourth, tag⟩⟩⟩⟩ <;>
      simp_all
  exact dotted _ (fun character member => (plain character (List.mem_reverse.mp member)).2) letters

namespace Migration

open Activity

variable {options : MigrationOptions} {layout : Layout} {index : IndexRebuild} {task : Task}
  {base session started middle after : Session} {target : Path} {touched made : Place → Prop}
  {steps : List Step} {failure : Failure}

/-! ## Writing within bounds -/

/-- What has come of a session in which writes were kept within certain places and
no temporary file was left. -/
structure Within (base : Session) (touched made : Place → Prop) (session : Session) : Prop where
  setting : base.SameSetting session
  evolved : Workspace.Evolves (fun place => touched place ∨ base.temporaryName ∈ place) made
    base.workspace session.workspace
  lacks : session.workspace.Lacks base.temporaryName

theorem Within.mono {wider allowed : Place → Prop} (within : Within base touched made session)
    (touches : ∀ place, touched place → wider place)
    (makes : ∀ place, made place → allowed place) : Within base wider allowed session where
  setting := within.setting
  evolved := within.evolved.mono (fun place => Or.imp_left (touches place)) makes
  lacks := within.lacks

theorem Within.cases {place : Place} (within : Within base touched made session)
    (lacks : base.workspace.Lacks base.temporaryName)
    (changed : session.workspace.get? place ≠ base.workspace.get? place) :
    touched place ∨
      base.workspace.get? place = none ∧ session.workspace.get? place = some .directory ∧
        made place := by
  by_cases concerned : touched place ∨ base.temporaryName ∈ place
  · rcases concerned with touches | named
    · exact Or.inl touches
    · exact absurd ((within.lacks place named).trans (lacks place named).symm) changed
  · rcases within.evolved.keepsOther place concerned with kept | ⟨absent, directory⟩
    · exact absurd kept changed
    · refine Or.inr ⟨absent, directory, ?_⟩
      rcases within.evolved.newDirectory place directory with old | permitted
      · rw [absent] at old
        cases old
      · exact permitted

theorem ignoresLog_within : IgnoresLog (Within base touched made) :=
  fun _ _ within => ⟨within.setting.trans ⟨rfl, rfl, rfl, rfl⟩, within.evolved, within.lacks⟩

theorem ignoresRebuilds_within : IgnoresRebuilds (Within base touched made) :=
  fun _ _ within => ⟨within.setting.trans ⟨rfl, rfl, rfl, rfl⟩, within.evolved, within.lacks⟩

theorem maintains_within (plain : base.HasPlainTag) (unnamed : base.temporaryName ∉ target.names)
    (touches : touched target.place) (makes : ∀ place, target.parent.Passes place → made place)
    (content : String) : Maintains (Within base touched made) (writeFile target content) := by
  have aside : ∀ place, target.parent.Passes place → base.temporaryName ∉ place :=
    fun place passes named => unnamed (List.dropLast_subset _ (passes.mem_names named))
  have apart : base.temporaryName ∉ target.place := fun named => unnamed (Path.mem_place named)
  intro session within
  have temporary : (temporaryFor session target).place =
      target.parent.place ++ [base.temporaryName] := by
    rw [within.setting.temporaryFor, Session.temporaryFor_place plain]
  have named : base.temporaryName ∈ (temporaryFor session target).place := by simp [temporary]
  obtain ⟨stored, refused⟩ := @writeFile_clears session target content
    (fun same => apart (same ▸ named)) (within.lacks _ named) fun passes => aside _ passes named
  constructor
  · intro _ after success
    obtain ⟨setting, evolved, _⟩ := writeFile_ok success
    refine ⟨within.setting.trans setting, within.evolved.trans (evolved.mono ?_ makes),
      evolved.lacks within.lacks aside ?_⟩
    · rintro place (rfl | rfl)
      · exact Or.inr named
      · exact Or.inl touches
    · rintro place (rfl | rfl) inside
      · exact stored _ _ success
      · exact absurd inside apart
  · intro failure after stopped
    obtain ⟨setting, evolved⟩ := writeFile_error stopped
    refine ⟨within.setting.trans setting, within.evolved.trans (evolved.mono ?_ makes),
      evolved.lacks within.lacks aside ?_⟩
    · rintro place rfl
      exact Or.inr named
    · rintro place rfl _
      exact refused _ _ stopped

/-! ## The parts of a run -/

/-- Whether a run writes a file at a path. -/
def IsWriteTarget (layout : Layout) (project : Path) (steps : List Step) (path : Path) : Prop :=
  path = layout.stylesheet ∨ path = layout.checkpoint ∨
    ∃ step ∈ steps, fileKey? project step.file = some path

/-- Whether a directory may be made at a place: it is on the way to a file that a run
writes. -/
def IsParentPlace (layout : Layout) (project : Path) (steps : List Step) (place : Place) : Prop :=
  ∃ target, IsWriteTarget layout project steps target ∧ target.parent.Passes place

/-- Whether a step on a file at a place was applied when the steps were executed. -/
def IsEditedPlace (options : MigrationOptions) (task : Task) (session : Session) (place : Place) :
    Prop :=
  ∃ executed middle, executeAll options (startState task.checkpoint) task.steps session =
      .ok executed middle ∧
    ∃ step ∈ task.steps, ∃ result ∈ executed.results, result.subject = step.subject ∧
      result.status = .applied ∧
        ∃ key, fileKey? session.project step.file = some key ∧ place = key.place

/-- The places of the files of steps, of their backups, and of what a run writes on
its own account do not have the name of the temporary files in them. -/
structure HasNewName (session : Session) (layout : Layout) (steps : List Step) : Prop extends
    FreshTag session steps where
  stylesheet : session.temporaryName ∉ layout.stylesheet.names
  checkpoint : session.temporaryName ∉ layout.checkpoint.names

theorem FreshTag.lacks (fresh : FreshTag session steps) :
    session.workspace.Lacks session.temporaryName := by
  intro place named
  cases standing : session.workspace.get? place with
  | none => rfl
  | some entry => exact absurd named (fresh.unused place entry standing)

theorem FreshTag.backup (fresh : FreshTag session steps) {place : Place}
    (backup : IsBackupPlace session.project steps place) : session.temporaryName ∉ place := by
  obtain ⟨step, member, key, known, rfl⟩ := backup
  intro named
  have listed : session.temporaryName ∈ key.names.dropLast ++ [key.name ++ ".bak"] :=
    Path.mem_place named
  rcases List.mem_append.mp listed with above | last
  · exact fresh.unnamed step member key known (List.dropLast_subset _ above)
  · exact Session.temporaryName_ne_backup fresh.plain _ (List.mem_singleton.mp last)

/-- Executing steps makes backups at most. -/
theorem executed_within {done cut : List Step} {state next : RunState}
    (fresh : FreshTag session task.steps) (split : task.steps = done ++ cut)
    (execution : Executes options.backup state session done next after) :
    Within session (IsBackupPlace session.project task.steps) (fun _ => False) after := by
  have evolved : Workspace.Evolves (IsBackupPlace session.project task.steps) (fun _ => False)
      session.workspace after.workspace := by
    apply (execution.evolves fun _ => False).touching
    rintro place ⟨step, member, backup⟩
    exact ⟨step, split ▸ List.mem_append_left _ member, backup⟩
  refine ⟨execution.sameSetting, evolved.touching fun _ => Or.inl, ?_⟩
  exact evolved.lacks fresh.lacks (fun _ never => never.elim) fun place backup named =>
    absurd named (fresh.backup backup)

/-- Whether something is written at a place once the steps are executed. -/
def IsWrittenPlace (layout : Layout) (executed : RunState) (place : Place) : Prop :=
  place = layout.stylesheet.place ∨ place = layout.checkpoint.place ∨
    ∃ buffer ∈ executed.buffers, buffer.content ≠ buffer.loaded ∧ place = buffer.path.place

/-- What comes after the execution writes the edited files, the stylesheet and the
checkpoint. -/
theorem finish_within {executed : RunState} (plain : base.HasPlainTag)
    (unnamed : ∀ path, IsWriteTarget layout base.project steps path →
      base.temporaryName ∉ path.names)
    (keyed : ∀ buffer ∈ executed.buffers,
      ∃ step ∈ steps, fileKey? base.project step.file = some buffer.path)
    (touches : ∀ place, IsWrittenPlace layout executed place → touched place)
    (makes : ∀ place, IsParentPlace layout base.project steps place → made place)
    (within : Within base touched made session)
    (ends : EndsIn (finish layout index task executed) session after) :
    Within base touched made after := by
  have writes : ∀ target, IsWriteTarget layout base.project steps target →
      IsWrittenPlace layout executed target.place → ∀ content,
        Maintains (Within base touched made) (writeFile target content) :=
    fun target written place => maintains_within plain (unnamed target written)
      (touches _ place) fun _ passes => makes _ ⟨target, written, passes⟩
  have maintained := maintains_finish ignoresLog_within ignoresRebuilds_within
    (fun buffer member changed => writes buffer.path (Or.inr (Or.inr (keyed buffer member)))
      (Or.inr (Or.inr ⟨buffer, member, changed, rfl⟩)) _)
    (writes layout.stylesheet (Or.inl rfl) (Or.inl rfl))
    (writes layout.checkpoint (Or.inr (Or.inl rfl)) (Or.inr (Or.inl rfl))) index task
  exact Maintains.ends maintained within ends

/-- Whether a run may change what stands at a place: a step on a file there was
applied, it is the place of a backup, the stylesheet or the checkpoint, or a missing
directory above one of the files that a run writes was made there. -/
def MayChange (options : MigrationOptions) (layout : Layout) (task : Task)
    (session after : Session) (place : Place) : Prop :=
  IsEditedPlace options task session place ∨ IsBackupPlace session.project task.steps place ∨
    place = layout.stylesheet.place ∨ place = layout.checkpoint.place ∨
      session.workspace.get? place = none ∧ after.workspace.get? place = some .directory ∧
        IsParentPlace layout session.project task.steps place

theorem executeAll_keyed {executed : RunState}
    (executing : executeAll options (startState task.checkpoint) task.steps session =
      .ok executed middle) :
    ∀ buffer ∈ executed.buffers,
      ∃ step ∈ task.steps, fileKey? session.project step.file = some buffer.path := by
  obtain ⟨done, cut, split, execution, _⟩ := executeAll_executes executing
  have empty : (startState task.checkpoint).buffers = [] := startState_buffers _
  intro buffer member
  have stands := (execution.bufferPaths (by simp [empty])).2 buffer.path
    (List.mem_map_of_mem member)
  rw [empty] at stands
  obtain ⟨_, step, listed, known⟩ := stands.resolve_left List.not_mem_nil
  exact ⟨step, split ▸ List.mem_append_left _ listed, known⟩

theorem applySteps_within (new : HasNewName session layout task.steps)
    (ends : EndsIn (executeAll options (startState task.checkpoint) task.steps >>=
      finish layout index task) session after) :
    after.workspace.Lacks session.temporaryName ∧
      ∀ place, after.workspace.get? place ≠ session.workspace.get? place →
        MayChange options layout task session after place := by
  have fresh := new.toFreshTag
  rcases ends.bind with ⟨failure, stopped⟩ | ⟨executed, middle, executing, finishes⟩
  · obtain ⟨done, cut, next, split, execution⟩ := executeAll_stops stopped
    have within := executed_within fresh split execution
    refine ⟨within.lacks, fun place changed => Or.inr (Or.inl ?_)⟩
    rcases within.cases fresh.lacks changed with backup | ⟨_, _, never⟩
    · exact backup
    · exact never.elim
  · obtain ⟨done, cut, split, execution, _⟩ := executeAll_executes executing
    have empty : (startState task.checkpoint).buffers = [] := startState_buffers _
    have keyed := executeAll_keyed executing
    have unnamed : ∀ path, IsWriteTarget layout session.project task.steps path →
        session.temporaryName ∉ path.names := by
      rintro path (rfl | rfl | ⟨step, member, known⟩)
      · exact new.stylesheet
      · exact new.checkpoint
      · exact new.unnamed step member path known
    have within := finish_within fresh.plain unnamed keyed (fun place => Or.inr)
      (fun _ parent => parent)
      ((executed_within fresh split execution).mono (fun place => Or.inl) fun _ never => never.elim)
      finishes
    refine ⟨within.lacks, fun place changed => ?_⟩
    rcases within.cases fresh.lacks changed with
      (backup | stylesheet | checkpoint | ⟨buffer, member, edited, rfl⟩) | directory
    · exact Or.inr (Or.inl backup)
    · exact Or.inr (Or.inr (Or.inl stylesheet))
    · exact Or.inr (Or.inr (Or.inr (Or.inl checkpoint)))
    · obtain ⟨_, result, listed, applied, known⟩ :=
        execution.edits (by simp [empty]) buffer member edited
      obtain ⟨outcomes, made, subjects, _⟩ := execution.records
      rw [startState_results, List.nil_append] at made
      have subject : result.subject ∈ done.map Step.subject := by
        rw [← subjects, ← made]
        exact List.mem_map_of_mem listed
      obtain ⟨step, among, same⟩ := List.mem_map.mp subject
      refine Or.inl ⟨executed, middle, executing, step, split ▸ List.mem_append_left _ among,
        result, listed, same.symm, applied, buffer.path, ?_, rfl⟩
      have file : step.file = result.file :=
        congrArg (fun subject : Json × Json × String => subject.2.1) same
      rw [file]
      exact known
    · exact Or.inr (Or.inr (Or.inr (Or.inr directory)))

theorem HasNewName.of_quiet {some : List Step} (new : HasNewName session layout steps)
    (within : ∀ step ∈ some, step ∈ steps) (quiet : session.Quiet started) :
    HasNewName started layout some where
  toFreshTag := (new.toFreshTag.of_subset within).of_quiet quiet
  stylesheet := by
    rw [quiet.temporaryName]
    exact new.stylesheet
  checkpoint := by
    rw [quiet.temporaryName]
    exact new.checkpoint

/-- However a run ends, it leaves no temporary file, and what stands at a place has
changed only if a step on a file there was applied, or if it is the place of a
backup, the stylesheet, the checkpoint, or a new directory above one of the files
that a run writes. -/
theorem run_writes_within (ends : EndsIn (run options layout index) session after)
    (new : HasNewName session layout (plannedSteps options layout session)) :
    after.workspace.Lacks session.temporaryName ∧
      ∀ place, after.workspace.get? place ≠ session.workspace.get? place →
        ∃ task started, prepare options layout session = .ok task started ∧
          session.Quiet started ∧ MayChange options layout task started after place := by
  have unchanged : session.Quiet after → after.workspace.Lacks session.temporaryName ∧
      ∀ place, after.workspace.get? place ≠ session.workspace.get? place →
        ∃ task started, prepare options layout session = .ok task started ∧
          session.Quiet started ∧ MayChange options layout task started after place := by
    intro quiet
    rw [quiet.workspace]
    exact ⟨new.toFreshTag.lacks, fun place changed => absurd rfl changed⟩
  rw [run_eq] at ends
  rcases ends.bind with ⟨failure, unprepared⟩ | ⟨task, started, prepared, performs⟩
  · exact unchanged ((isQuiet_prepare options layout session).2 _ _ unprepared)
  · obtain ⟨known, quiet⟩ := prepare_eq_ok prepared
    unfold perform at performs
    split at performs
    · have still := Maintains.ends (maintains_pure _) (Session.Quiet.refl started) performs
      exact unchanged (quiet.trans still)
    · split at performs
      · rw [applySteps_eq] at performs
        obtain ⟨lacks, changes⟩ := applySteps_within (new.of_quiet known.planned quiet) performs
        rw [quiet.temporaryName] at lacks
        refine ⟨lacks, fun place changed => ⟨task, started, prepared, quiet, changes place ?_⟩⟩
        rw [quiet.workspace]
        exact changed
      · have still := Maintains.ends (maintains_value _) (Session.Quiet.refl started) performs
        exact unchanged (quiet.trans still)

theorem run_writes_within_unsavable :
    ∃ failure after, run { apply := true } smallLayout .absent
        (tokenProject smallLayout.checkpoint) = .error failure after ∧
      after.workspace.Lacks (tokenProject smallLayout.checkpoint).temporaryName ∧
        ∃ task started, prepare { apply := true } smallLayout
            (tokenProject smallLayout.checkpoint) = .ok task started ∧
          IsEditedPlace { apply := true } task started tokenFile.place := by
  obtain ⟨planned, left⟩ := unsavable_observed
  have files := files_of_map planned
  obtain ⟨cause, after, stopped, bytes⟩ := leftUnwritten_eq_some left
  have new : HasNewName (tokenProject smallLayout.checkpoint) smallLayout
      (plannedSteps { apply := true } smallLayout (tokenProject smallLayout.checkpoint)) :=
    ⟨(tokenProject_fresh smallLayout.checkpoint files).1, by decide, by decide⟩
  obtain ⟨lacks, changes⟩ := run_writes_within (Or.inr ⟨_, stopped⟩) new
  have before : (tokenProject smallLayout.checkpoint).workspace.get? tokenFile.place =
      some (.file (Text.encode "x y".toList) 420) := rfl
  have changed : after.workspace.get? tokenFile.place ≠
      (tokenProject smallLayout.checkpoint).workspace.get? tokenFile.place := by
    intro same
    obtain ⟨_, mode, standing⟩ := Workspace.readBytes_eq_ok_iff.mp bytes
    rw [same, before] at standing
    exact absurd (Entry.file.inj (Option.some.inj standing)).1 (by decide)
  obtain ⟨task, started, prepared, quiet, change⟩ := changes _ changed
  refine ⟨_, after, stopped, lacks, task, started, prepared, ?_⟩
  rcases change with edited | ⟨step, member, key, known, same⟩ | stylesheet | checkpoint |
    ⟨absent, _⟩
  · exact edited
  · have among := (prepare_eq_ok prepared).1.planned step member
    rw [quiet.project] at known
    rw [(tokenProject_fresh smallLayout.checkpoint files).2 step among key known] at same
    exact absurd same (by decide)
  · exact absurd stylesheet (by decide)
  · exact absurd checkpoint (by decide)
  · rw [quiet.workspace, before] at absent
    cases absent

/-- The document of a plan of two steps: one makes a token of a class, and the other
removes a class from the stylesheet in which it does not occur. -/
def stylingPlan : Json :=
  .object
    [("version", .integer 1),
      ("steps", .array
        [.object
          [("id", .text "a"), ("file", .text "f"), ("line", .integer 1), ("ruleId", .text ""),
            ("severity", .text "info"), ("confidence", .integer 1),
            ("action", .object
              [("type", .text "tokenize"), ("value", .text "x"), ("tokenName", .text "--t")])],
        .object
          [("id", .text "b"), ("file", .text "css"), ("line", .integer 1), ("ruleId", .text ""),
            ("severity", .text "info"), ("confidence", .integer 1),
            ("action", .object [("type", .text "remove"), ("className", .text "z")])]])]

def stylingProject : Session where
  workspace :=
    ⟨[(["p"], .directory),
      (["p", "plan"], .file (Text.encode (Json.compactText stylingPlan)) 420),
      (["p", "css"], .file (Text.encode "y".toList) 420),
      (["p", "f"], .file (Text.encode "x y".toList) 420)]⟩
  project := ⟨.root, ["p"]⟩
  now := 0
  temporaryTag := "0"

/-- The files of the results of the steps of a task when they are executed, and how
the steps ended. -/
def executedFiles (options : MigrationOptions) (task : Task) (session : Session) :
    Option (List (Json × StepStatus)) :=
  match executeAll options (startState task.checkpoint) task.steps session with
  | .ok executed _ => some (executed.results.map fun result => (result.file, result.status))
  | .error _ _ => none

theorem IsEditedPlace.applied {place : Place} {ended : List (Json × StepStatus)}
    (edited : IsEditedPlace options task session place)
    (observed : executedFiles options task session = some ended) :
    ∃ file, (file, StepStatus.applied) ∈ ended ∧
      ∃ key, fileKey? session.project file = some key ∧ place = key.place := by
  obtain ⟨executed, middle, executing, step, _, result, listed, same, applied, key, known, here⟩ :=
    edited
  rw [executedFiles, executing] at observed
  have file : result.file = step.file :=
    congrArg (fun subject : Json × Json × String => subject.2.1) same
  refine ⟨step.file, ?_, key, known, here⟩
  rw [← Option.some.inj observed, ← file, ← applied]
  exact List.mem_map_of_mem listed

/-- What is seen of a run and of the execution of its steps: their files, how they
ended when they were executed, and the stylesheet. -/
def stylingView (options : MigrationOptions) (layout : Layout) (index : IndexRebuild)
    (session : Session) :
    Option (List Json × Option (List (Json × StepStatus)) × Option (List UInt8)) :=
  match prepare options layout session with
  | .error _ _ => none
  | .ok task started =>
      match perform options layout index task started with
      | .error _ _ => none
      | .ok _ after =>
          some (task.steps.map Step.file, executedFiles options task started,
            (after.workspace.readBytes layout.stylesheet).toOption)

theorem stylingView_eq_some {files : List Json} {ended : Option (List (Json × StepStatus))}
    {bytes : Option (List UInt8)}
    (observed : stylingView options layout index session = some (files, ended, bytes)) :
    ∃ task started report after, prepare options layout session = .ok task started ∧
      run options layout index session = .ok report after ∧ task.steps.map Step.file = files ∧
        executedFiles options task started = ended ∧
          (after.workspace.readBytes layout.stylesheet).toOption = bytes := by
  unfold stylingView at observed
  cases prepared : prepare options layout session with
  | error failure stopped =>
      rw [prepared] at observed
      cases observed
  | ok task started =>
      simp only [prepared] at observed
      cases performed : perform options layout index task started with
      | error failure stopped =>
          rw [performed] at observed
          cases observed
      | ok report after =>
          rw [performed] at observed
          cases observed
          refine ⟨task, started, report, after, rfl, ?_, rfl, rfl, rfl⟩
          rw [run_of_prepared prepared, performed]

theorem styling_observed : stylingView { apply := true } smallLayout .absent stylingProject =
    some ([.text "f", .text "css"], some [(.text "f", .applied), (.text "css", .failed)],
      some (Text.encode (withTokens "y" ["--t: x;"]).toList)) := by
  rw [stylingView, prepare_loads]
  decide +kernel

/-- The stylesheet changes although it is the file of a step, if none of the steps on
it is applied. -/
theorem unedited_stylesheet_changes :
    ∃ task started report after,
      prepare { apply := true } smallLayout stylingProject = .ok task started ∧
        run { apply := true } smallLayout .absent stylingProject = .ok report after ∧
          (∃ step ∈ task.steps,
            fileKey? started.project step.file = some smallLayout.stylesheet) ∧
            ¬ IsEditedPlace { apply := true } task started smallLayout.stylesheet.place ∧
              after.workspace.get? smallLayout.stylesheet.place ≠
                stylingProject.workspace.get? smallLayout.stylesheet.place := by
  obtain ⟨task, started, report, after, prepared, returned, files, ended, styled⟩ :=
    stylingView_eq_some styling_observed
  have project : started.project = ⟨.root, ["p"]⟩ := (prepare_eq_ok prepared).2.project
  refine ⟨task, started, report, after, prepared, returned, ?_, ?_, ?_⟩
  · have listed : Json.text "css" ∈ task.steps.map Step.file := by
      rw [files]
      exact List.mem_cons_of_mem _ (List.mem_singleton_self _)
    obtain ⟨step, member, file⟩ := List.mem_map.mp listed
    refine ⟨step, member, ?_⟩
    rw [file, project]
    decide
  · intro edited
    obtain ⟨file, applied, key, known, here⟩ := edited.applied ended
    obtain rfl : file = .text "f" := by simpa using applied
    rw [project] at known
    have source : fileKey? ⟨.root, ["p"]⟩ (.text "f") = some tokenFile := by decide
    rw [Option.some.inj (known.symm.trans source)] at here
    exact absurd here (by decide)
  · intro same
    obtain ⟨_, mode, standing⟩ := Workspace.readBytes_eq_ok_iff.mp (readBytes_of_toOption styled)
    have before : stylingProject.workspace.get? smallLayout.stylesheet.place =
        some (.file (Text.encode "y".toList) 420) := rfl
    rw [same, before] at standing
    exact absurd (Entry.file.inj (Option.some.inj standing)).1 (by decide)

end Migration

end Restyle
