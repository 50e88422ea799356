import Restyle.Proofs.Activity.Atomicity
import Restyle.Proofs.Migration.Progress
import Restyle.Proofs.Migration.Stylesheet
import Restyle.Proofs.Migration.Upkeep

/-!
# Runs that fail

A run that fails before it writes out its edits has made backups at most.  With
the edits on disk it can still fail, mostly because the checkpoint cannot be
saved; then the checkpoint file is as it was, and every source file holds what
it held or what its steps made of it.
-/

namespace Restyle

namespace Activity

variable {session after : Session} {target : Path} {content : String}

theorem writeFile_failure {failure : Failure}
    (stopped : writeFile target content session = .error failure after) :
    (∃ cause, failure = .write cause) ∨ (∃ cause, failure = .reading cause) ∨
      failure = .value .nullInPath ∧ target.hasNull = true := by
  rcases writeFile_failure_exact stopped with written | ⟨null, rfl⟩ | ⟨_, rfl⟩
  · exact Or.inl written
  · exact Or.inr (Or.inr ⟨rfl, null⟩)
  · exact Or.inr (Or.inl ⟨_, rfl⟩)

end Activity

/-- The failures that a run can meet with its edits on disk. -/
def Failure.MayComeLate (layout : Layout) : Failure → Prop
  | .write _ => True
  | .reading _ => True
  | .value .beyondCalendar => True
  | .value .nullInPath => layout.stylesheet.hasNull = true ∨ layout.checkpoint.hasNull = true
  | _ => False

namespace Migration

variable {options : MigrationOptions} {layout : Layout} {index : IndexRebuild} {task : Task}
  {state opened next final : RunState} {session middle after last : Session} {step : Step}
  {steps : List Step} {backup ask : Bool} {failure : Failure} {path : Path}
  {buffers : List Buffer}

/-! ## Preparing -/

theorem isQuiet_pathOf (file : Json) : Activity.IsQuiet (pathOf file) :=
  Activity.IsQuiet.of_maintains fun _ => maintains_pathOf file

theorem isQuiet_prepare (options : MigrationOptions) (layout : Layout) :
    Activity.IsQuiet (prepare options layout) :=
  Activity.IsQuiet.of_maintains fun base =>
    maintains_prepare (Activity.ignoresLog_quiet base) options layout

/-! ## Executing -/

theorem isQuiet_confirm (step : Step) : Activity.IsQuiet (confirm step) := by
  unfold confirm
  exact (Activity.isQuiet_value _).bind fun panel => (Activity.isQuiet_display panel).bind fun _ =>
    Activity.isQuiet_nextAnswer.bind fun _ => Activity.isQuiet_pure _

theorem isQuiet_openBuffer (state : RunState) (step : Step) (path : Path) :
    Activity.IsQuiet (openBuffer state step path) :=
  Activity.IsQuiet.of_maintains fun base =>
    maintains_openBuffer (Activity.ignoresLog_quiet base) state step path

theorem succeeds_backUp (state : RunState) (path : Path) :
    Activity.Succeeds (backUp state path) := by
  unfold backUp
  split
  · exact Activity.succeeds_pure _
  · refine (Activity.succeeds_copyFile _ _).bind fun outcome => ?_
    cases outcome with
    | ok done => exact Activity.succeeds_pure _
    | error error => exact (Activity.succeeds_log _ _ _).bind fun _ => Activity.succeeds_pure _

/-- A step that cannot be applied fails before anything is done about it. -/
theorem failsQuietly_applyStep (backup : Bool) (state : RunState) (step : Step) :
    Activity.FailsQuietly (applyStep backup state step) := by
  unfold applyStep
  refine .bind (isQuiet_pathOf _) fun path => .bind (isQuiet_openBuffer _ _ _) fun outcome => ?_
  cases outcome with
  | error reason => exact (Activity.isQuiet_pure _).failsQuietly
  | ok opened =>
      refine .bind (Activity.isQuiet_value _) fun edit => ?_
      cases edit with
      | none => exact (Activity.isQuiet_pure _).failsQuietly
      | some edit =>
          have last : ∀ kept : RunState, Activity.Succeeds (do
              Activity.log .debug .running
                ("Applied " ++ step.id.shown ++ " to " ++ step.file.shown)
              return afterEdit kept step path edit) :=
            fun kept => (Activity.succeeds_log _ _ _).bind fun _ => Activity.succeeds_pure _
          cases backup with
          | true => exact ((succeeds_backUp _ _).bind last).failsQuietly
          | false => exact (last _).failsQuietly

theorem failsQuietly_process (backup : Bool) (state : RunState) (step : Step) :
    Activity.FailsQuietly (process backup state step) := by
  unfold process
  split
  · unfold skipBlocked
    exact ((Activity.succeeds_log _ _ _).bind fun _ => Activity.succeeds_pure _).failsQuietly
  · exact failsQuietly_applyStep backup state step

theorem failsQuietly_handle (backup ask : Bool) (state : RunState) (step : Step) :
    Activity.FailsQuietly (handle backup ask state step) := by
  intro session failure after stopped
  rcases handle_eq_error stopped with ⟨ready, quiet, unprocessed⟩ | ⟨_, unasked⟩
  · exact quiet.trans (failsQuietly_process backup state step _ _ _ unprocessed)
  · exact (isQuiet_confirm step session).2 _ _ unasked

theorem execute_stops (stopped : execute backup ask state steps session = .error failure after) :
    ∃ done cut next, steps = done ++ cut ∧ Executes backup state session done next after := by
  induction steps generalizing ask state session with
  | nil =>
      unfold execute at stopped
      cases stopped
  | cons step steps induction =>
      rcases execute_eq_error stopped with early | ⟨decision, next, middle, handled, goesOn, rest⟩
      · have quiet := failsQuietly_handle backup ask state step _ _ _ early
        exact ⟨[], step :: steps, state, rfl, .nil quiet⟩
      · obtain ⟨done, cut, final, rfl, executed⟩ := induction rest
        exact ⟨step :: done, cut, final, rfl, .cons (handled.processed goesOn) executed⟩

/-! ## After writing out -/

theorem appendDeclarations_error {stylesheet : Path}
    (stopped : appendDeclarations stylesheet state session = .error failure after) :
    session.SameSetting after ∧
      Workspace.Evolves (· = (Activity.temporaryFor session stylesheet).place)
        stylesheet.parent.Passes session.workspace after.workspace ∧
      ((∃ cause, failure = .write cause) ∨ (∃ cause, failure = .reading cause) ∨
        failure = .value .nullInPath ∧ stylesheet.hasNull = true) := by
  have written : ∀ {content message : String},
      (do
        Activity.writeFile stylesheet content
        Activity.log .info .running message) session = .error failure after →
      session.SameSetting after ∧
        Workspace.Evolves (· = (Activity.temporaryFor session stylesheet).place)
          stylesheet.parent.Passes session.workspace after.workspace ∧
        ((∃ cause, failure = .write cause) ∨ (∃ cause, failure = .reading cause) ∨
          failure = .value .nullInPath ∧ stylesheet.hasNull = true) := by
    intro content message stopped
    rcases Activity.bind_eq_error.mp stopped with unwritten | ⟨_, _, _, logged⟩
    · obtain ⟨setting, evolved⟩ := Activity.writeFile_error unwritten
      exact ⟨setting, evolved, Activity.writeFile_failure unwritten⟩
    · cases logged
  unfold appendDeclarations at stopped
  cases clean : stylesheet.hasNull with
  | true =>
      rw [Activity.bind_of_error (Activity.readText_of_null clean)] at stopped
      cases stopped
      exact ⟨.refl _, .refl _ _ _, Or.inr (Or.inr ⟨rfl, rfl⟩)⟩
  | false =>
      rw [Activity.bind_of_ok (Activity.readText_apply clean)] at stopped
      rw [clean] at written
      cases read : session.workspace.readText stylesheet with
      | ok text =>
          rw [read] at stopped
          exact written stopped
      | error missing =>
          rw [read] at stopped
          cases absent : missing.isMissing with
          | true =>
              simp only [absent, if_true] at stopped
              exact written stopped
          | false =>
              simp only [absent, Bool.false_eq_true, if_false] at stopped
              cases stopped
              exact ⟨.refl _, .refl _ _ _, Or.inl ⟨_, rfl⟩⟩

theorem updateStylesheet_error {written : List Path}
    (stopped : updateStylesheet layout.stylesheet state written session = .error failure after) :
    session.SameSetting after ∧
      Workspace.Evolves (· = (Activity.temporaryFor session layout.stylesheet).place)
        layout.stylesheet.parent.Passes session.workspace after.workspace ∧
      failure.MayComeLate layout := by
  unfold updateStylesheet at stopped
  split at stopped
  · cases stopped
  · rcases Activity.bind_eq_error.mp stopped with never | ⟨outcome, tried, attempted, rest⟩
    · unfold Activity.attempt at never
      split at never <;> cases never
    · obtain ⟨_, rfl, _⟩ | ⟨other, rfl, stop⟩ := Activity.attempt_eq_ok.mp attempted
      · cases rest
      · obtain ⟨setting, evolved, kinds⟩ := appendDeclarations_error stop
        cases other with
        | write cause =>
            rcases Activity.bind_eq_error.mp rest with early | ⟨_, _, _, rest⟩
            · cases early
            · cases rest
        | reading cause =>
            cases rest
            exact ⟨setting, evolved, trivial⟩
        | value fault =>
            cases rest
            obtain ⟨_, ⟨⟩⟩ | ⟨_, ⟨⟩⟩ | ⟨⟨⟩, null⟩ := kinds
            exact ⟨setting, evolved, Or.inl null⟩
        | _ => simp at kinds

/-- A stylesheet as it was, or with declarations at its end. -/
def MayRestyle (stylesheet : Path) (before after : Workspace) : Prop :=
  before.Keeps after stylesheet.place ∨
    ∃ tokens utilities, after.readBytes stylesheet =
      .ok (Text.encode (restyled (textAt before stylesheet) tokens utilities).toList)

theorem MayRestyle.of_evolves {stylesheet : Path} {before middle after : Workspace}
    {touched made : Place → Prop} (first : MayRestyle stylesheet before middle)
    (evolved : Workspace.Evolves touched made middle after)
    (untouched : ¬ touched stylesheet.place) : MayRestyle stylesheet before after := by
  rcases first with kept | ⟨tokens, utilities, stored⟩
  · exact Or.inl (kept.trans (evolved.keepsOther _ untouched))
  · exact Or.inr ⟨tokens, utilities, evolved.readBytes untouched stored⟩

theorem updateStylesheet_mayRestyle {written files : List Path} {warnings : List String}
    (plain : session.HasPlainTag) (unnamed : session.temporaryName ∉ layout.stylesheet.place)
    (success : updateStylesheet layout.stylesheet state written session =
      .ok (files, warnings) after) :
    MayRestyle layout.stylesheet session.workspace after.workspace := by
  cases updateStylesheet_updates success with
  | nothing => exact Or.inl (Or.inl rfl)
  | appended _ success =>
      obtain ⟨wrote, writing, quiet⟩ := appendDeclarations_eq_ok success
      rw [quiet.workspace]
      exact Or.inr ⟨_, _, (Activity.writeFile_ok writing).2.2⟩
  | warned _ stop quiet =>
      rw [quiet.workspace]
      refine Or.inl ((appendDeclarations_error stop).2.1.keepsOther _ fun same => unnamed ?_)
      rw [same, Session.temporaryFor_place plain]
      simp

theorem conclude_error {written : List Path} {warnings : List String}
    (stopped : conclude layout task state written warnings session = .error failure after) :
    session.SameSetting after ∧
      Workspace.Evolves (· = (Activity.temporaryFor session layout.checkpoint).place)
        layout.checkpoint.parent.Passes session.workspace after.workspace ∧
      failure.MayComeLate layout := by
  unfold conclude at stopped
  rcases Activity.bind_eq_error.mp stopped with undated | ⟨stamp, stamped, dated, rest⟩
  · unfold Activity.timestampNow at undated
    rw [Activity.get_bind] at undated
    cases known : hasDate session.now with
    | true =>
        simp only [known, if_true] at undated
        cases undated
    | false =>
        simp only [known, Bool.false_eq_true, if_false] at undated
        cases undated
        exact ⟨.refl _, .refl _ _ _, trivial⟩
  · have same : session = stamped := by
      unfold Activity.timestampNow at dated
      rw [Activity.get_bind] at dated
      cases known : hasDate session.now with
      | true =>
          simp only [known, if_true, Activity.pure_eq_ok] at dated
          exact dated.2
      | false => simp [known] at dated
    subst same
    rcases Activity.bind_eq_error.mp rest with unsaved | ⟨_, _, _, rest⟩
    · unfold Checkpoint.save at unsaved
      rcases Activity.bind_eq_error.mp unsaved with unwritten | ⟨_, _, _, logged⟩
      · obtain ⟨setting, evolved⟩ := Activity.writeFile_error unwritten
        refine ⟨setting, evolved, ?_⟩
        obtain ⟨_, rfl⟩ | ⟨_, rfl⟩ | ⟨rfl, null⟩ := Activity.writeFile_failure unwritten
        · trivial
        · trivial
        · exact Or.inr null
      · cases logged
    · cases rest

/-- What a run has gone through that fails with its edits on disk. -/
inductive Halts (options : MigrationOptions) (layout : Layout) (task : Task) :
    Session → Failure → Session → Prop where
  | intro {done cut : List Step} {executed state : RunState} {written : List Path}
      {refused : List (Path × String)} {failure : Failure}
      {session middle committed after : Session} (split : task.steps = done ++ cut)
      (execution : Executes options.backup (startState task.checkpoint) session done executed
        middle)
      (commitment : Commits executed middle executed.buffers state committed written refused)
      (ending : Workspace.Evolves
        (fun place => IsWritePlace committed layout.stylesheet place ∨
          place = (Activity.temporaryFor committed layout.checkpoint).place)
        (fun place => layout.stylesheet.parent.Passes place ∨
          layout.checkpoint.parent.Passes place)
        committed.workspace after.workspace)
      (styling : committed.temporaryName ∉ layout.stylesheet.place →
        MayRestyle layout.stylesheet committed.workspace after.workspace)
      (late : failure.MayComeLate layout) : Halts options layout task session failure after

/-- A run that fails once its steps are executed has written out their edits. -/
theorem finish_stops {done cut : List Step} {executed : RunState}
    (fresh : FreshTag session task.steps) (split : task.steps = done ++ cut)
    (execution : Executes options.backup (startState task.checkpoint) session done executed middle)
    (stopped : finish layout index task executed middle = .error failure after) :
    Halts options layout task session failure after := by
  have within : ∀ step ∈ done, step ∈ task.steps := by
    intro step member
    rw [split]
    exact List.mem_append_left _ member
  have keyed := execution.haveKeys (by simp [HaveKeys, startState_results])
  rw [← execution.sameSetting.project] at keyed
  obtain ⟨⟨state, sources⟩, committed, committing⟩ := commit_succeeds []
    (execution.sameSetting.hasPlainTag fresh.plain)
    (execution.writable fresh within (startState_buffers _)) keyed
  obtain ⟨written, refused, _, commitment⟩ := commit_commits committing
  have plain := (execution.sameSetting.trans commitment.sameSetting).hasPlainTag fresh.plain
  have beside : committed.temporaryName ∉ layout.stylesheet.place → ∀ target : Path,
      layout.stylesheet.place ≠ (Activity.temporaryFor committed target).place := by
    intro unnamed target same
    apply unnamed
    rw [same, Session.temporaryFor_place plain]
    simp
  unfold finish at stopped
  rw [Activity.bind_of_ok committing] at stopped
  dsimp only at stopped
  rcases Activity.bind_eq_error.mp stopped with unstyled | ⟨⟨files, warnings⟩, styled, updating, rest⟩
  · obtain ⟨_, styling, late⟩ := updateStylesheet_error unstyled
    refine .intro split execution commitment
      (styling.mono (fun _ temporary => Or.inl (Or.inl temporary)) fun _ => Or.inl) ?_ late
    exact fun unnamed => Or.inl (styling.keepsOther _ (beside unnamed _))
  · obtain ⟨setting, styling⟩ := updateStylesheet_evolves updating
    obtain ⟨ready, quiet, unfinished⟩ : ∃ ready, styled.Quiet ready ∧
        conclude layout task state files warnings ready = .error failure after := by
      cases changed : !files.isEmpty with
      | true =>
          simp only [changed, if_true] at rest
          rcases Activity.bind_eq_error.mp rest with never | ⟨_, ready, rebuilt, rest⟩
          · cases index <;> cases never
          · exact ⟨ready, rebuildIndex_quiet rebuilt, rest⟩
      | false =>
          simp only [changed, Bool.false_eq_true, if_false] at rest
          exact ⟨styled, .refl _, rest⟩
    obtain ⟨_, saving, late⟩ := conclude_error unfinished
    rw [quiet.workspace, (setting.trans quiet.toSameSetting).temporaryFor] at saving
    refine .intro split execution commitment ?_ ?_ late
    · exact (styling.mono (fun _ => Or.inl) fun _ => Or.inl).trans
        (saving.mono (fun _ => Or.inr) fun _ => Or.inr)
    · exact fun unnamed => (updateStylesheet_mayRestyle plain unnamed updating).of_evolves saving
        (beside unnamed _)

theorem executeAll_stops
    (stopped : executeAll options state steps session = .error failure after) :
    ∃ done cut next, steps = done ++ cut ∧
      Executes options.backup state session done next after := by
  obtain ⟨inner, body, closed⟩ := executeAll_eq_error stopped
  obtain ⟨done, cut, next, split, executes⟩ := execute_stops body
  exact ⟨done, cut, next, split,
    (executes.of_quiet (conversing_quiet options session)).then_quiet closed⟩

/-- The steps of a failed run were executed in part, or in full and then written
out. -/
theorem applySteps_stops (fresh : FreshTag session task.steps)
    (stopped : applySteps options layout index task.planPath task.digest task.checkpoint task.steps
      session = .error failure after) :
    (∃ done cut next, task.steps = done ++ cut ∧
        Executes options.backup (startState task.checkpoint) session done next after) ∨
      Halts options layout task session failure after := by
  rw [applySteps_eq] at stopped
  rcases Activity.bind_eq_error.mp stopped with early | ⟨executed, middle, executing, rest⟩
  · exact Or.inl (executeAll_stops early)
  · obtain ⟨done, cut, split, execution, _⟩ := executeAll_executes executing
    exact Or.inr (finish_stops fresh split execution rest)

theorem FreshTag.of_subset {some : List Step} (fresh : FreshTag session steps)
    (within : ∀ step ∈ some, step ∈ steps) : FreshTag session some where
  plain := fresh.plain
  unused := fresh.unused
  unnamed := fun step member => fresh.unnamed step (within step member)

theorem OutOfReach.of_subset {some : List Step} {place : Place}
    (away : OutOfReach session steps place) (within : ∀ step ∈ some, step ∈ steps) :
    OutOfReach session some place where
  notFile := fun step member => away.notFile step (within step member)
  notBackup := fun ⟨step, member, backup⟩ => away.notBackup ⟨step, within step member, backup⟩
  notTemporary := away.notTemporary

theorem IsSource.of_subset {some : List Step} (source : IsSource session layout steps path)
    (within : ∀ step ∈ some, step ∈ steps) : IsSource session layout some path where
  unaliased := fun step member => source.unaliased step (within step member)
  notStylesheet := source.notStylesheet
  notCheckpoint := source.notCheckpoint
  notBackup := fun ⟨step, member, backup⟩ => source.notBackup ⟨step, within step member, backup⟩

theorem Halts.spares {place : Place} (halts : Halts options layout task session failure after)
    (fresh : FreshTag session task.steps) (away : OutOfReach session task.steps place)
    (apart : place ≠ layout.stylesheet.place) : session.workspace.Keeps after.workspace place := by
  cases halts with
  | @intro done cut executed state written refused _ _ middle committed _ split execution commitment
      ending _ _ =>
      have within : ∀ step ∈ done, step ∈ task.steps := by
        intro step member
        rw [split]
        exact List.mem_append_left _ member
      have setting := execution.sameSetting.trans commitment.sameSetting
      have spared := commitment.spares fresh within (startState_buffers _) execution
      refine Workspace.Keeps.trans (spared.keepsOther _ fun reached => reached away)
        (ending.keepsOther _ ?_)
      rintro ((temporary | target) | temporary)
      · rw [setting.temporaryFor] at temporary
        exact away.temporary_ne fresh.plain _ temporary
      · exact apart target
      · rw [setting.temporaryFor] at temporary
        exact away.temporary_ne fresh.plain _ temporary

/-- A late failure leaves a stylesheet that steps do not reach as it was, or
with declarations at its end. -/
theorem Halts.mayRestyle (halts : Halts options layout task session failure after)
    (fresh : FreshTag session task.steps)
    (away : OutOfReach session task.steps layout.stylesheet.place) :
    MayRestyle layout.stylesheet session.workspace after.workspace := by
  cases halts with
  | @intro done cut executed state written refused _ _ middle committed _ split execution commitment
      _ styling _ =>
      have within : ∀ step ∈ done, step ∈ task.steps := by
        intro step member
        rw [split]
        exact List.mem_append_left _ member
      have setting := execution.sameSetting.trans commitment.sameSetting
      have spared := commitment.spares fresh within (startState_buffers _) execution
      have unreached : ¬ ¬ OutOfReach session task.steps layout.stylesheet.place :=
        fun reached => reached away
      rcases styling (by rw [setting.temporaryName]; exact away.notTemporary) with
        kept | ⟨tokens, utilities, stored⟩
      · exact Or.inl (Workspace.Keeps.trans (spared.keepsOther _ unreached) kept)
      · rw [textAt_of_evolves spared unreached] at stored
        exact Or.inr ⟨tokens, utilities, stored⟩

theorem attemptedOn_sublist (project path : Path) {outcomes : List StepResult}
    (subjects : outcomes.map StepResult.subject = steps.map Step.subject) :
    ((attemptedOn project path (steps.zip outcomes)).map Prod.fst).Sublist steps ∧
      ∀ step ∈ (attemptedOn project path (steps.zip outcomes)).map Prod.fst,
        fileKey? project step.file = some path := by
  constructor
  · have aligned : steps.length ≤ outcomes.length := by
      simpa using (congrArg List.length subjects).ge
    have whole : (steps.zip outcomes).map Prod.fst = steps := List.map_fst_zip aligned
    have some := (List.filter_sublist (l := steps.zip outcomes)
      (p := fun pair => pair.2.status ≠ .skipped ∧ fileKey? project pair.1.file = some path)).map
        Prod.fst
    rwa [whole] at some
  · intro step member
    obtain ⟨pair, attempted, rfl⟩ := List.mem_map.mp member
    have holds := (List.mem_filter.mp attempted).2
    simp only [decide_eq_true_eq] at holds
    exact holds.2

/-- A late failure leaves a source file as it was, or with the edits of its
steps. -/
theorem Halts.finishes {initial : List Char} (halts : Halts options layout task session failure after)
    (fresh : FreshTag session task.steps) (source : IsSource session layout task.steps path)
    (readable : session.workspace.readText path = .ok (String.ofList initial)) :
    after.workspace.readBytes path = session.workspace.readBytes path ∨
      ∃ taken : List Step, taken.Sublist task.steps ∧
        (∀ step ∈ taken, fileKey? session.project step.file = some path) ∧
          after.workspace.readBytes path = .ok (Text.encode (editInOrder initial taken)) := by
  cases halts with
  | @intro done cut executed state written refused _ _ middle committed _ split execution commitment
      ending _ _ =>
      obtain ⟨bytes, _, read, _, _⟩ := Workspace.readText_eq_ok_iff.mp readable
      obtain ⟨_, mode, standing⟩ := Workspace.readBytes_eq_ok_iff.mp read
      have within : ∀ step ∈ done, step ∈ task.steps := by
        intro step member
        rw [split]
        exact List.mem_append_left _ member
      have tracked : Tracks path initial (startState task.checkpoint) session.workspace initial :=
        ⟨readable, Or.inl ⟨by simp [RunState.buffer?, startState_buffers], rfl⟩⟩
      obtain ⟨outcomes, _, subjects, _, trackedEnd⟩ := execution.tracks
        (fun step member key known same =>
          source.notBackup ⟨step, within step member, key, known, same.symm⟩) tracked
      have setting := execution.sameSetting.trans commitment.sameSetting
      have kept : ∀ bytes, committed.workspace.readBytes path = .ok bytes →
          after.workspace.readBytes path = .ok bytes := by
        intro bytes stands
        refine ending.readBytes ?_ stands
        rintro ((temporary | target) | temporary)
        · rw [setting.temporaryFor] at temporary
          exact fresh.temporary_ne standing _ temporary.symm
        · exact source.notStylesheet target
        · rw [setting.temporaryFor] at temporary
          exact fresh.temporary_ne standing _ temporary.symm
      have finished := (commitment.finishes fresh source read within (startState_buffers _)
        execution trackedEnd).of_kept read kept
      obtain ⟨sublist, onFile⟩ := attemptedOn_sublist session.project path subjects
      by_cases same : editInOrder initial
          ((attemptedOn session.project path (done.zip outcomes)).map Prod.fst) = initial
      · exact Or.inl (finished.unchanged same).2
      · by_cases accepted : session.Accepts path
        · refine Or.inr ⟨_, ?_, onFile, (finished.stored same accepted).2⟩
          rw [split]
          exact sublist.trans (List.sublist_append_left _ _)
        · exact Or.inl (finished.refused same accepted).2

/-- The steps of the plan of a run, none if no plan can be loaded. -/
def plannedSteps (options : MigrationOptions) (layout : Layout) (session : Session) : List Step :=
  match Plan.load (planPathOf options layout session.project) session with
  | .ok plan _ => plan.steps
  | .error _ _ => []

theorem Prepared.plannedSteps_eq (prepared : Prepared options layout session task) :
    plannedSteps options layout session = task.plan.steps := by
  obtain ⟨_, loading, _⟩ := Plan.load_of_storedAt prepared.plan
  rw [prepared.planPath] at loading
  rw [plannedSteps, loading]

theorem Prepared.planned (prepared : Prepared options layout session task) :
    ∀ step ∈ task.steps, step ∈ plannedSteps options layout session := by
  intro step member
  rw [prepared.plannedSteps_eq]
  exact (prepared.steps.steps.1 step member).1

/-- A run that fails has made backups at most, or has written out what its steps
edited. -/
theorem run_stops (stopped : run options layout index session = .error failure after)
    (fresh : FreshTag session (plannedSteps options layout session)) :
    Workspace.Evolves (IsBackupPlace session.project (plannedSteps options layout session))
        (fun _ => False) session.workspace after.workspace ∨
      ∃ task started, prepare options layout session = .ok task started ∧ session.Quiet started ∧
        (∀ step ∈ task.steps, step ∈ plannedSteps options layout session) ∧
          Halts options layout task started failure after := by
  rw [run_eq] at stopped
  rcases Activity.bind_eq_error.mp stopped with unprepared | ⟨task, started, prepared, unperformed⟩
  · rw [((isQuiet_prepare options layout session).2 _ _ unprepared).workspace]
    exact Or.inl (.refl _ _ _)
  · obtain ⟨known, quiet⟩ := prepare_eq_ok prepared
    unfold perform at unperformed
    split at unperformed
    · cases unperformed
    · split at unperformed
      · rcases applySteps_stops ((fresh.of_subset known.planned).of_quiet quiet) unperformed with
          ⟨done, cut, next, split, executed⟩ | halts
        · refine Or.inl ?_
          rw [← quiet.workspace, ← quiet.project]
          refine (executed.evolves fun _ => False).touching ?_
          rintro place ⟨step, member, backup⟩
          exact ⟨step, known.planned step (split ▸ List.mem_append_left _ member), backup⟩
        · exact Or.inr ⟨task, started, prepared, quiet, known.planned, halts⟩
      · rw [((Activity.isQuiet_value _ _).2 _ _ unperformed).workspace, quiet.workspace]
        exact Or.inl (.refl _ _ _)

/-- A run that fails leaves alone what its steps do not reach, the stylesheet
apart. -/
theorem run_error_keeps {place : Place}
    (stopped : run options layout index session = .error failure after)
    (fresh : FreshTag session (plannedSteps options layout session))
    (away : OutOfReach session (plannedSteps options layout session) place)
    (apart : place ≠ layout.stylesheet.place) : session.workspace.Keeps after.workspace place := by
  rcases run_stops stopped fresh with unharmed | ⟨task, started, _, quiet, within, halts⟩
  · exact unharmed.keepsOther _ away.notBackup
  · rw [← quiet.workspace]
    exact halts.spares ((fresh.of_subset within).of_quiet quiet)
      ((away.of_subset within).of_quiet quiet) apart

/-- A run that fails before it has written anything out leaves everything but
backups as it was.  The failures that can come later are those of saving the
checkpoint, for the most part.  Then what no step reaches is as it was, the
checkpoint included; the stylesheet and each source file are as they were, or as
the run has made them. -/
theorem failed_run_keeps_project
    (stopped : run options layout index session = .error failure after)
    (fresh : FreshTag session (plannedSteps options layout session)) :
    let steps := plannedSteps options layout session
    (¬ failure.MayComeLate layout → ∀ place, ¬ IsBackupPlace session.project steps place →
        after.workspace.get? place = session.workspace.get? place) ∧
      (∀ place, OutOfReach session steps place → place ≠ layout.stylesheet.place →
        session.workspace.Keeps after.workspace place) ∧
      (OutOfReach session steps layout.stylesheet.place →
        MayRestyle layout.stylesheet session.workspace after.workspace) ∧
      ∀ path initial, IsSource session layout steps path →
        session.workspace.readText path = .ok initial →
          after.workspace.readBytes path = session.workspace.readBytes path ∨
            ∃ task started taken, prepare options layout session = .ok task started ∧
              taken.Sublist task.steps ∧
                (∀ step ∈ taken, fileKey? session.project step.file = some path) ∧
                  after.workspace.readBytes path =
                    .ok (Text.encode (editInOrder initial.toList taken)) := by
  dsimp only
  rcases run_stops stopped fresh with unharmed | ⟨task, started, prepared, quiet, within, halts⟩
  · refine ⟨fun _ place outside => unharmed.get?_eq outside,
      fun _ => run_error_keeps stopped fresh, fun away =>
      Or.inl (unharmed.keepsOther _ away.notBackup), fun path initial source readable => ?_⟩
    obtain ⟨bytes, _, read, _, _⟩ := Workspace.readText_eq_ok_iff.mp readable
    exact Or.inl ((unharmed.readBytes source.notBackup read).trans read.symm)
  · have freshThen := (fresh.of_subset within).of_quiet quiet
    have late : failure.MayComeLate layout := by
      cases halts with
      | intro _ _ _ _ _ late => exact late
    refine ⟨fun early => absurd late early, fun _ => run_error_keeps stopped fresh,
      fun away => ?_, fun path initial source readable => ?_⟩
    · rw [← quiet.workspace]
      exact halts.mayRestyle freshThen ((away.of_subset within).of_quiet quiet)
    · rw [← String.ofList_toList (s := initial), ← quiet.workspace] at readable
      rw [← quiet.workspace]
      rcases halts.finishes freshThen ((source.of_subset within).of_quiet quiet) readable with
        kept | ⟨taken, sublist, onFile, stored⟩
      · exact Or.inl kept
      · exact Or.inr ⟨task, started, taken, prepared, sublist, quiet.project ▸ onFile, stored⟩

/-- The bytes of a file after a run that could not write something. -/
def leftUnwritten (path : Path) : EStateM.Result Failure Session RunReport → Option (List UInt8)
  | .error (.write _) after => (after.workspace.readBytes path).toOption
  | _ => none

theorem leftUnwritten_eq_some {outcome : EStateM.Result Failure Session RunReport}
    {bytes : List UInt8} (left : leftUnwritten path outcome = some bytes) :
    ∃ cause after, outcome = .error (.write cause) after ∧
      after.workspace.readBytes path = .ok bytes := by
  unfold leftUnwritten at left
  split at left
  · rename_i cause after
    refine ⟨cause, after, rfl, ?_⟩
    cases read : after.workspace.readBytes path with
    | error failure =>
        rw [read] at left
        cases left
    | ok found =>
        rw [read] at left
        exact congrArg Except.ok (Option.some.inj left)
  · cases left

theorem unsavable_observed :
    (plannedSteps { apply := true } smallLayout (tokenProject smallLayout.checkpoint)).map
        Step.file = [.text "f"] ∧
      leftUnwritten tokenFile (run { apply := true } smallLayout .absent
        (tokenProject smallLayout.checkpoint)) = some (Text.encode "bg-(--t) y".toList) := by
  rw [plannedSteps, Plan.load_eq, run_loads]
  decide +kernel

theorem failed_run_keeps_project_unsavable :
    ∃ failure after taken, run { apply := true } smallLayout .absent
        (tokenProject smallLayout.checkpoint) = .error failure after ∧
      (tokenProject smallLayout.checkpoint).workspace.Keeps after.workspace
        smallLayout.checkpoint.place ∧
      after.workspace.readBytes tokenFile =
        .ok (Text.encode (editInOrder "x y".toList taken)) := by
  obtain ⟨planned, left⟩ := unsavable_observed
  have files := files_of_map planned
  obtain ⟨cause, after, stopped, bytes⟩ := leftUnwritten_eq_some left
  obtain ⟨fresh, keys⟩ := tokenProject_fresh smallLayout.checkpoint files
  obtain ⟨_, spares, _, finishes⟩ := failed_run_keeps_project stopped fresh
  have source : IsSource (tokenProject smallLayout.checkpoint) smallLayout
      (plannedSteps { apply := true } smallLayout (tokenProject smallLayout.checkpoint))
      tokenFile := by
    refine ⟨fun step member name known _ => keys step member name known, by decide, by decide, ?_⟩
    rintro ⟨step, member, name, known, same⟩
    rw [keys step member name known] at same
    revert same
    decide
  have read : (tokenProject smallLayout.checkpoint).workspace.readBytes tokenFile =
      .ok (Text.encode "x y".toList) := rfl
  have readable : (tokenProject smallLayout.checkpoint).workspace.readText tokenFile =
      .ok "x y" := Workspace.readText_eq_ok_iff.mpr ⟨_, "x y".toList, read, rfl, rfl⟩
  rcases finishes tokenFile "x y" source readable with kept | ⟨_, _, taken, _, _, _, stored⟩
  · rw [bytes, read] at kept
    exact absurd (Except.ok.inj kept) (by decide)
  · exact ⟨_, after, taken, stopped,
      spares _ (tokenProject_outOfReach files (by decide)) (by decide), stored⟩

/-- A run whose checkpoint cannot be saved has changed a source file all the
same. -/
theorem unsaved_run_leaves_edits :
    ∃ cause after, run { apply := true } smallLayout .absent
        (tokenProject smallLayout.checkpoint) = .error (.write cause) after ∧
      (tokenProject smallLayout.checkpoint).workspace.readBytes tokenFile =
        .ok (Text.encode "x y".toList) ∧
      after.workspace.readBytes tokenFile = .ok (Text.encode "bg-(--t) y".toList) := by
  obtain ⟨cause, after, stopped, bytes⟩ := leftUnwritten_eq_some unsavable_observed.2
  exact ⟨cause, after, stopped, rfl, bytes⟩

end Migration

end Restyle
