import Restyle.Proofs.Migration.Commit
import Restyle.Proofs.Migration.Handling
import Restyle.Proofs.Migration.Loading

/-!
# The course of a run

A run prepares a task and performs it.  `Applies` says what a performance that
changes files goes through: the execution of the steps, the writing out, the
stylesheet and the checkpoint.
-/

namespace Restyle

namespace Migration

/-- The part of a run that does what there is to do. -/
def perform (options : MigrationOptions) (layout : Layout) (index : IndexRebuild) (task : Task) :
    Activity RunReport :=
  if task.steps.isEmpty then return emptyReport task.planPath task.checkpoint.isSome
  else if options.apply then
    applySteps options layout index task.planPath task.digest task.checkpoint task.steps
  else Activity.value (preview task.planPath task.steps)

theorem run_eq (options : MigrationOptions) (layout : Layout) (index : IndexRebuild) :
    run options layout index = prepare options layout >>= perform options layout index := by
  unfold run prepare
  cases resumed : options.resume with
  | true =>
      simp only [if_true, bind_assoc, pure_bind]
      rfl
  | false =>
      simp only [Bool.false_eq_true, if_false, bind_assoc, pure_bind]
      rfl

theorem run_loads (options : MigrationOptions) (layout : Layout) (index : IndexRebuild) :
    run options layout index =
      prepareWith Plan.loadCharacters options layout >>= perform options layout index := by
  rw [run_eq, prepare_loads]

variable {options : MigrationOptions} {layout : Layout} {index : IndexRebuild} {task : Task}
  {steps : List Step} {report : RunReport} {session started after : Session}

theorem run_of_prepared (prepared : prepare options layout session = .ok task started) :
    run options layout index session = perform options layout index task started := by
  rw [run_eq, Activity.bind_of_ok prepared]

theorem Executes.of_quiet {backup : Bool} {state final : RunState} {ready last : Session}
    (quiet : session.Quiet ready) (executed : Executes backup state ready steps final last) :
    Executes backup state session steps final last := by
  cases executed with
  | nil rest => exact .nil (quiet.trans rest)
  | cons first later => exact .cons (first.of_quiet quiet) later

theorem Executes.then_quiet {backup : Bool} {state final : RunState} {last ended : Session}
    (executed : Executes backup state session steps final last) (quiet : last.Quiet ended) :
    Executes backup state session steps final ended := by
  induction executed with
  | nil rest => exact .nil (rest.trans quiet)
  | cons first _ induction => exact .cons first (induction quiet)

/-- The steps of a run, executed with questions or without. -/
def executeAll (options : MigrationOptions) (start : RunState) (steps : List Step) :
    Activity RunState :=
  if options.interactive then Activity.inConversation (execute options.backup true start steps)
  else execute options.backup false start steps

/-- The session in which the steps of a run are executed: a run that asks opens a
conversation first. -/
def conversing (options : MigrationOptions) (session : Session) : Session :=
  if options.interactive then
    { session with conversations := session.conversations ++ [false] }
  else session

theorem conversing_quiet (options : MigrationOptions) (session : Session) :
    session.Quiet (conversing options session) := by
  unfold conversing
  split
  · exact ⟨⟨rfl, rfl, rfl, rfl⟩, rfl⟩
  · exact .refl _

theorem conversing_answers (options : MigrationOptions) (session : Session) :
    (conversing options session).answers = session.answers := by
  unfold conversing
  split <;> rfl

theorem executeAll_eq_ok {start final : RunState} {last : Session}
    (executed : executeAll options start steps session = .ok final last) :
    ∃ inner, execute options.backup options.interactive start steps
        (conversing options session) = .ok final inner ∧
      inner.Quiet last ∧ last.answers = inner.answers := by
  unfold executeAll at executed
  unfold conversing
  cases asking : options.interactive with
  | false =>
      rw [asking] at executed
      exact ⟨last, executed, .refl _, rfl⟩
  | true =>
      rw [asking] at executed
      obtain ⟨inner, body, rfl⟩ := Activity.inConversation_eq_ok executed
      exact ⟨inner, body, ⟨⟨rfl, rfl, rfl, rfl⟩, rfl⟩, rfl⟩

theorem executeAll_eq_error {start : RunState} {failure : Failure} {last : Session}
    (stopped : executeAll options start steps session = .error failure last) :
    ∃ inner, execute options.backup options.interactive start steps
        (conversing options session) = .error failure inner ∧ inner.Quiet last := by
  unfold executeAll at stopped
  unfold conversing
  cases asking : options.interactive with
  | false =>
      rw [asking] at stopped
      exact ⟨last, stopped, .refl _⟩
  | true =>
      rw [asking] at stopped
      exact Activity.inConversation_eq_error stopped

theorem executeAll_executes {start executed : RunState} {middle : Session}
    (success : executeAll options start steps session = .ok executed middle) :
    ∃ done cut, steps = done ++ cut ∧
      Executes options.backup start session done executed middle ∧
        (options.interactive = false → cut = []) := by
  obtain ⟨inner, body, closed, _⟩ := executeAll_eq_ok success
  obtain ⟨done, cut, split, executes, whole⟩ := execute_executes body
  exact ⟨done, cut, split,
    (executes.of_quiet (conversing_quiet options session)).then_quiet closed, whole⟩

def IsWritePlace (session : Session) (target : Path) (place : Place) : Prop :=
  place = (Activity.temporaryFor session target).place ∨ place = target.place

/-- Writing a file and noting it touches the places of the write, whether it
succeeds or not. -/
private theorem writing_outcome (session : Session) (target : Path) (content message : String) :
    (∀ result after,
        (do
          Activity.writeFile target content
          Activity.log .info .running message) session = .ok result after →
        session.SameSetting after ∧
          Workspace.Evolves (IsWritePlace session target) target.parent.Passes
            session.workspace after.workspace) ∧
      ∀ failure after,
        (do
          Activity.writeFile target content
          Activity.log .info .running message) session = .error failure after →
        session.SameSetting after ∧
          Workspace.Evolves (IsWritePlace session target) target.parent.Passes
            session.workspace after.workspace := by
  cases attempt : Activity.writeFile target content session with
  | ok done wrote =>
      obtain ⟨setting, evolved, _⟩ := Activity.writeFile_ok attempt
      rw [Activity.bind_of_ok attempt]
      constructor
      · intro _ _ success
        cases success
        exact ⟨⟨setting.project, setting.temporaryTag, setting.trouble, setting.now⟩, evolved⟩
      · intro _ _ stopped
        cases stopped
  | error failure stopped =>
      obtain ⟨setting, evolved⟩ := Activity.writeFile_error attempt
      rw [Activity.bind_of_error attempt]
      constructor
      · intro _ _ success
        cases success
      · intro _ _ same
        cases same
        exact ⟨setting, evolved.touching fun _ => Or.inl⟩

theorem appendDeclarations_outcome {stylesheet : Path} {state : RunState} :
    (∀ result after, appendDeclarations stylesheet state session = .ok result after →
        session.SameSetting after ∧
          Workspace.Evolves (IsWritePlace session stylesheet) stylesheet.parent.Passes
            session.workspace after.workspace) ∧
      ∀ failure after, appendDeclarations stylesheet state session = .error failure after →
        session.SameSetting after ∧
          Workspace.Evolves (IsWritePlace session stylesheet) stylesheet.parent.Passes
            session.workspace after.workspace := by
  have written : ∀ old : String, _ := fun old => writing_outcome session stylesheet
    (withUtilities (withTokens old state.tokenDeclarations) state.utilityBlocks)
    ("Appended " ++ toString state.tokenDeclarations.length ++ " token(s) and " ++
      toString state.utilityBlocks.length ++ " utility block(s) to " ++ stylesheet.toString)
  unfold appendDeclarations
  cases clean : stylesheet.hasNull with
  | true =>
      rw [Activity.bind_of_error (Activity.readText_of_null clean)]
      constructor
      · intro _ _ success
        cases success
      · intro _ _ stopped
        cases stopped
        exact ⟨.refl _, .refl _ _ _⟩
  | false =>
      rw [Activity.bind_of_ok (Activity.readText_apply clean)]
      cases read : session.workspace.readText stylesheet with
      | ok text => exact written text
      | error failure =>
          cases missing : failure.isMissing with
          | true =>
              simp only [missing, if_true]
              exact written ""
          | false =>
              simp only [missing, Bool.false_eq_true, if_false]
              constructor
              · intro _ _ success
                cases success
              · intro _ _ stopped
                cases stopped
                exact ⟨.refl _, .refl _ _ _⟩

/-- What becomes of the stylesheet at the end of a run: without declarations it
is left alone, else they are appended to it, or a warning tells that they could
not be written. -/
inductive Updates (stylesheet : Path) (state : RunState) (written : List Path) (session : Session) :
    List Path → List String → Session → Prop where
  | nothing (none : state.tokenDeclarations = [] ∧ state.utilityBlocks = []) :
      Updates stylesheet state written session written [] session
  | appended {after : Session}
      (some : ¬ (state.tokenDeclarations = [] ∧ state.utilityBlocks = []))
      (success : appendDeclarations stylesheet state session = .ok () after) :
      Updates stylesheet state written session
        (if written.contains stylesheet then written else written ++ [stylesheet]) [] after
  | warned {cause : WriteCause} {tried after : Session}
      (some : ¬ (state.tokenDeclarations = [] ∧ state.utilityBlocks = []))
      (stop : appendDeclarations stylesheet state session = .error (.write cause) tried)
      (quiet : tried.Quiet after) :
      Updates stylesheet state written session written
        ["Could not update " ++ stylesheet.toString ++ ": " ++ cause.message] after

theorem updateStylesheet_updates {stylesheet : Path} {state : RunState} {written files : List Path}
    {warnings : List String}
    (success : updateStylesheet stylesheet state written session = .ok (files, warnings) after) :
    Updates stylesheet state written session files warnings after := by
  unfold updateStylesheet at success
  by_cases none : state.tokenDeclarations = [] ∧ state.utilityBlocks = []
  · rw [if_pos (by simp [none])] at success
    obtain ⟨same, rfl⟩ := Activity.pure_eq_ok.mp success
    cases same
    exact .nothing none
  · rw [if_neg (by simpa [and_comm] using none)] at success
    obtain ⟨outcome, tried, attempted, rest⟩ := Activity.bind_eq_ok.mp success
    obtain ⟨_, rfl, appended⟩ | ⟨failure, rfl, stop⟩ := Activity.attempt_eq_ok.mp attempted
    · obtain ⟨same, rfl⟩ := Activity.pure_eq_ok.mp rest
      cases same
      exact .appended none appended
    · cases failure with
      | write cause =>
          obtain ⟨_, noted, logged, rest⟩ := Activity.bind_eq_ok.mp rest
          obtain ⟨same, rfl⟩ := Activity.pure_eq_ok.mp rest
          cases same
          exact .warned none stop (Activity.log_quiet logged)
      | _ => cases rest

theorem updateStylesheet_evolves {stylesheet : Path} {state : RunState} {written files : List Path}
    {warnings : List String}
    (success : updateStylesheet stylesheet state written session = .ok (files, warnings) after) :
    session.SameSetting after ∧
      Workspace.Evolves (IsWritePlace session stylesheet) stylesheet.parent.Passes
        session.workspace after.workspace := by
  cases updateStylesheet_updates success with
  | nothing => exact ⟨.refl _, .refl _ _ _⟩
  | appended _ success => exact appendDeclarations_outcome.1 _ _ success
  | warned _ stop quiet =>
      obtain ⟨setting, evolved⟩ := appendDeclarations_outcome.2 _ _ stop
      exact ⟨setting.trans quiet.toSameSetting, quiet.workspace ▸ evolved⟩

theorem rebuildIndex_quiet (success : rebuildIndex index session = .ok () after) :
    session.Quiet after := by
  cases index with
  | absent =>
      obtain ⟨_, rfl⟩ := Activity.pure_eq_ok.mp success
      exact .refl _
  | works =>
      cases success
      exact ⟨⟨rfl, rfl, rfl, rfl⟩, rfl⟩
  | fails reason =>
      cases success
      exact ⟨⟨rfl, rfl, rfl, rfl⟩, rfl⟩

theorem startState_buffers (checkpoint : Option Checkpoint) :
    (startState checkpoint).buffers = [] := by
  cases checkpoint <;> rfl

theorem startState_results (checkpoint : Option Checkpoint) :
    (startState checkpoint).results = [] := by
  cases checkpoint <;> rfl

/-- The checkpoint that a run saves. -/
def checkpointOf (task : Task) (state : RunState) (stamp : String) : Checkpoint where
  planPath := .text task.planPath.toString
  planDigest := .text task.digest
  completed := state.completed
  failed := state.failed
  skipped := state.skipped
  lastUpdated := .text stamp

/-- The end of a run: the checkpoint is saved, and the run reported. -/
def conclude (layout : Layout) (task : Task) (state : RunState) (written : List Path)
    (warnings : List String) : Activity RunReport := do
  let saved := checkpointOf task state (← Activity.timestampNow)
  saved.save layout.checkpoint
  let summary := RunSummary.ofResults state.results written.length
  return {
    applied := true
    planPath := task.planPath.toString
    results := state.results
    summary
    checkpointPath := some layout.checkpoint.toString
    checkpoint := some saved
    nextSteps := summary.advice
    warnings }

theorem conclude_eq_ok {state : RunState} {written : List Path} {warnings : List String}
    (success : conclude layout task state written warnings session = .ok report after) :
    ∃ stamp wrote, hasDate session.now = true ∧ stamp = timestamp session.now ∧
      Activity.writeFile layout.checkpoint (checkpointOf task state stamp).toJson.pretty session =
        .ok () wrote ∧
      wrote.Quiet after ∧ report.results = state.results ∧ report.applied = true ∧
        report.checkpoint = some (checkpointOf task state stamp) := by
  unfold conclude at success
  obtain ⟨stamp, _, stamped, rest⟩ := Activity.bind_eq_ok.mp success
  unfold Activity.timestampNow at stamped
  rw [Activity.get_bind] at stamped
  cases dated : hasDate session.now with
  | false => simp [dated] at stamped
  | true =>
      simp only [dated, if_true, Activity.pure_eq_ok] at stamped
      obtain ⟨rfl, rfl⟩ := stamped
      obtain ⟨_, _, saved, rest⟩ := Activity.bind_eq_ok.mp rest
      unfold Checkpoint.save at saved
      obtain ⟨_, wrote, writing, logged⟩ := Activity.bind_eq_ok.mp saved
      obtain ⟨rfl, rfl⟩ := Activity.pure_eq_ok.mp rest
      exact ⟨_, wrote, rfl, rfl, writing, Activity.log_quiet logged, rfl, rfl, rfl⟩

/-- After the edits are written out, a run touches the stylesheet and the
checkpoint only. -/
theorem ending_evolves {state : RunState} {written files : List Path} {warnings : List String}
    {committed styled ready : Session}
    (updating : updateStylesheet layout.stylesheet state written committed =
      .ok (files, warnings) styled)
    (quiet : styled.Quiet ready)
    (conclusion : conclude layout task state files warnings ready = .ok report after) :
    Workspace.Evolves
      (fun place => IsWritePlace committed layout.stylesheet place ∨
        IsWritePlace committed layout.checkpoint place)
      (fun place => layout.stylesheet.parent.Passes place ∨ layout.checkpoint.parent.Passes place)
      committed.workspace after.workspace := by
  obtain ⟨setting, styling⟩ := updateStylesheet_evolves updating
  obtain ⟨_, wrote, _, _, writing, ended, _⟩ := conclude_eq_ok conclusion
  obtain ⟨_, saving, _⟩ := Activity.writeFile_ok writing
  rw [(setting.trans quiet.toSameSetting).temporaryFor, quiet.workspace] at saving
  rw [ended.workspace]
  exact (styling.mono (fun _ => Or.inl) fun _ => Or.inl).trans
    (saving.mono (fun _ => Or.inr) fun _ => Or.inr)

/-- What a performance that changes files goes through. -/
inductive Applies (options : MigrationOptions) (layout : Layout) (task : Task) :
    Session → RunReport → Session → Prop where
  | intro {done cut : List Step} {executed state : RunState} {written files : List Path}
      {refused : List (Path × String)} {warnings : List String} {report : RunReport}
      {session middle committed styled ready after : Session}
      (split : task.steps = done ++ cut) (whole : options.interactive = false → cut = [])
      (execution : Executes options.backup (startState task.checkpoint) session done executed
        middle)
      (commitment : Commits executed middle executed.buffers state committed written refused)
      (updating : updateStylesheet layout.stylesheet state written committed =
        .ok (files, warnings) styled)
      (setting : committed.SameSetting styled)
      (styling : Workspace.Evolves (IsWritePlace committed layout.stylesheet)
        layout.stylesheet.parent.Passes committed.workspace styled.workspace)
      (quiet : styled.Quiet ready)
      (conclusion : conclude layout task state files warnings ready = .ok report after) :
      Applies options layout task session report after

/-- What a run does once its steps are executed. -/
def finish (layout : Layout) (index : IndexRebuild) (task : Task) (executed : RunState) :
    Activity RunReport := do
  let (state, sources) ← commit executed [] executed.buffers
  let (written, warnings) ← updateStylesheet layout.stylesheet state sources
  if !written.isEmpty then rebuildIndex index
  conclude layout task state written warnings

theorem applySteps_eq (options : MigrationOptions) (layout : Layout) (index : IndexRebuild)
    (task : Task) :
    applySteps options layout index task.planPath task.digest task.checkpoint task.steps =
      executeAll options (startState task.checkpoint) task.steps >>= finish layout index task := by
  unfold applySteps executeAll
  cases options.interactive <;> rfl

/-- What a run that ends well has done once its steps were executed. -/
theorem finish_parts {executed : RunState} {middle : Session}
    (success : finish layout index task executed middle = .ok report after) :
    ∃ state written committed files warnings styled ready,
      commit executed [] executed.buffers middle = .ok (state, written) committed ∧
        updateStylesheet layout.stylesheet state written committed =
          .ok (files, warnings) styled ∧
        styled.Quiet ready ∧
          conclude layout task state files warnings ready = .ok report after := by
  unfold finish at success
  obtain ⟨⟨state, sources⟩, committed, committing, rest⟩ := Activity.bind_eq_ok.mp success
  obtain ⟨⟨files, warnings⟩, styled, updating, rest⟩ := Activity.bind_eq_ok.mp rest
  obtain ⟨ready, quiet, conclusion⟩ : ∃ ready, styled.Quiet ready ∧
      conclude layout task state files warnings ready = .ok report after := by
    cases changed : !files.isEmpty with
    | true =>
        simp only [changed, if_true] at rest
        obtain ⟨_, ready, rebuilt, rest⟩ := Activity.bind_eq_ok.mp rest
        exact ⟨ready, rebuildIndex_quiet rebuilt, rest⟩
    | false =>
        simp only [changed, Bool.false_eq_true, if_false] at rest
        exact ⟨styled, .refl _, rest⟩
  exact ⟨state, sources, committed, files, warnings, styled, ready, committing, updating, quiet,
    conclusion⟩

/-- A run that ends well has written out its edits, brought the stylesheet up to
date and saved the checkpoint. -/
theorem finish_eq_ok {executed : RunState} {middle : Session}
    (success : finish layout index task executed middle = .ok report after) :
    ∃ state written refused committed files warnings styled ready,
      Commits executed middle executed.buffers state committed written refused ∧
        updateStylesheet layout.stylesheet state written committed =
          .ok (files, warnings) styled ∧
        styled.Quiet ready ∧
          conclude layout task state files warnings ready = .ok report after := by
  obtain ⟨state, sources, committed, files, warnings, styled, ready, committing, updating, quiet,
    conclusion⟩ := finish_parts success
  obtain ⟨written, refused, rfl, commitment⟩ := commit_commits committing
  exact ⟨state, sources, refused, committed, files, warnings, styled, ready, commitment, updating,
    quiet, conclusion⟩

theorem applySteps_applies
    (success : applySteps options layout index task.planPath task.digest task.checkpoint task.steps
      session = .ok report after) :
    Applies options layout task session report after := by
  rw [applySteps_eq] at success
  obtain ⟨executed, middle, executing, finished⟩ := Activity.bind_eq_ok.mp success
  obtain ⟨done, cut, split, execution, whole⟩ := executeAll_executes executing
  obtain ⟨state, written, refused, committed, files, warnings, styled, ready, commitment, updating,
    quiet, conclusion⟩ := finish_eq_ok finished
  obtain ⟨setting, styling⟩ := updateStylesheet_evolves updating
  exact .intro split whole execution commitment updating setting styling quiet conclusion

/-- A run that may change files and returns a report has nothing to do, or
performs its task. -/
theorem run_cases (applying : options.apply = true)
    (returned : run options layout index session = .ok report after) :
    ∃ task started, prepare options layout session = .ok task started ∧
      ((task.steps = [] ∧ report = emptyReport task.planPath task.checkpoint.isSome ∧
          started = after) ∨
        (task.steps ≠ [] ∧ Applies options layout task started report after)) := by
  rw [run_eq] at returned
  obtain ⟨task, started, prepared, performed⟩ := Activity.bind_eq_ok.mp returned
  refine ⟨task, started, prepared, ?_⟩
  unfold perform at performed
  cases scheduled : task.steps with
  | nil =>
      rw [scheduled, List.isEmpty_nil, if_pos rfl] at performed
      obtain ⟨rfl, rfl⟩ := Activity.pure_eq_ok.mp performed
      exact Or.inl ⟨rfl, rfl, rfl⟩
  | cons step steps =>
      rw [applying] at performed
      rw [if_neg (by simp [scheduled]), if_pos rfl] at performed
      exact Or.inr ⟨by simp, applySteps_applies performed⟩

/-- A run that may not change files and returns a report has nothing to do, or lists
its task. -/
theorem run_previews (calm : options.apply = false)
    (returned : run options layout index session = .ok report after) :
    ∃ task, prepare options layout session = .ok task after ∧
      ((task.steps = [] ∧ report = emptyReport task.planPath task.checkpoint.isSome) ∨
        preview task.planPath task.steps = .ok report) := by
  rw [run_eq] at returned
  obtain ⟨task, started, prepared, performed⟩ := Activity.bind_eq_ok.mp returned
  unfold perform at performed
  rw [calm] at performed
  split at performed
  · rename_i idle
    obtain ⟨rfl, rfl⟩ := Activity.pure_eq_ok.mp performed
    exact ⟨task, prepared, Or.inl ⟨List.isEmpty_iff.mp idle, rfl⟩⟩
  · obtain ⟨listed, rfl⟩ := Activity.value_eq_ok.mp performed
    exact ⟨task, prepared, Or.inr listed⟩

theorem preview_claims_nothing (calm : options.apply = false)
    (returned : run options layout index session = .ok report after) :
    report.applied = false ∧ report.checkpoint = none := by
  obtain ⟨_, _, ⟨_, rfl⟩ | listed⟩ := run_previews calm returned
  · exact ⟨rfl, rfl⟩
  · obtain ⟨_, _, made⟩ := bind_eq_ok_iff.mp listed
    cases made
    exact ⟨rfl, rfl⟩

/-- A project with a plan of one step, which removes the first of two classes
from a file. -/
def smallProject : Session where
  workspace :=
    ⟨[(["p"], .directory),
      (["p", "plan"], .file (Text.encode ("\x7b\"version\":1,\"steps\":[\x7b\"id\":\"a\"," ++
        "\"file\":\"f\",\"line\":1,\"ruleId\":\"r\",\"severity\":\"error\",\"action\":\x7b" ++
        "\"type\":\"remove\",\"className\":\"x\"\x7d,\"confidence\":1\x7d]\x7d").toList) 420),
      (["p", "f"], .file (Text.encode "x y".toList) 420)]⟩
  project := ⟨.root, ["p"]⟩
  now := 0
  temporaryTag := "0"

def smallLayout : Layout :=
  ⟨⟨.root, ["p", "plan"]⟩, ⟨.root, ["p", "check"]⟩, ⟨.root, ["p", "css"]⟩⟩

def smallPlan : Plan where
  strategy := .balanced
  steps := [{
    id := .text "a", file := .text "f", line := 1, column := 0, ruleId := .text "r"
    severity := .error, action := .remove (.text "x"), confidence := .ofInt 1
    preview := ⟨.text "", .text ""⟩ }]
  filters := {}
  summary := {}
  createdAt := .text ""
  version := planVersion

theorem small_stored : Plan.StoredAt smallProject.workspace smallLayout.plan smallPlan :=
  Plan.storedAt_of_loaded? (by decide +kernel)

/-- What a run of the small project prepares. -/
def smallTask : Task :=
  freshTask {} smallLayout smallProject.project smallPlan smallPlan.steps

theorem small_prepares (apply : Bool) :
    prepare { apply } smallLayout smallProject =
      .ok smallTask (smallPlan.noted smallLayout.plan smallProject) := by
  have scheduled : Selection.filter {} smallPlan.steps >>= Schedule.ofSteps =
      .ok ⟨smallPlan.steps, [], none⟩ := by decide +kernel
  exact prepare_fresh rfl nofun rfl small_stored (by decide +kernel) scheduled

/-- What is seen of the task, the report and the end of a run that returns. -/
def observe {α : Type} (options : MigrationOptions) (layout : Layout) (index : IndexRebuild)
    (session : Session) (look : Task → RunReport → Session → α) : Option α :=
  match prepare options layout session with
  | .error _ _ => none
  | .ok task started =>
      match perform options layout index task started with
      | .error _ _ => none
      | .ok report after => some (look task report after)

/-- A run whose task is known is observed from there on. -/
theorem observe_of_prepared {α : Type} {look : Task → RunReport → Session → α}
    (prepared : prepare options layout session = .ok task started) :
    observe options layout index session look =
      match perform options layout index task started with
      | .error _ _ => none
      | .ok report after => some (look task report after) := by
  rw [observe, prepared]

/-- The same, with the plan loaded from characters. -/
def observeLoaded {α : Type} (options : MigrationOptions) (layout : Layout) (index : IndexRebuild)
    (session : Session) (look : Task → RunReport → Session → α) : Option α :=
  match prepareWith Plan.loadCharacters options layout session with
  | .error _ _ => none
  | .ok task started =>
      match perform options layout index task started with
      | .error _ _ => none
      | .ok report after => some (look task report after)

theorem observe_loads {α : Type} (look : Task → RunReport → Session → α) :
    observe options layout index session look =
      observeLoaded options layout index session look := by
  unfold observe observeLoaded
  rewrite [prepare_loads]
  rfl

theorem observe_eq_some {α : Type} {look : Task → RunReport → Session → α} {seen : α}
    (observed : observe options layout index session look = some seen) :
    ∃ task started report after, prepare options layout session = .ok task started ∧
      run options layout index session = .ok report after ∧ look task report after = seen := by
  unfold observe at observed
  cases prepared : prepare options layout session with
  | error failure stopped =>
      rw [prepared] at observed
      cases observed
  | ok task started =>
      simp only [prepared] at observed
      cases performed : perform options layout index task started with
      | error failure stopped =>
          rw [performed] at observed
          cases observed
      | ok report after =>
          rw [performed] at observed
          refine ⟨task, started, report, after, rfl, ?_, Option.some.inj observed⟩
          rw [run_of_prepared prepared]
          exact performed

end Migration

end Restyle
