import Restyle.Proofs.Migration.Backups
import Restyle.Proofs.Migration.Endings
import Restyle.Proofs.Migration.Sizes
import Restyle.Proofs.Migration.Spellings

/-!
# The totals of a run account for the disk

A run reports how many characters its applied steps added and removed.  The files of
its steps have become longer by just the difference of the two.  It does not matter
that a file is written once for all its edits, is left alone when they cancel out, or
keeps its text when it cannot be written.
-/

namespace Restyle

/-- How many characters the text at a place has as it is read, with one for each line
end.  Where no text stands there are none. -/
def Workspace.textLength (workspace : Workspace) (place : Place) : Nat :=
  match workspace.file? place with
  | some (bytes, _) =>
      match Text.decode bytes with
      | .ok text => (Text.unifyBreaks text).length
      | .error _ => 0
  | none => 0

namespace Workspace

variable {before after workspace : Workspace} {path : Path} {place : Place}

theorem textLength_congr (same : after.file? place = before.file? place) :
    after.textLength place = before.textLength place := by
  rw [textLength, same, textLength]

theorem textLength_of_readText {text : List Char}
    (read : workspace.readText path = .ok (String.ofList text)) :
    workspace.textLength path.place = text.length := by
  obtain ⟨bytes, characters, stored, decoded, same⟩ := readText_eq_ok_iff.mp read
  obtain ⟨_, mode, standing⟩ := readBytes_eq_ok_iff.mp stored
  obtain rfl := String.ofList_injective same
  simp [textLength, file?, standing, decoded]

end Workspace

namespace Migration

variable {options : MigrationOptions} {layout : Layout} {index : IndexRebuild} {task : Task}
  {report : RunReport} {state start opened next executed final : RunState}
  {session started middle after last : Session} {step : Step} {steps done : List Step}
  {backup : Bool} {path key : Path} {buffer : Buffer} {content initial text : List Char}
  {refused : List (Path × String)}

/-! ## Files with a buffer -/

theorem Opens.readable {workspace : Workspace} (buffered : Opens workspace key state opened content)
    (absent : state.buffer? path = none) (found : opened.buffer? path = some buffer) :
    ∃ text, workspace.readText path = .ok text := by
  by_cases here : path = key
  · subst here
    cases buffered with
    | known old =>
        rw [absent] at old
        cases old
    | loaded _ _ read => exact ⟨_, read⟩
  · rw [buffered.buffer?.2 path here, absent] at found
    cases found

/-- A processed step has no buffer for a new file but one that it could read. -/
theorem Processed.readable (processed : Processed backup step state session next after)
    (absent : state.buffer? path = none) (found : next.buffer? path = some buffer) :
    ∃ text, session.workspace.readText path = .ok text := by
  have same : ∀ {base : RunState} {status error size},
      (base.record step status error size).buffer? path = base.buffer? path :=
    RunState.buffer?_congr (RunState.record_buffers ..) path
  cases processed with
  | blocked _ _ =>
      rw [same, absent] at found
      cases found
  | declined _ _ =>
      rw [same, absent] at found
      cases found
  | unreadable _ _ _ _ _ _ =>
      rw [RunState.fail, same, absent] at found
      cases found
  | unlocated _ _ buffered _ _ =>
      rw [RunState.fail, same] at found
      exact buffered.readable absent found
  | edited free known buffered made before copied quiet =>
      rename_i opened kept ready middle key content edit
      obtain ⟨⟨backedUp, rfl⟩, _⟩ := backUp_outcome (fun _ => True) copied
      rw [buffer?_afterEdit] at found
      by_cases here : path = key
      · subst here
        obtain ⟨⟨_, there, _⟩, _⟩ := buffered.buffer?
        exact buffered.readable absent there
      · rw [RunState.buffer?_setContent_other _ here] at found
        exact buffered.readable absent found

theorem Executes.readable (execution : Executes backup state session steps final last)
    (apart : ¬ IsBackupPlace session.project steps path.place)
    (absent : state.buffer? path = none) (found : final.buffer? path = some buffer) :
    ∃ text, session.workspace.readText path = .ok text := by
  induction execution with
  | nil _ =>
      rw [absent] at found
      cases found
  | @cons state next final session middle last step steps first later induction =>
      cases known : next.buffer? path with
      | some _ => exact first.readable absent known
      | none =>
          have project := first.sameSetting.project
          have spared : ¬ IsBackupPlace middle.project steps path.place := by
            rintro ⟨other, member, key, named, place⟩
            exact apart ⟨other, List.mem_cons_of_mem _ member, key, project ▸ named, place⟩
          obtain ⟨text, read⟩ := induction spared known found
          refine ⟨text, (@Processed.evolves _ _ _ _ _ _ (fun _ => False) first).symm.readText ?_ read⟩
          rintro ⟨key, named, place⟩
          exact apart ⟨step, List.mem_cons_self, key, named, place⟩

/-- The text of a tracked file has gained what it is longer. -/
theorem Tracks.gain {workspace : Workspace} (tracked : Tracks path initial state workspace text) :
    state.gain path = text.length - initial.length := by
  unfold RunState.gain
  rcases tracked.buffered with ⟨absent, rfl⟩ | ⟨buffer, found, rfl, rfl⟩
  · rw [absent]
    exact (Int.sub_self _).symm
  · rw [found]

/-! ## Files on disk -/

/-- A file that was followed to the end has become longer by what its text has, unless
it was refused. -/
theorem Finishes.textLength (finished : Finishes session path initial text refused after)
    (readable : session.workspace.readText path = .ok (String.ofList initial))
    (clean : '\r' ∉ text) :
    (after.workspace.textLength path.place : Int) - session.workspace.textLength path.place =
      if path ∈ refused.map Prod.fst then 0 else (text.length : Int) - initial.length := by
  have kept : after.workspace.readBytes path = session.workspace.readBytes path →
      after.workspace.textLength path.place = initial.length := fun same =>
    Workspace.textLength_of_readText ((Workspace.readText_congr same).trans readable)
  rw [Workspace.textLength_of_readText readable]
  by_cases same : text = initial
  · obtain ⟨unlisted, stays⟩ := finished.unchanged same
    rw [kept stays, if_neg unlisted, same]
  by_cases accepted : session.Accepts path
  · obtain ⟨unlisted, stored⟩ := finished.stored same accepted
    have read : after.workspace.readText path = .ok (String.ofList text) :=
      Workspace.readText_eq_ok_iff.mpr ⟨_, text, stored, Text.decode_encode text,
        by rw [Text.unifyBreaks_of_not_mem clean]⟩
    rw [Workspace.textLength_of_readText read, if_neg unlisted]
  · obtain ⟨listed, stays⟩ := finished.refused same accepted
    rw [kept stays, if_pos listed, Int.sub_self]

theorem finish_unopened (fresh : FreshTag session steps)
    (sources : ∀ path, IsStepFile session.project steps path →
      IsSource session layout steps path)
    (within : ∀ step ∈ done, step ∈ steps) (empty : start.buffers = [])
    (execution : Executes backup start session done executed middle)
    (finished : finish layout index task executed middle = .ok report after)
    (file : IsStepFile session.project steps path) (absent : executed.buffer? path = none) :
    after.workspace.textLength path.place = session.workspace.textLength path.place := by
  have source := sources path file
  apply Workspace.textLength_congr
  refine ((finish_evolves fresh within empty execution finished).file?_eq ?_).trans
    ((execution.evolves fun _ => False).file?_eq ?_)
  · rintro (⟨buffer, member, same⟩ | ⟨target, same⟩ | same | same)
    · have here := (sources _ (execution.isStepFile empty within buffer member))
      obtain ⟨step, among, known⟩ := file
      have path := here.unaliased step among path known same
      exact not_mem_bufferPaths absent (path ▸ List.mem_map_of_mem member)
    · obtain ⟨step, among, known⟩ := file
      apply fresh.unnamed step among path known
      apply Path.mem_place
      rw [same, Session.temporaryFor_place fresh.plain]
      simp
    · exact source.notStylesheet same
    · exact source.notCheckpoint same
  · rintro ⟨step, member, backup⟩
    exact source.notBackup ⟨step, within step member, backup⟩

theorem Executes.files (execution : Executes backup start session done executed middle)
    (blank : start.results = []) :
    ∀ result ∈ executed.results, ∃ step ∈ done, step.file = result.file := by
  obtain ⟨outcomes, results, subjects, _⟩ := execution.records
  rw [blank, List.nil_append] at results
  intro result member
  have subject : result.subject ∈ done.map Step.subject := by
    rw [← subjects, ← results]
    exact List.mem_map_of_mem member
  obtain ⟨step, among, same⟩ := List.mem_map.mp subject
  exact ⟨step, among, congrArg (fun subject : Json × Json × String => subject.2.1) same⟩

/-- The end of a run makes each file of its steps longer by what the execution added to
its text, or leaves it as long as it was if it was refused. -/
theorem finish_textLength (fresh : FreshTag session steps)
    (sources : ∀ path, IsStepFile session.project steps path →
      IsSource session layout steps path)
    (plain : ∀ step ∈ done, '\r' ∉ step.action.inserted)
    (within : ∀ step ∈ done, step ∈ steps) (empty : start.buffers = [])
    (execution : Executes backup start session done executed middle)
    (finished : finish layout index task executed middle = .ok report after) :
    ∃ refused count, report.results = executed.results.map (refuseAll session.project refused) ∧
      report.summary = RunSummary.ofResults report.results count ∧
        ∀ path, IsStepFile session.project steps path →
          (after.workspace.textLength path.place : Int) -
              session.workspace.textLength path.place =
            if path ∈ refused.map Prod.fst then 0 else executed.gain path := by
  obtain ⟨state, written, refused, committed, files, warnings, styled, ready, commitment, updating,
    quiet, conclusion⟩ := finish_eq_ok finished
  obtain ⟨_, _, _, _, _, _, results, _⟩ := conclude_eq_ok conclusion
  refine ⟨refused, files.length, ?_, ?_, fun path file => ?_⟩
  · rw [results, commitment.results, execution.sameSetting.project]
  · rw [results, (conclude_totals conclusion).1]
  have source := sources path file
  cases found : executed.buffer? path with
  | none =>
      have nothing : executed.gain path = 0 := by rw [RunState.gain, found]
      rw [finish_unopened fresh sources within empty execution finished file found, nothing, ite_self,
        Int.sub_self]
  | some buffer =>
      have aside : ¬ IsBackupPlace session.project done path.place := by
        rintro ⟨step, member, backup⟩
        exact source.notBackup ⟨step, within step member, backup⟩
      obtain ⟨whole, readable⟩ := execution.readable aside (by simp [RunState.buffer?, empty]) found
      obtain ⟨bytes, characters, read, _, rfl⟩ := Workspace.readText_eq_ok_iff.mp readable
      have tracked : Tracks path (Text.unifyBreaks characters) start session.workspace
          (Text.unifyBreaks characters) :=
        ⟨readable, Or.inl ⟨by simp [RunState.buffer?, empty], rfl⟩⟩
      obtain ⟨outcomes, _, subjects, _, ended⟩ := execution.tracks
        (fun step member key known same => aside ⟨step, member, key, known, same.symm⟩) tracked
      rw [ended.gain]
      apply (ending_finishes fresh source read within empty execution ended commitment updating
        quiet conclusion).textLength readable
      apply editInOrder_clean _ (Text.return_not_mem_unifyBreaks characters)
      intro step member
      exact plain step ((attemptedOn_sublist _ _ subjects).1.subset member)

def stepFiles (project : Path) (steps : List Step) : Finset Path :=
  ((steps.map Step.file).filterMap (fileKey? project)).toFinset

theorem mem_stepFiles {project : Path} :
    path ∈ stepFiles project steps ↔ IsStepFile project steps path := by
  simp [stepFiles, IsStepFile]

/-- The files of the steps of a run that changes files and returns have become longer,
all together, by just what the run reports as added less what it reports as removed.
Texts are counted as they are read, and the steps of the run insert no carriage
returns.  The steps whose files are counted may be those of the run, or more; different
names of theirs lead to different files, and none to the stylesheet, the checkpoint or a
backup. -/
theorem run_balances (returned : run options layout index session = .ok report after)
    (reported : report.applied = true)
    (prepared : prepare options layout session = .ok task started)
    (scheduled : ∀ step ∈ task.steps, step ∈ steps) (fresh : FreshTag session steps)
    (sources : ∀ path ∈ stepFiles session.project steps, IsSource session layout steps path)
    (plain : ∀ step ∈ task.steps, '\r' ∉ step.action.inserted) :
    ∑ path ∈ stepFiles session.project steps,
        ((after.workspace.textLength path.place : Int) -
          session.workspace.textLength path.place) =
      report.summary.added - report.summary.removed := by
  have applying := applying_of_applied returned reported
  have keyed := run_haveKeys applying returned
  have calm := (prepare_eq_ok prepared).2
  have busy := busy_of_applied returned reported prepared
  obtain ⟨executed, middle, executing, finished⟩ := run_course applying returned prepared busy
  obtain ⟨done, cut, split, execution, _⟩ := executeAll_executes executing
  have begun : ∀ step ∈ done, step ∈ task.steps := fun step member =>
    split ▸ List.mem_append_left _ member
  have within : ∀ step ∈ done, step ∈ steps := fun step member =>
    scheduled step (begun step member)
  obtain ⟨refused, count, results, totals, lengths⟩ := finish_textLength (fresh.of_quiet calm)
    (fun path file => (sources path (mem_stepFiles.mpr (calm.project ▸ file))).of_quiet calm)
    (fun step member => plain step (begun step member)) within (startState_buffers _) execution
    finished
  have gains := execution.gains (fun path => by
    simp [RunState.gain, RunState.buffer?, startState_buffers, startState_results, gainOn])
  rw [calm.project] at results lengths gains
  rw [calm.workspace] at lengths
  have named : ∀ result ∈ report.results, result.status = .applied →
      ∃ path ∈ stepFiles session.project steps,
        fileKey? session.project result.file = some path := by
    intro result member applied
    obtain ⟨path, known⟩ := keyed result member applied
    rw [results] at member
    obtain ⟨old, among, rfl⟩ := List.mem_map.mp member
    obtain ⟨step, listed, file⟩ := execution.files (startState_results _) old among
    rw [refuseAll_file] at known
    refine ⟨path, mem_stepFiles.mpr ⟨step, within step listed, file ▸ known⟩, ?_⟩
    rw [refuseAll_file, known]
  calc _ = ∑ path ∈ stepFiles session.project steps,
        gainOn session.project path report.results := by
          refine Finset.sum_congr rfl fun path file => ?_
          rw [lengths path (mem_stepFiles.mp file), results, gainOn_refuseAll, gains]
    _ = (report.results.map StepResult.gain).sum := sum_gainOn _ named
    _ = report.summary.added - report.summary.removed := by
          rw [totals, RunSummary.ofResults, foldl_count_gain]
          simp

/-- A project with two files and a replacement in each, in which the second file cannot
be written. -/
def unevenProject : Session where
  workspace :=
    ⟨[(["p"], .directory),
      (["p", "plan"], .file (Text.encode (Json.compactText (.object
        [("version", .integer 1),
          ("steps", .array [replacement "a" "f" "x" "abc", replacement "b" "g" "x" ""])])))
        420),
      (["p", "f"], .file (Text.encode "x y".toList) 420),
      (["p", "g"], .file (Text.encode "x\r\n".toList) 420)]⟩
  project := ⟨.root, ["p"]⟩
  now := 0
  temporaryTag := "0"
  trouble := fun path =>
    if path = ⟨.root, ["p", "g"]⟩ then some (.moving, { cause := .noSpace }) else none

/-- What is seen of a run: whether it changes files, the files of its steps and what
they insert, how they ended, and the totals. -/
structure BalanceView where
  applied : Bool
  files : List Json
  inserted : List (List Char)
  statuses : List StepStatus
  added : Int
  removed : Int
  deriving DecidableEq

def BalanceView.of (task : Task) (report : RunReport) (_ : Session) : BalanceView where
  applied := report.applied
  files := task.steps.map Step.file
  inserted := task.steps.map (·.action.inserted)
  statuses := report.results.map StepResult.status
  added := report.summary.added
  removed := report.summary.removed

theorem uneven_observed :
    observe { apply := true } smallLayout .absent unevenProject BalanceView.of =
      some ⟨true, [.text "f", .text "g"], ["abc".toList, []], [.applied, .failed], 3, 1⟩ := by
  rw [observe_loads]
  decide +kernel

theorem stepFiles_uneven (files : steps.map Step.file = [.text "f", .text "g"]) :
    stepFiles unevenProject.project steps = {tokenFile, ⟨.root, ["p", "g"]⟩} := by
  rw [stepFiles, files]
  decide

theorem isSource_uneven (files : steps.map Step.file = [.text "f", .text "g"]) :
    ∀ path ∈ stepFiles unevenProject.project steps,
      IsSource unevenProject smallLayout steps path := by
  have keys : ∀ step ∈ steps, ∀ key, fileKey? unevenProject.project step.file = some key →
      key = tokenFile ∨ key = ⟨.root, ["p", "g"]⟩ := by
    intro step member key known
    have listed := mem_stepFiles.mpr ⟨step, member, known⟩
    rw [stepFiles_uneven files] at listed
    simpa using listed
  intro path file
  obtain ⟨step, member, known⟩ := mem_stepFiles.mp file
  have here := keys step member path known
  refine ⟨fun other among key named same => ?_, ?_, ?_, ?_⟩
  · revert same
    rcases here with rfl | rfl <;> rcases keys other among key named with rfl | rfl <;> decide
  · rcases here with rfl | rfl <;> decide
  · rcases here with rfl | rfl <;> decide
  · rintro ⟨other, among, key, named, same⟩
    revert same
    rcases here with rfl | rfl <;> rcases keys other among key named with rfl | rfl <;> decide

theorem run_balances_uneven :
    ∃ task started report after,
      prepare { apply := true } smallLayout unevenProject = .ok task started ∧
        run { apply := true } smallLayout .absent unevenProject = .ok report after ∧
          report.results.map StepResult.status = [.applied, .failed] ∧
            ∑ path ∈ stepFiles unevenProject.project task.steps,
              ((after.workspace.textLength path.place : Int) -
                unevenProject.workspace.textLength path.place) = 2 := by
  obtain ⟨task, started, report, after, prepared, returned, seen⟩ := observe_eq_some uneven_observed
  simp only [BalanceView.of, BalanceView.mk.injEq] at seen
  obtain ⟨reported, files, inserted, statuses, added, removed⟩ := seen
  have fresh : FreshTag unevenProject task.steps := by
    refine FreshTag.of_entries (by decide) (by decide) fun step member key known => ?_
    have listed := mem_stepFiles.mpr ⟨step, member, known⟩
    rw [stepFiles_uneven files] at listed
    rcases Finset.mem_insert.mp listed with rfl | other
    · decide
    · rw [Finset.mem_singleton.mp other]
      decide
  have plain : ∀ step ∈ task.steps, '\r' ∉ step.action.inserted := by
    intro step member
    have listed := List.mem_map_of_mem (f := fun step : Step => step.action.inserted) member
    rw [inserted] at listed
    exact (by decide : ∀ text ∈ ["abc".toList, []], '\r' ∉ text) _ listed
  refine ⟨task, started, report, after, prepared, returned, statuses, ?_⟩
  rw [run_balances returned reported prepared (fun _ member => member) fresh
    (isSource_uneven files) plain, added, removed]
  rfl

end Migration

end Restyle
