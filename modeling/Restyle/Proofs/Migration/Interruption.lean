import Restyle.Proofs.Migration.Courses

/-!
# Interrupted runs

A run that stops early and is resumed later does what one run does that is not
interrupted.  The first run computes the view of the single run as far as it
goes, and the second one goes on from there, with the files and the lists that
it finds on disk.
-/

namespace Restyle

/-- The options of a fresh run that asks about every step. -/
def MigrationOptions.asking (options : MigrationOptions) : MigrationOptions :=
  { options with apply := true, interactive := true, resume := false }

/-- The options of a fresh run that asks nothing. -/
def MigrationOptions.afresh (options : MigrationOptions) : MigrationOptions :=
  { options with apply := true, interactive := false, resume := false }

/-- The options of a run that goes on where the last one stopped. -/
def MigrationOptions.resuming (options : MigrationOptions) : MigrationOptions :=
  { options with apply := true, interactive := false, resume := true }

namespace Migration

variable {options : MigrationOptions} {layout : Layout} {index : IndexRebuild} {task : Task}
  {steps : List Step} {files : Path → Prop} {view seen : View} {saved : Checkpoint}

/-- Whether runs of a task stay apart from each other's own files: the plan stays
as it is, steps are named, and what they insert holds no carriage return. -/
structure Undisturbed (files : Path → Prop) (layout : Layout) (session : Session) (task : Task) :
    Prop where
  sources : AreSources files session.project layout task.steps session.workspace
  plain : ∀ step ∈ task.steps, '\r' ∉ step.action.inserted
  named : ∀ step ∈ task.plan.steps, step.id ≠ .null
  plan : OutOfReach session task.steps task.planPath.place
  notStylesheet : task.planPath.place ≠ layout.stylesheet.place
  notCheckpoint : task.planPath.place ≠ layout.checkpoint.place

variable {first between second alone last : Session} {begun whole : RunReport}

theorem Prepared.afresh (prepared : Prepared options.asking layout first task)
    (workspace : alone.workspace = first.workspace) (project : alone.project = first.project) :
    Prepared options.afresh layout alone task where
  planPath := by
    rw [project]
    exact prepared.planPath
  plan := by
    rw [workspace]
    exact prepared.plan
  digest := prepared.digest
  checkpoint := prepared.checkpoint
  steps := prepared.steps

/-- The steps that a fresh run has not completed are prepared by the next run. -/
theorem Prepared.resuming {count : Nat} (prepared : Prepared options.asking layout first task)
    (project : second.project = first.project)
    (named : ∀ step ∈ task.plan.steps, step.id ≠ .null)
    (plan : Plan.StoredAt second.workspace task.planPath task.plan)
    (stored : Checkpoint.storedAt second.workspace layout.checkpoint = .ok (some saved))
    (digest : saved.planDigest = .text task.digest)
    (completed : saved.completed = (task.steps.take count).map (·.id)) :
    Prepared options.resuming layout second
      { task with checkpoint := some saved, steps := task.steps.drop count } where
  planPath := by
    rw [project]
    exact prepared.planPath
  plan := plan
  digest := prepared.digest
  checkpoint := by
    refine ⟨stored, ?_⟩
    rintro _ ⟨⟩
    exact digest
  steps := by
    have fresh : task.checkpoint = none := prepared.checkpoint
    have scheduled := prepared.steps
    rw [fresh] at scheduled
    exact scheduled.resume named completed

/-- The view after all steps is that after the first ones, followed by what the
others make of it. -/
theorem View.foldlM_split {project : Path} {half : View} {count : Nat}
    (first : (steps.take count).foldlM (View.next? project) view = some half)
    (all : steps.foldlM (View.next? project) view = some seen) :
    ∃ rest, (steps.drop count).foldlM (View.next? project) { half with results := [] } =
        some rest ∧ seen = rest.following half.results := by
  rw [← List.take_append_drop count steps, List.foldlM_append] at all
  obtain ⟨between, early, late⟩ := Option.bind_eq_some_iff.mp all
  rw [first, Option.some.injEq] at early
  subst early
  have whole : half = View.following { half with results := [] } half.results := by
    simp [View.following]
  rw [whole, View.foldlM_following] at late
  obtain ⟨rest, computed, same⟩ := Option.map_eq_some_iff.mp late
  exact ⟨rest, computed, same.symm⟩

/-- A run starts with the view that the run before it ended with, its results
apart. -/
theorem Ends.shows {digest : String} {before : Workspace} {half : View} {project : Path}
    {workspace : Workspace}
    (ended : Ends files layout digest before half begun second.workspace)
    (sources : AreSources files project layout steps workspace)
    (lists : saved.lists = half.lists) :
    Shows files (startState (some saved)) second.workspace { half with results := [] } where
  lists := lists
  results := rfl
  texts := fun path among => by
    obtain ⟨outcome, text, left⟩ := ended.leaves path among
    rw [text, ← left.readText]
    simp [RunState.textAt?, RunState.buffer?, startState_buffers, (sources.apart path among).clean]

theorem AreSources.later {project : Path} {before after : Workspace}
    (sources : AreSources files project layout steps before)
    (directories : ∀ place, before.get? place = some .directory →
      after.get? place = some .directory) : AreSources files project layout steps after where
  named := sources.named
  apart := sources.apart
  ready := fun path among place passes making =>
    directories place (sources.ready path among place passes making)

/-- An interrupted run that is resumed does what one run does.  A fresh run asks,
applies some steps and ends, and another goes on with the files that it leaves;
a third run does everything at once.  Then the second run returns the results
that the third has after those of the first, the same lists are stored in the
end, and each source file has the same text.  It has the same bytes, unless it
had carriage returns and the third run left it with the text that it had. -/
theorem interrupted_run_resumes
    (prepared : prepare options.asking layout first = .ok task started) (busy : task.steps ≠ [])
    (interrupted : run options.asking layout index first = .ok begun between)
    (applied : ∀ result ∈ begun.results, result.status = .applied)
    (continued : second.workspace = between.workspace ∧ second.project = first.project)
    (likewise : alone.workspace = first.workspace ∧ alone.project = first.project)
    (uninterrupted : run options.afresh layout index alone = .ok whole last)
    (undisturbed : Undisturbed files layout first task)
    (takes : ∀ session ∈ [first, second, alone], Takes files session task.steps)
    (saving : ∀ failure ended, run options.resuming layout index second = .error failure ended →
      ¬ failure.MayComeLate layout) :
    ∃ resumed ended, run options.resuming layout index second = .ok resumed ended ∧
      resumed.results = whole.results.drop begun.results.length ∧
      (∃ stored single,
        Checkpoint.storedAt ended.workspace layout.checkpoint = .ok (some stored) ∧
          Checkpoint.storedAt last.workspace layout.checkpoint = .ok (some single) ∧
            stored.lists = single.lists) ∧
      ∀ path, files path → ended.workspace.readText path = last.workspace.readText path ∧
        ((last.workspace.readText path = first.workspace.readText path →
            HasPlainBreaks first.workspace path) →
          ended.workspace.readBytes path = last.workspace.readBytes path) := by
  obtain ⟨known, _⟩ := prepare_eq_ok prepared
  obtain ⟨takesFirst, takesSecond, takesAlone⟩ : Takes files first task.steps ∧
      Takes files second task.steps ∧ Takes files alone task.steps := by
    simpa using takes
  have fresh : task.checkpoint = none := known.checkpoint
  have sources := undisturbed.sources
  obtain ⟨half, computedHalf, completed, endsBegun⟩ := run_applied rfl interrupted prepared busy
    fresh applied takesFirst sources undisturbed.plain
  obtain ⟨directories, others⟩ := run_keeps rfl interrupted prepared busy takesFirst.fresh
  obtain ⟨clean, saved, stored, lists, digest⟩ := endsBegun.stores
  have cleanPlan := planPath_clean prepared
  obtain ⟨_, preparedAlone, _⟩ :=
    prepare_of_prepared (known.afresh likewise.1 likewise.2) cleanPlan clean
  have sourcesAlone := sources
  rw [← likewise.1, ← likewise.2] at sourcesAlone
  obtain ⟨seen, computed, endsWhole⟩ := run_calmly rfl rfl uninterrupted preparedAlone busy
    takesAlone sourcesAlone undisturbed.plain (fun _ member => member)
    (shows_startState files task.checkpoint alone.workspace)
  rw [likewise.2, likewise.1, fresh] at computed
  rw [likewise.1] at endsWhole
  obtain ⟨rest, computedRest, rfl⟩ := View.foldlM_split computedHalf computed
  have sourcesSecond := sources.later directories
  rw [← continued.1, ← continued.2] at sourcesSecond
  rw [← continued.1] at endsBegun stored
  have planned : Plan.StoredAt second.workspace task.planPath task.plan := by
    obtain ⟨_, _, readable, _⟩ := known.plan
    obtain ⟨bytes, _, read, _, _⟩ := Workspace.readText_eq_ok_iff.mp readable
    apply known.plan.of_bytes
    rw [continued.1, others _ bytes undisturbed.plan undisturbed.notStylesheet
      undisturbed.notCheckpoint read, read]
  have listed : saved.completed = (task.steps.take begun.results.length).map (·.id) := by
    rw [← completed, ← lists]
    rfl
  obtain ⟨_, preparedSecond, _⟩ := prepare_of_prepared
    (known.resuming continued.2 undisturbed.named planned stored digest listed) cleanPlan clean
  obtain ⟨resumed, ended, returned, endsResumed⟩ := run_resumes rfl rfl preparedSecond takesSecond
    sourcesSecond undisturbed.plain (fun _ member => List.mem_of_mem_drop member)
    (endsBegun.shows sources lists) ⟨clean, saved, stored, lists, digest⟩
    (continued.2 ▸ computedRest) saving
  refine ⟨resumed, ended, returned, ?_, ?_, ?_⟩
  · rw [endsResumed.results, endsWhole.results, endsBegun.results, View.following, List.drop_left]
  · obtain ⟨_, final, storedFinal, listsFinal, _⟩ := endsResumed.stores
    obtain ⟨_, single, storedSingle, listsSingle, _⟩ := endsWhole.stores
    exact ⟨final, single, storedFinal, storedSingle, listsFinal.trans listsSingle.symm⟩
  · intro path among
    obtain ⟨outcome, text, leftWhole⟩ := endsWhole.leaves path among
    obtain ⟨_, _, leftBegun⟩ := endsBegun.leaves path among
    obtain ⟨other, same, leftResumed⟩ := endsResumed.leaves path among
    have again : other = outcome := Option.some.inj (same.symm.trans text)
    rw [again] at leftResumed
    exact leftWhole.agree leftBegun leftResumed

/-- What is seen of a run that asks, of one that goes on where it stops, and of
one that does everything, if all of them return. -/
def watch {α : Type} (options : MigrationOptions) (layout : Layout) (index : IndexRebuild)
    (task : Task) (session : Session)
    (look : RunReport → Session → RunReport → Session → RunReport → Session → α) : Option α :=
  match perform options.asking layout index task session with
  | .error _ _ => none
  | .ok begun between =>
      match perform options.resuming layout index
          { task with
            checkpoint := begun.checkpoint
            steps := task.steps.drop begun.results.length }
          { session with workspace := between.workspace } with
      | .error _ _ => none
      | .ok resumed ended =>
          match perform options.afresh layout index task session with
          | .error _ _ => none
          | .ok whole last => some (look begun between resumed ended whole last)

theorem watch_eq_some {α : Type} {seen : α}
    {look : RunReport → Session → RunReport → Session → RunReport → Session → α}
    (watched : watch options layout index task session look = some seen) :
    ∃ begun between resumed ended whole last,
      perform options.asking layout index task session = .ok begun between ∧
        perform options.resuming layout index
          { task with
            checkpoint := begun.checkpoint
            steps := task.steps.drop begun.results.length }
          { session with workspace := between.workspace } = .ok resumed ended ∧
          perform options.afresh layout index task session = .ok whole last ∧
            look begun between resumed ended whole last = seen := by
  unfold watch at watched
  cases first : perform options.asking layout index task session with
  | error failure stopped =>
      rw [first] at watched
      cases watched
  | ok begun between =>
      simp only [first] at watched
      split at watched
      · cases watched
      · rename_i resumed ended second
        cases single : perform options.afresh layout index task session with
        | error failure stopped =>
            rw [single] at watched
            cases watched
        | ok whole last =>
            rw [single] at watched
            exact ⟨begun, between, resumed, ended, whole, last, rfl, second, rfl,
              Option.some.inj watched⟩

/-- The document of a step that replaces a class. -/
def swingStep (id file old new : String) : Json :=
  .object
    [("id", .text id), ("file", .text file), ("line", .integer 1), ("ruleId", .text ""),
      ("severity", .text "info"), ("confidence", .integer 1),
      ("action", .object [("type", .text "replace"), ("from", .text old), ("to", .text new)])]

/-- The fields of a plan whose second step takes back the first one, while its
third step is for a file that is missing and its last one goes on from the first. -/
def swingFields : List (String × Json) :=
  [("version", .integer 1),
    ("steps", .array
      [swingStep "a" "f" "x" "z", swingStep "b" "f" "z" "x", swingStep "c" "s" "x" "z",
        swingStep "d" "f" "z" "y"])]

def swingPlan : Plan := (Plan.ofJson (.object swingFields)).toOption.getD default

def swingLayout : Layout :=
  ⟨⟨.root, ["p", "plan"]⟩, ⟨.root, ["p", "s", "check"]⟩, ⟨.root, ["p", "css"]⟩⟩

/-- A project with that plan and a file with a carriage return.  The first step
is agreed to, and then the run is ended. -/
def swingProject : Session where
  workspace :=
    ⟨[(["p"], .directory),
      (["p", "plan"], .file (Text.encode (Json.pretty (.object swingFields)).toList) 420),
      (["p", "f"], .file (Text.encode ['x', '\r', '\n']) 420)]⟩
  project := ⟨.root, ["p"]⟩
  now := 0
  temporaryTag := "0"
  answers := ["y", "q"]

/-- The project with the files that a run leaves. -/
def swingNext (workspace : Workspace) : Session := { swingProject with workspace }

def swingFile : Path := ⟨.root, ["p", "f"]⟩

/-- What a fresh run of that plan prepares that leaves out some steps. -/
def swingTask (skip : List Json) : Task where
  planPath := swingLayout.plan
  plan := swingPlan
  digest := swingPlan.digest.toOption.getD ""
  checkpoint := none
  steps := swingPlan.steps.filter fun step => !step.id.isAmong skip

/-- The steps to leave out: the last one, or those between it and the first. -/
def swingChoices : List (List Json) := [[.text "d"], [.text "b", .text "c"]]

theorem swingPlan_read : Plan.ofJson (.object swingFields) = .ok swingPlan := by
  decide +kernel

theorem swingPlan_tidy : Json.IsTidy (.object swingFields) := by
  have one : Json.IsTidy (.integer 1) := Nat.one_lt_pow (by decide) (by decide)
  have steps : ∀ id file old new, Json.IsTidy (swingStep id file old new) := by
    intro id file old new
    refine ⟨Json.areNames_plain (by simp [Text.spellingMark]), trivial, trivial, one, trivial,
      trivial, one, ?_, trivial⟩
    exact ⟨Json.areNames_plain (by simp [Text.spellingMark]), trivial, trivial, trivial, trivial⟩
  exact ⟨Json.areNames_plain (by decide), one, ⟨steps .., steps .., steps .., steps .., trivial⟩, trivial⟩

theorem swingPlan_stored : Plan.StoredAt swingProject.workspace swingLayout.plan swingPlan :=
  Plan.storedAt_pretty (by decide) swingPlan_tidy (by decide) swingPlan_read rfl

theorem swingPlan_digest : swingPlan.digest = .ok (swingPlan.digest.toOption.getD "") :=
  Plan.digest_of_written (by decide +kernel)

theorem swing_scheduled :
    ∀ skip ∈ swingChoices,
      Selection.filter { skip } swingPlan.steps >>= Schedule.ofSteps =
          .ok ⟨(swingTask skip).steps, [], none⟩ ∧
        Selection.filter { skip, completed := [.text "a"] } swingPlan.steps >>=
            Schedule.ofSteps = .ok ⟨(swingTask skip).steps.drop 1, [], none⟩ := by
  decide +kernel

theorem swingTask_begins : ∀ skip ∈ swingChoices,
    ((swingTask skip).steps.take 1).map (·.id) = [.text "a"] := by
  decide +kernel

theorem swing_files : ∀ step ∈ swingPlan.steps, ∀ key,
    fileKey? ⟨.root, ["p"]⟩ step.file = some key → key = swingFile ∨ key = ⟨.root, ["p", "s"]⟩ := by
  have files : ∀ step ∈ swingPlan.steps, fileKey? ⟨.root, ["p"]⟩ step.file = some swingFile ∨
      fileKey? ⟨.root, ["p"]⟩ step.file = some ⟨.root, ["p", "s"]⟩ := by
    decide +kernel
  intro step member key known
  rcases files step member with here | here
  · exact Or.inl (Option.some.inj (known.symm.trans here))
  · exact Or.inr (Option.some.inj (known.symm.trans here))

variable {skip : List Json}

theorem swingTask_within : ∀ step ∈ (swingTask skip).steps, step ∈ swingPlan.steps :=
  fun _ member => (List.mem_filter.mp member).1

theorem swing_prepared (listed : skip ∈ swingChoices) :
    Prepared ({ skip } : MigrationOptions).asking swingLayout swingProject (swingTask skip) where
  planPath := rfl
  plan := swingPlan_stored
  digest := swingPlan_digest
  checkpoint := rfl
  steps := Schedules.of_ok (swing_scheduled skip listed).1 rfl

theorem swing_fresh : FreshTag swingProject (swingTask skip).steps := by
  apply FreshTag.of_entries (by decide)
  · exact (by decide : ∀ pair ∈ swingProject.workspace.entries,
      swingProject.temporaryName ∉ pair.1)
  · intro step member key known
    rcases swing_files step (swingTask_within step member) key known with rfl | rfl <;> decide

theorem swing_plan_away :
    OutOfReach swingProject (swingTask skip).steps swingLayout.plan.place := by
  refine ⟨?_, ?_, by decide⟩
  · intro step member key known
    rcases swing_files step (swingTask_within step member) key known with rfl | rfl <;> decide
  · rintro ⟨step, member, key, known, same⟩
    revert same
    rcases swing_files step (swingTask_within step member) key known with rfl | rfl <;> decide

theorem swing_busy (listed : skip ∈ swingChoices) : (swingTask skip).steps ≠ [] := by
  intro idle
  have begins := swingTask_begins skip listed
  rw [idle] at begins
  cases begins

theorem swing_prepares (listed : skip ∈ swingChoices) :
    prepare ({ skip } : MigrationOptions).asking swingLayout swingProject =
      .ok (swingTask skip) (swingPlan.noted swingLayout.plan swingProject) :=
  prepare_noted (swing_prepared listed) (by rintro _ ⟨⟩) (by decide) (by rintro ⟨⟩)
    (swing_scheduled skip listed).1

/-- After a first run of that plan the next run resumes from what is saved. -/
theorem swing_resumes {index : IndexRebuild} {begun : RunReport} {between : Session}
    (listed : skip ∈ swingChoices)
    (returned : run ({ skip } : MigrationOptions).asking swingLayout index swingProject =
      .ok begun between)
    (completed : begun.checkpoint.map (·.completed) = some [.text "a"]) :
    prepare ({ skip } : MigrationOptions).resuming swingLayout (swingNext between.workspace) =
      .ok { swingTask skip with
          checkpoint := begun.checkpoint
          steps := (swingTask skip).steps.drop 1 }
        (swingPlan.noted swingLayout.plan (swingNext between.workspace)) := by
  obtain ⟨_, others⟩ :=
    run_keeps rfl returned (swing_prepares listed) (swing_busy listed) swing_fresh
  have planned : Plan.StoredAt between.workspace swingLayout.plan swingPlan := by
    apply swingPlan_stored.of_bytes
    exact (others swingLayout.plan _ swing_plan_away (by decide) (by decide) rfl).symm
  obtain ⟨task, prepared, ⟨_, _, unsaved, _⟩ | ⟨saved, saves, stored⟩⟩ := run_progress rfl returned
  · rw [unsaved] at completed
    cases completed
  · have path : task.planPath = swingLayout.plan := prepared.planPath
    have plan : task.plan = swingPlan :=
      Plan.StoredAt.unique (path ▸ prepared.plan) swingPlan_stored
    have digest : task.digest = (swingTask skip).digest := by
      have known := prepared.digest
      rw [plan, swingPlan_digest, Except.ok.injEq] at known
      exact known.symm
    rw [saves.reported] at completed ⊢
    have done : saved.completed = [.text "a"] := Option.some.inj completed
    have named : ∀ step ∈ swingPlan.steps, step.id ≠ .null := by decide +kernel
    have second : Prepared ({ skip } : MigrationOptions).resuming swingLayout
        (swingNext between.workspace) _ :=
      (swing_prepared listed).resuming rfl named planned stored (digest ▸ saves.digest)
        (done.trans (swingTask_begins skip listed).symm)
    apply prepare_noted second (by rintro _ ⟨⟩) (by decide) (fun _ => rfl)
    have remaining := (swing_scheduled skip listed).2
    rw [← done] at remaining
    exact remaining

/-- What is seen of these runs. -/
structure SwingView where
  statuses : List StepStatus
  completed : Option (List Json)
  places : List Place
  errors : List (Option String)
  singleErrors : List (Option String)
  bytes : Option (List UInt8)
  singleBytes : Option (List UInt8)
  deriving DecidableEq

def SwingView.of (begun : RunReport) (between : Session) (resumed : RunReport) (ended : Session)
    (whole : RunReport) (last : Session) : SwingView where
  statuses := begun.results.map (·.status)
  completed := begun.checkpoint.map (·.completed)
  places := between.workspace.entries.map Prod.fst
  errors := resumed.results.map (·.error)
  singleErrors := whole.results.map (·.error)
  bytes := (ended.workspace.readBytes swingFile).toOption
  singleBytes := (last.workspace.readBytes swingFile).toOption

theorem swing_runs {seen : SwingView} (listed : skip ∈ swingChoices)
    (watched : watch { skip } swingLayout .absent (swingTask skip)
      (swingPlan.noted swingLayout.plan swingProject) SwingView.of = some seen)
    (statuses : seen.statuses = [.applied]) (completed : seen.completed = some [.text "a"]) :
    ∃ begun between resumed ended whole last,
      run ({ skip } : MigrationOptions).asking swingLayout .absent swingProject =
        .ok begun between ∧
      run ({ skip } : MigrationOptions).resuming swingLayout .absent
        (swingNext between.workspace) = .ok resumed ended ∧
      run ({ skip } : MigrationOptions).afresh swingLayout .absent swingProject =
        .ok whole last ∧ SwingView.of begun between resumed ended whole last = seen := by
  obtain ⟨begun, between, resumed, ended, whole, last, first, second, single, rfl⟩ :=
    watch_eq_some watched
  have length : begun.results.length = 1 := by
    simpa [SwingView.of] using congrArg List.length statuses
  have alone := prepare_noted ((swing_prepared listed).afresh rfl rfl) (by rintro _ ⟨⟩) (by decide)
    (by rintro ⟨⟩) (swing_scheduled skip listed).1
  have begins : run ({ skip } : MigrationOptions).asking swingLayout .absent swingProject =
      .ok begun between := by
    rw [run_of_prepared (swing_prepares listed)]
    exact first
  refine ⟨begun, between, resumed, ended, whole, last, begins, ?_, ?_, rfl⟩
  · rw [run_of_prepared (swing_resumes listed begins completed), ← length]
    exact second
  · rw [run_of_prepared alone]
    exact single

theorem swing_carried_on :
    watch { skip := [.text "b", .text "c"] } swingLayout .absent
        (swingTask [.text "b", .text "c"]) (swingPlan.noted swingLayout.plan swingProject)
        SwingView.of =
      some
        { statuses := [.applied]
          completed := some [.text "a"]
          places :=
            [["p"], ["p", "plan"], ["p", "f"], ["p", "f.bak"], ["p", "s"], ["p", "s", "check"]]
          errors := [none]
          singleErrors := [none, none]
          bytes := some [121, 10]
          singleBytes := some [121, 10] } := by
  decide +kernel

theorem swing_carried_files : ∀ step ∈ (swingTask [.text "b", .text "c"]).steps, ∀ key,
    fileKey? ⟨.root, ["p"]⟩ step.file = some key → key = swingFile := by
  have files : ∀ step ∈ (swingTask [.text "b", .text "c"]).steps,
      fileKey? ⟨.root, ["p"]⟩ step.file = some swingFile := by
    decide +kernel
  intro step member key known
  exact Option.some.inj (known.symm.trans (files step member))

theorem swing_undisturbed :
    Undisturbed (· = swingFile) swingLayout swingProject (swingTask [.text "b", .text "c"]) where
  sources := by
    constructor
    · rintro path ⟨step, member, known⟩
      exact swing_carried_files step member path known
    · rintro _ rfl
      refine ⟨by decide, ?_, by decide, by decide, ?_⟩
      · rintro key ⟨step, member, known⟩ _
        exact swing_carried_files step member key known
      · rintro place ⟨step, member, key, known, rfl⟩
        rw [swing_carried_files step member key known]
        decide
    · rintro _ rfl place passes making
      have standing : ∀ place ∈ swingFile.names.inits.map (Path.follow []),
          swingLayout.stylesheet.parent.Passes place ∨ swingLayout.checkpoint.parent.Passes place →
            swingProject.workspace.get? place = some .directory := by
        decide +kernel
      exact standing place (Path.passes_iff.mp passes) making
  plain := by decide +kernel
  named := by decide +kernel
  plan := swing_plan_away
  notStylesheet := by decide
  notCheckpoint := by decide

theorem swing_takes {workspace : Workspace}
    (unused : ∀ place ∈ workspace.entries.map Prod.fst, swingProject.temporaryName ∉ place) :
    Takes (· = swingFile) (swingNext workspace) (swingTask [.text "b", .text "c"]).steps := by
  constructor
  · apply FreshTag.of_entries
    · exact (by decide : swingProject.HasPlainTag)
    · exact fun pair member => unused pair.1 (List.mem_map_of_mem member)
    · intro step member key known
      rw [swing_carried_files step member key known]
      exact (by decide : swingProject.temporaryName ∉ swingFile.names)
  · rintro _ rfl
    exact (by decide : swingProject.temporaryName ∉ swingFile.names)
  · rintro path ⟨step, member, known⟩
    rw [swing_carried_files step member path known]
    exact ⟨rfl, (by decide : (Activity.temporaryFor swingProject swingFile).toString.utf8ByteSize <
      Workspace.pathLimit), (by decide : swingProject.temporaryName.utf8ByteSize ≤
        Workspace.nameLimit)⟩

theorem interrupted_run_resumes_carried_on :
    ∃ begun between resumed ended whole last,
      run ({ skip := [.text "b", .text "c"] } : MigrationOptions).asking swingLayout .absent
        swingProject = .ok begun between ∧
      run ({ skip := [.text "b", .text "c"] } : MigrationOptions).resuming swingLayout .absent
        (swingNext between.workspace) = .ok resumed ended ∧
      run ({ skip := [.text "b", .text "c"] } : MigrationOptions).afresh swingLayout .absent
        swingProject = .ok whole last ∧
      begun.results.map (·.status) = [.applied] ∧ resumed.results = whole.results.drop 1 ∧
        ended.workspace.readBytes swingFile = last.workspace.readBytes swingFile := by
  have listed : [.text "b", .text "c"] ∈ swingChoices := by decide
  obtain ⟨begun, between, resumed, ended, whole, last, first, second, single, seen⟩ :=
    swing_runs listed swing_carried_on rfl rfl
  simp only [SwingView.of, SwingView.mk.injEq] at seen
  obtain ⟨statuses, _, places, _, _, _, bytes⟩ := seen
  have length : begun.results.length = 1 := by
    simpa using congrArg List.length statuses
  have applied : ∀ result ∈ begun.results, result.status = .applied := by
    intro result member
    have among := List.mem_map_of_mem (f := StepResult.status) member
    rw [statuses] at among
    exact List.mem_singleton.mp among
  have takes : ∀ session ∈ [swingProject, swingNext between.workspace, swingProject],
      Takes (· = swingFile) session (swingTask [.text "b", .text "c"]).steps := by
    have before : Takes (· = swingFile) (swingNext swingProject.workspace) _ :=
      swing_takes (by decide)
    have later : ∀ place ∈ between.workspace.entries.map Prod.fst,
        swingProject.temporaryName ∉ place := by
      rw [places]
      decide
    exact List.forall_mem_cons.mpr ⟨before, List.forall_mem_cons.mpr
      ⟨swing_takes later, List.forall_mem_singleton.mpr before⟩⟩
  have returns : ∀ failure stopped,
      run ({ skip := [.text "b", .text "c"] } : MigrationOptions).resuming swingLayout .absent
        (swingNext between.workspace) = .error failure stopped →
          ¬ failure.MayComeLate swingLayout := by
    intro failure stopped unfinished
    rw [second] at unfinished
    cases unfinished
  have continued : (swingNext between.workspace).workspace = between.workspace ∧
      (swingNext between.workspace).project = swingProject.project := ⟨rfl, rfl⟩
  obtain ⟨_, _, again, results, _, files⟩ := interrupted_run_resumes (swing_prepares listed)
    (swing_busy listed) first applied continued ⟨rfl, rfl⟩ single swing_undisturbed takes returns
  rw [second] at again
  cases again
  rw [length] at results
  refine ⟨begun, between, resumed, ended, whole, last, first, second, single, statuses, results,
    (files swingFile rfl).2 ?_⟩
  have changed : last.workspace.readText swingFile = .ok (String.ofList ['y', '\n']) :=
    Workspace.readText_eq_ok_iff.mpr
      ⟨_, ['y', '\n'], readBytes_of_toOption bytes, by decide, by decide⟩
  have initial : swingProject.workspace.readText swingFile = .ok (String.ofList ['x', '\n']) :=
    Workspace.readText_eq_ok_iff.mpr ⟨_, ['x', '\r', '\n'], rfl, by decide, by decide⟩
  intro same
  rw [changed, initial, Except.ok.injEq] at same
  cases String.ofList_injective same

theorem swing_turned_back :
    watch { skip := [.text "d"] } swingLayout .absent (swingTask [.text "d"])
        (swingPlan.noted swingLayout.plan swingProject) SwingView.of =
      some
        { statuses := [.applied]
          completed := some [.text "a"]
          places :=
            [["p"], ["p", "plan"], ["p", "f"], ["p", "f.bak"], ["p", "s"], ["p", "s", "check"]]
          errors := [none, some "Could not read s: [Errno 21] Is a directory: '/p/s'"]
          singleErrors := [none, none, some "File not found: s"]
          bytes := some [120, 10]
          singleBytes := some [120, 13, 10] } := by
  decide +kernel

/-- The directory that is made for the checkpoint is in the way of a later step,
and a file with its first text again is stored with other line ends. -/
theorem resumed_run_differs :
    ∃ task started begun between resumed ended whole last,
      prepare ({ skip := [.text "d"] } : MigrationOptions).asking swingLayout swingProject =
        .ok task started ∧
      task.steps.map (fun step => (step.id, step.file)) =
        [(.text "a", .text "f"), (.text "b", .text "f"), (.text "c", .text "s")] ∧
      (∀ step ∈ task.steps, '\r' ∉ step.action.inserted) ∧
      run ({ skip := [.text "d"] } : MigrationOptions).asking swingLayout .absent swingProject =
        .ok begun between ∧
      run ({ skip := [.text "d"] } : MigrationOptions).resuming swingLayout .absent
        (swingNext between.workspace) = .ok resumed ended ∧
      run ({ skip := [.text "d"] } : MigrationOptions).afresh swingLayout .absent
        swingProject = .ok whole last ∧
      begun.results.map (·.status) = [.applied] ∧ resumed.results ≠ whole.results.drop 1 ∧
        ended.workspace.readBytes swingFile ≠ last.workspace.readBytes swingFile := by
  have listed : [.text "d"] ∈ swingChoices := by decide
  obtain ⟨begun, between, resumed, ended, whole, last, first, second, single, seen⟩ :=
    swing_runs listed swing_turned_back rfl rfl
  simp only [SwingView.of, SwingView.mk.injEq] at seen
  obtain ⟨statuses, _, _, errors, singleErrors, bytes, singleBytes⟩ := seen
  refine ⟨swingTask [.text "d"], _, begun, between, resumed, ended, whole, last,
    swing_prepares listed, by decide +kernel, by decide +kernel, first, second, single, statuses,
    ?_, ?_⟩
  · intro same
    rw [same, List.map_drop, singleErrors] at errors
    revert errors
    decide
  · intro same
    rw [same, singleBytes] at bytes
    revert bytes
    decide

end Migration

end Restyle
