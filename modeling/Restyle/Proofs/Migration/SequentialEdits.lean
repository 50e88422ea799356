import Restyle.Proofs.Migration.Errands

/-!
# The files of a run are edited in order

A run reads a file once, edits it in memory among steps on other files, and
writes it at the end.  The theorem of this module says that nothing of this
shows: the file ends with the text that its own steps make of it one after the
other, and the results tell which of them found their target.  When the file
cannot be written it stays, and the steps that had edited it are failures.
-/

namespace Restyle

namespace Migration

variable {options : MigrationOptions} {layout : Layout} {index : IndexRebuild} {task : Task}
  {report : RunReport} {session started after : Session} {path : Path}

/-- The name of the temporary files is new: nothing on disk has it, and no step
names it. -/
structure FreshTag (session : Session) (steps : List Step) : Prop where
  plain : session.HasPlainTag
  unused : ∀ place entry, session.workspace.get? place = some entry →
    session.temporaryName ∉ place
  unnamed : ∀ step ∈ steps, ∀ key, fileKey? session.project step.file = some key →
    session.temporaryName ∉ key.names

/-- Whether a path leads to a source file: steps name the file by this path only,
and it is none of the files that a run writes on its own account. -/
structure IsSource (session : Session) (layout : Layout) (steps : List Step) (path : Path) :
    Prop where
  unaliased : ∀ step ∈ steps, ∀ key, fileKey? session.project step.file = some key →
    key.place = path.place → key = path
  notStylesheet : path.place ≠ layout.stylesheet.place
  notCheckpoint : path.place ≠ layout.checkpoint.place
  notBackup : ¬ IsBackupPlace session.project steps path.place

theorem FreshTag.of_quiet {steps : List Step} (fresh : FreshTag session steps)
    (quiet : session.Quiet started) : FreshTag started steps where
  plain := quiet.hasPlainTag fresh.plain
  unused := by
    rw [quiet.workspace, quiet.temporaryName]
    exact fresh.unused
  unnamed := by
    rw [quiet.project, quiet.temporaryName]
    exact fresh.unnamed

theorem IsSource.of_quiet {steps : List Step} (source : IsSource session layout steps path)
    (quiet : session.Quiet started) : IsSource started layout steps path where
  unaliased := by
    rw [quiet.project]
    exact source.unaliased
  notStylesheet := source.notStylesheet
  notCheckpoint := source.notCheckpoint
  notBackup := by
    rw [quiet.project]
    exact source.notBackup

/-- No temporary file stands where something is on disk. -/
theorem FreshTag.temporary_ne {steps : List Step} {entry : Entry} {place : Place}
    (fresh : FreshTag session steps) (standing : session.workspace.get? place = some entry)
    (target : Path) : (Activity.temporaryFor session target).place ≠ place := by
  intro same
  apply fresh.unused place entry standing
  rw [← same, Session.temporaryFor_place fresh.plain]
  simp

theorem FreshTag.temporary_free {steps : List Step} (fresh : FreshTag session steps)
    (target : Path) :
    session.workspace.get? (Activity.temporaryFor session target).place = none := by
  cases standing : session.workspace.get? (Activity.temporaryFor session target).place with
  | none => rfl
  | some entry => exact absurd rfl (fresh.temporary_ne standing target)

/-- No directory made above the file of a step is in the way of a temporary
file. -/
theorem FreshTag.not_passes {steps : List Step} {step : Step} {key : Path}
    (fresh : FreshTag session steps) (member : step ∈ steps)
    (known : fileKey? session.project step.file = some key) (target : Path) :
    ¬ key.parent.Passes (Activity.temporaryFor session target).place := by
  intro passes
  apply fresh.unnamed step member key known
  have named : session.temporaryName ∈ key.parent.names := by
    apply passes.mem_names
    rw [Session.temporaryFor_place fresh.plain]
    simp
  exact List.dropLast_subset key.names named

/-- What becomes of a file of a run, given the text that its steps make of it. -/
structure Finishes (session : Session) (path : Path) (initial text : List Char)
    (refused : List (Path × String)) (after : Session) : Prop where
  clean : text ≠ initial → path.hasNull = false
  unchanged : text = initial → path ∉ refused.map Prod.fst ∧
    after.workspace.readBytes path = session.workspace.readBytes path
  stored : text ≠ initial → session.Accepts path → path ∉ refused.map Prod.fst ∧
    after.workspace.readBytes path = .ok (Text.encode text)
  refused : text ≠ initial → ¬ session.Accepts path → path ∈ refused.map Prod.fst ∧
    after.workspace.readBytes path = session.workspace.readBytes path

theorem Finishes.of_kept {initial text : List Char} {refused : List (Path × String)}
    {middle : Session} {bytes : List UInt8} (read : session.workspace.readBytes path = .ok bytes)
    (kept : ∀ bytes, middle.workspace.readBytes path = .ok bytes →
      after.workspace.readBytes path = .ok bytes)
    (finished : Finishes session path initial text refused middle) :
    Finishes session path initial text refused after where
  clean := finished.clean
  unchanged := fun same => by
    obtain ⟨absent, stays⟩ := finished.unchanged same
    exact ⟨absent, (kept bytes (stays.trans read)).trans read.symm⟩
  stored := fun changed accepted => by
    obtain ⟨absent, stands⟩ := finished.stored changed accepted
    exact ⟨absent, kept _ stands⟩
  refused := fun changed rejected => by
    obtain ⟨listed, stays⟩ := finished.refused changed rejected
    exact ⟨listed, (kept bytes (stays.trans read)).trans read.symm⟩

/-- Writing out after an execution that tracked a file. -/
theorem Commits.finishes {backup : Bool} {start executed state : RunState} {done steps : List Step}
    {initial text : List Char} {written : List Path} {refused : List (Path × String)}
    {middle committed : Session} {bytes : List UInt8}
    (fresh : FreshTag session steps) (source : IsSource session layout steps path)
    (read : session.workspace.readBytes path = .ok bytes)
    (within : ∀ step ∈ done, step ∈ steps) (empty : start.buffers = [])
    (execution : Executes backup start session done executed middle)
    (tracked : Tracks path initial executed middle.workspace text)
    (commitment : Commits executed middle executed.buffers state committed written refused) :
    Finishes session path initial text refused committed := by
  obtain ⟨_, mode, standing⟩ := Workspace.readBytes_eq_ok_iff.mp read
  have setting := execution.sameSetting
  obtain ⟨distinct, sources⟩ := execution.bufferPaths (by simp [empty])
  have origin : ∀ buffer ∈ executed.buffers, buffer.path.hasNull = false ∧
      ∃ step ∈ steps, fileKey? session.project step.file = some buffer.path := by
    intro buffer member
    rcases sources buffer.path (List.mem_map_of_mem member) with old | ⟨clean, step, among, known⟩
    · simp [empty] at old
    · exact ⟨clean, step, within step among, known⟩
  have ready : Replaceable middle path bytes := by
    have start : Replaceable session path bytes :=
      ⟨read, by rw [fresh.temporary_free]; simp⟩
    refine start.evolve setting (execution.evolves fun _ => False) ?_ id
    rintro ⟨step, member, key, known, same⟩
    exact source.notBackup ⟨step, within step member, key, known, same⟩
  have clear : IsClear middle executed.buffers path := by
    refine ⟨fun buffer member other same => ?_, fun buffer _ => ?_, fun buffer member => ?_⟩
    · obtain ⟨_, step, among, known⟩ := origin buffer member
      exact other (source.unaliased step among _ known same)
    · rw [setting.temporaryFor]
      exact fresh.temporary_ne standing _
    · obtain ⟨_, step, among, known⟩ := origin buffer member
      rw [setting.temporaryFor]
      exact fresh.not_passes among known _
  rcases tracked.buffered with ⟨absent, same⟩ | ⟨buffer, found, loaded, content⟩
  · obtain ⟨kept, unlisted⟩ := commitment.keeps ready.read clear (not_mem_bufferPaths absent)
    exact ⟨fun changed => absurd same changed, fun _ => ⟨unlisted, kept.trans read.symm⟩,
      fun changed => absurd same changed, fun changed => absurd same changed⟩
  · have here := RunState.path_of_buffer? found
    have member := List.mem_of_find?_eq_some found
    subst here
    have settled := commitment.settles (setting.hasPlainTag fresh.plain) (origin buffer member).1
      ready member distinct clear
    have again := settled.of_sameSetting setting
    subst loaded content
    refine ⟨fun _ => (origin buffer member).1, fun same => ?_, again.stored,
      fun changed rejected => ?_⟩
    · obtain ⟨unlisted, kept⟩ := again.unchanged same
      exact ⟨unlisted, kept.trans read.symm⟩
    · obtain ⟨listed, kept⟩ := again.refused changed rejected
      exact ⟨listed, kept.trans read.symm⟩

theorem ending_finishes {backup : Bool} {start executed state : RunState} {done steps : List Step}
    {initial text : List Char} {written files : List Path} {refused : List (Path × String)}
    {warnings : List String} {middle committed styled ready : Session} {bytes : List UInt8}
    (fresh : FreshTag session steps) (source : IsSource session layout steps path)
    (read : session.workspace.readBytes path = .ok bytes)
    (within : ∀ step ∈ done, step ∈ steps) (empty : start.buffers = [])
    (execution : Executes backup start session done executed middle)
    (tracked : Tracks path initial executed middle.workspace text)
    (commitment : Commits executed middle executed.buffers state committed written refused)
    (updating : updateStylesheet layout.stylesheet state written committed =
      .ok (files, warnings) styled)
    (quiet : styled.Quiet ready)
    (conclusion : conclude layout task state files warnings ready = .ok report after) :
    Finishes session path initial text refused after := by
  obtain ⟨_, mode, standing⟩ := Workspace.readBytes_eq_ok_iff.mp read
  have setting := execution.sameSetting.trans commitment.sameSetting
  apply (commitment.finishes fresh source read within empty execution tracked).of_kept read
  intro bytes stands
  refine (ending_evolves updating quiet conclusion).readBytes ?_ stands
  rintro ((temporary | target) | (temporary | target))
  · rw [setting.temporaryFor] at temporary
    exact fresh.temporary_ne standing _ temporary.symm
  · exact source.notStylesheet target
  · rw [setting.temporaryFor] at temporary
    exact fresh.temporary_ne standing _ temporary.symm
  · exact source.notCheckpoint target

theorem Applies.finishes {initial : List Char}
    (applies : Applies options layout task session report after)
    (fresh : FreshTag session task.steps) (source : IsSource session layout task.steps path)
    (readable : session.workspace.readText path = .ok (String.ofList initial)) :
    ∃ done cut outcomes refused, task.steps = done ++ cut ∧
      (options.interactive = false → cut = []) ∧
        report.results = outcomes.map (refuseAll session.project refused) ∧
          outcomes.map StepResult.subject = done.map Step.subject ∧
            Accounts initial (attemptedOn session.project path (done.zip outcomes)) ∧
              Finishes session path initial
                (editInOrder initial
                  ((attemptedOn session.project path (done.zip outcomes)).map Prod.fst))
                refused after := by
  cases applies with
  | @intro done cut executed state written files refused warnings _ _ middle committed styled
      ready _ split whole execution commitment updating _ _ quiet conclusion =>
      obtain ⟨bytes, _, read, _, _⟩ := Workspace.readText_eq_ok_iff.mp readable
      have within : ∀ step ∈ done, step ∈ task.steps := by
        intro step member
        rw [split]
        exact List.mem_append_left _ member
      have tracked : Tracks path initial (startState task.checkpoint) session.workspace initial :=
        ⟨readable, Or.inl ⟨by simp [RunState.buffer?, startState_buffers], rfl⟩⟩
      have apart : ∀ step ∈ done, ∀ key, fileKey? session.project step.file = some key →
          (key.withSuffix ".bak").place ≠ path.place := by
        intro step member key known same
        exact source.notBackup ⟨step, within step member, key, known, same.symm⟩
      obtain ⟨outcomes, results, subjects, accounted, trackedEnd⟩ :=
        execution.tracks apart tracked
      rw [startState_results, List.nil_append] at results
      obtain ⟨_, _, _, _, _, _, reported, _⟩ := conclude_eq_ok conclusion
      refine ⟨done, cut, outcomes, refused, split, whole, ?_, subjects, accounted, ?_⟩
      · rw [reported, commitment.results, results, execution.sameSetting.project]
      · exact ending_finishes fresh source read within (startState_buffers _) execution trackedEnd
          commitment updating quiet conclusion

/-- What results account for, said of each of them with the text that its step
meets. -/
theorem Accounts.each {text : List Char} {pairs : List (Step × StepResult)}
    (accounted : Accounts text pairs) {earlier later : List (Step × StepResult)} {step : Step}
    {result : StepResult} (whole : pairs = earlier ++ (step, result) :: later) :
    (result.status = .applied ↔
        ∃ edit, step.edit (editInOrder text (earlier.map Prod.fst)) = .ok (some edit)) ∧
      (result.status = .failed ↔
        step.edit (editInOrder text (earlier.map Prod.fst)) = .ok none) := by
  induction earlier generalizing text pairs with
  | nil =>
      subst whole
      exact ⟨accounted.1, accounted.2.1⟩
  | cons first earlier induction =>
      subst whole
      exact induction accounted.2.2 rfl

/-- Steps that were cut off have no results. -/
theorem zip_cut {done : List Step} {results : List StepResult}
    (aligned : results.length = done.length) (cut : List Step) :
    (done ++ cut).zip results = done.zip results := by
  have parts : (done ++ cut).zip (results ++ []) = done.zip results ++ cut.zip [] :=
    List.zip_append aligned.symm
  simpa using parts

theorem subject_of_zip {steps : List Step} {outcomes : List StepResult} {pair : Step × StepResult}
    (subjects : outcomes.map StepResult.subject = steps.map Step.subject)
    (member : pair ∈ steps.zip outcomes) : pair.2.subject = pair.1.subject := by
  obtain ⟨place, bound, rfl⟩ := List.mem_iff_getElem.mp member
  have heads := congrArg (·[place]?) subjects
  simp only [List.length_zip, Nat.lt_min] at bound
  simpa [bound.1, bound.2] using heads

/-- Steps that were cut off have no part in what was attempted. -/
theorem attemptedOn_cut {project : Path} {done : List Step} {results : List StepResult}
    (aligned : results.length = done.length) (cut : List Step) :
    attemptedOn project path ((done ++ cut).zip results) =
      attemptedOn project path (done.zip results) := by
  rw [zip_cut aligned]

/-- Refusals leave alone which steps were attempted. -/
theorem attemptedOn_refuseAll (project : Path) (refused : List (Path × String))
    (steps : List Step) (outcomes : List StepResult) :
    attemptedOn project path (steps.zip (outcomes.map (refuseAll project refused))) =
      (attemptedOn project path (steps.zip outcomes)).map
        (Prod.map id (refuseAll project refused)) := by
  have sameSkipped : ∀ result : StepResult,
      (refuseAll project refused result).status = .skipped ↔ result.status = .skipped := by
    intro result
    rw [refuseAll_status]
    split
    · rename_i found
      obtain ⟨_, _, applied, _⟩ := found
      simp [applied]
    · rfl
  unfold attemptedOn
  rw [List.zip_map_right, List.filter_map]
  congr 1
  apply List.filter_congr
  intro pair _
  simp [sameSkipped]

/-- The status of an attempted step after refusals: it stays unless its file was
refused, and then an applied step is a failure. -/
theorem refuseAll_status_of_key {project : Path} {refused : List (Path × String)}
    {result : StepResult} (key : fileKey? project result.file = some path) :
    (path ∉ refused.map Prod.fst →
        (refuseAll project refused result).status = result.status) ∧
      (path ∈ refused.map Prod.fst → result.status = .applied →
        (refuseAll project refused result).status = .failed) := by
  rw [refuseAll_status]
  constructor
  · intro unlisted
    rw [if_neg]
    rintro ⟨entry, member, _, known⟩
    rw [key] at known
    exact unlisted (Option.some.inj known ▸ List.mem_map_of_mem member)
  · intro listed applied
    obtain ⟨entry, member, same⟩ := List.mem_map.mp listed
    rw [if_pos ⟨entry, member, applied, by rw [same]; exact key⟩]

theorem key_of_attempted {project : Path} {steps : List Step} {outcomes : List StepResult}
    {pair : Step × StepResult}
    (subjects : outcomes.map StepResult.subject = steps.map Step.subject)
    (member : pair ∈ attemptedOn project path (steps.zip outcomes)) :
    fileKey? project pair.2.file = some path := by
  obtain ⟨zipped, attempted⟩ := List.mem_filter.mp member
  have file : pair.2.file = pair.1.file := congrArg (·.2.1) (subject_of_zip subjects zipped)
  rw [file]
  simpa using (of_decide_eq_true attempted).2

/-- What the results of a run say about a file is what its outcomes say, refusals
apart. -/
theorem attemptedOn_results {project : Path} (path : Path) {steps done cut : List Step}
    {results outcomes : List StepResult} {refused : List (Path × String)}
    (split : steps = done ++ cut) (reported : results = outcomes.map (refuseAll project refused))
    (subjects : outcomes.map StepResult.subject = done.map Step.subject) :
    attemptedOn project path (steps.zip results) =
      (attemptedOn project path (done.zip outcomes)).map
        (Prod.map id (refuseAll project refused)) := by
  have aligned : outcomes.length = done.length := by
    simpa using congrArg List.length subjects
  rw [split, attemptedOn_cut (by simp [reported, aligned]), reported, attemptedOn_refuseAll]

theorem subjects_begin {project : Path} {steps done cut : List Step}
    {results outcomes : List StepResult} {refused : List (Path × String)}
    (split : steps = done ++ cut) (reported : results = outcomes.map (refuseAll project refused))
    (subjects : outcomes.map StepResult.subject = done.map Step.subject) :
    results.map StepResult.subject <+: steps.map Step.subject := by
  rw [reported, split, subjects_refuseAll, subjects, List.map_append]
  exact List.prefix_append _ _

/-- What a run reports of an attempt on a file is what the execution found in the
text that the step met, refusals apart. -/
theorem attemptedOn_each {project : Path} {initial : List Char} {steps done cut : List Step}
    {results outcomes : List StepResult} {refused : List (Path × String)}
    {earlier later : List (Step × StepResult)} {step : Step} {result : StepResult}
    (split : steps = done ++ cut) (reported : results = outcomes.map (refuseAll project refused))
    (subjects : outcomes.map StepResult.subject = done.map Step.subject)
    (accounted : Accounts initial (attemptedOn project path (done.zip outcomes)))
    (whole : attemptedOn project path (steps.zip results) = earlier ++ (step, result) :: later) :
    ∃ old, result = refuseAll project refused old ∧ fileKey? project old.file = some path ∧
      (old.status = .applied ↔
          ∃ edit, step.edit (editInOrder initial (earlier.map Prod.fst)) = .ok (some edit)) ∧
        (old.status = .failed ↔
          step.edit (editInOrder initial (earlier.map Prod.fst)) = .ok none) := by
  rw [attemptedOn_results path split reported subjects] at whole
  obtain ⟨before, rest, parts, rfl, tail⟩ := List.map_eq_append_iff.mp whole
  obtain ⟨⟨first, old⟩, after, rfl, head, rfl⟩ := List.map_eq_cons_iff.mp tail
  cases head
  have member : (first, old) ∈ attemptedOn project path (done.zip outcomes) := by
    rw [parts]
    simp
  have earlierSteps : (before.map (Prod.map id (refuseAll project refused))).map Prod.fst =
      before.map Prod.fst := by
    rw [List.map_map]
    rfl
  rw [earlierSteps]
  exact ⟨old, rfl, key_of_attempted subjects member, accounted.each parts⟩

theorem run_finishes {initial : List Char} (applying : options.apply = true)
    (returned : run options layout index session = .ok report after)
    (prepared : prepare options layout session = .ok task started)
    (fresh : FreshTag session task.steps) (source : IsSource session layout task.steps path)
    (readable : session.workspace.readText path = .ok (String.ofList initial)) :
    ∃ done cut outcomes refused, task.steps = done ++ cut ∧
      report.results = outcomes.map (refuseAll session.project refused) ∧
        outcomes.map StepResult.subject = done.map Step.subject ∧
          Accounts initial (attemptedOn session.project path (done.zip outcomes)) ∧
            Finishes session path initial
              (editInOrder initial
                ((attemptedOn session.project path (done.zip outcomes)).map Prod.fst))
              refused after := by
  obtain ⟨other, again, same, course⟩ := run_cases applying returned
  rw [prepared] at same
  cases same
  have quiet := (prepare_eq_ok prepared).2
  rcases course with ⟨none, rfl, rfl⟩ | ⟨_, applies⟩
  · refine ⟨[], [], [], [], none, rfl, rfl, trivial, ?_⟩
    exact ⟨fun changed => absurd rfl changed, fun _ => ⟨by simp, by rw [quiet.workspace]⟩,
      fun changed => absurd rfl changed, fun changed => absurd rfl changed⟩
  · obtain ⟨done, cut, outcomes, refused, split, _, results, subjects, accounted, finished⟩ :=
      applies.finishes (fresh.of_quiet quiet) (source.of_quiet quiet)
        (by rw [quiet.workspace]; exact readable)
    rw [quiet.project] at results accounted finished
    refine ⟨done, cut, outcomes, refused, split, results, subjects, accounted, ?_⟩
    refine ⟨finished.clean, fun unchanged => ?_, fun changed accepted => ?_,
      fun changed rejected => ?_⟩
    · rw [← quiet.workspace]
      exact finished.unchanged unchanged
    · exact finished.stored changed (quiet.accepts accepted)
    · rw [← quiet.workspace]
      exact finished.refused changed fun accepted => rejected (quiet.symm.accepts accepted)

/-- A run that returns leaves each of its source files with the text that the
steps on it make of the text it had, one after the other: a step that was
skipped or cut off has no part in it, nor has a step on another file.  A step is
applied if its edit was found in the text it met, and failed if not.  When the
file has to be written and cannot be, it keeps its bytes, and every step whose
edit was found is failed. -/
theorem run_edits_in_order {initial : String} (applying : options.apply = true)
    (returned : run options layout index session = .ok report after)
    (prepared : prepare options layout session = .ok task started)
    (fresh : FreshTag session task.steps) (source : IsSource session layout task.steps path)
    (readable : session.workspace.readText path = .ok initial) :
    let attempted := attemptedOn session.project path (task.steps.zip report.results)
    let text := editInOrder initial.toList (attempted.map Prod.fst)
    let written := ∃ later, Activity.writeFile path (String.ofList text) session = .ok () later
    report.results.map StepResult.subject <+: task.steps.map Step.subject ∧
      (text = initial.toList ∨ written →
        after.workspace.readBytes path =
            (if text = initial.toList then session.workspace.readBytes path
              else .ok (Text.encode text)) ∧
          ∀ earlier step result later, attempted = earlier ++ (step, result) :: later →
            let met := editInOrder initial.toList (earlier.map Prod.fst)
            (result.status = .applied ↔ ∃ edit, step.edit met = .ok (some edit)) ∧
              (result.status = .failed ↔ step.edit met = .ok none)) ∧
        (text ≠ initial.toList ∧ ¬ written →
          after.workspace.readBytes path = session.workspace.readBytes path ∧
            ∀ earlier step result later, attempted = earlier ++ (step, result) :: later →
              let met := editInOrder initial.toList (earlier.map Prod.fst)
              ∀ edit, step.edit met = .ok (some edit) → result.status = .failed) := by
  have readableList : session.workspace.readText path =
      .ok (String.ofList initial.toList) := by
    rw [String.ofList_toList]
    exact readable
  obtain ⟨done, cut, outcomes, refused, split, results, subjects, accounted, finished⟩ :=
    run_finishes applying returned prepared fresh source readableList
  have steps : (attemptedOn session.project path (task.steps.zip report.results)).map Prod.fst =
      (attemptedOn session.project path (done.zip outcomes)).map Prod.fst := by
    rw [attemptedOn_results path split results subjects, List.map_map]
    rfl
  obtain ⟨bytes, _, read, _, _⟩ := Workspace.readText_eq_ok_iff.mp readable
  dsimp only
  rw [steps]
  generalize editInOrder initial.toList
    ((attemptedOn session.project path (done.zip outcomes)).map Prod.fst) = text at finished ⊢
  have writable : text ≠ initial.toList →
      ((∃ later, Activity.writeFile path (String.ofList text) session = .ok () later) ↔
        session.Accepts path) := by
    intro changed
    constructor
    · rintro ⟨later, success⟩
      exact Activity.accepts_of_writeFile fresh.plain (finished.clean changed) read success
    · exact Activity.writeFile_of_accepts fresh.plain (finished.clean changed) read
        (by rw [fresh.temporary_free]; simp)
  refine ⟨subjects_begin split results subjects, ?_, ?_⟩
  · intro ending
    have outcome : path ∉ refused.map Prod.fst ∧ after.workspace.readBytes path =
        if text = initial.toList then session.workspace.readBytes path
        else .ok (Text.encode text) := by
      by_cases unchanged : text = initial.toList
      · rw [if_pos unchanged]
        exact finished.unchanged unchanged
      · rw [if_neg unchanged]
        exact finished.stored unchanged
          ((writable unchanged).mp (ending.resolve_left unchanged))
    refine ⟨outcome.2, fun earlier step result later whole => ?_⟩
    obtain ⟨old, rfl, key, each⟩ := attemptedOn_each split results subjects accounted whole
    rw [(refuseAll_status_of_key key).1 outcome.1]
    exact each
  · rintro ⟨changed, unwritten⟩
    obtain ⟨listed, kept⟩ := finished.refused changed fun accepted =>
      unwritten ((writable changed).mpr accepted)
    refine ⟨kept, fun earlier step result later whole edit found => ?_⟩
    obtain ⟨old, rfl, key, applied, _⟩ := attemptedOn_each split results subjects accounted whole
    exact (refuseAll_status_of_key key).2 listed (applied.mpr ⟨edit, found⟩)

theorem FreshTag.of_entries {steps : List Step} (plain : session.HasPlainTag)
    (unused : ∀ pair ∈ session.workspace.entries, session.temporaryName ∉ pair.1)
    (unnamed : ∀ step ∈ steps, ∀ key, fileKey? session.project step.file = some key →
      session.temporaryName ∉ key.names) : FreshTag session steps where
  plain := plain
  unused := by
    intro place entry standing
    rcases Workspace.mem_of_get? standing with rfl | member
    · exact List.not_mem_nil
    · exact unused (place, entry) member
  unnamed := unnamed

theorem spread_fresh : FreshTag spreadProject spreadTask.steps := by
  apply FreshTag.of_entries (by decide)
  · exact (by decide : ∀ pair ∈ spreadProject.workspace.entries,
      spreadProject.temporaryName ∉ pair.1)
  · intro step member key known
    exact (by decide : ∀ key ∈ spreadFiles, spreadProject.temporaryName ∉ key.names) key
      (spread_key member known)

theorem spread_source (listed : path ∈ spreadFiles) :
    IsSource spreadProject smallLayout spreadTask.steps path := by
  have apart : ∀ path ∈ spreadFiles, path.place ≠ smallLayout.stylesheet.place ∧
      path.place ≠ smallLayout.checkpoint.place ∧ ∀ key ∈ spreadFiles,
        (key.place = path.place → key = path) ∧ path.place ≠ (key.withSuffix ".bak").place := by
    decide
  obtain ⟨notStylesheet, notCheckpoint, others⟩ := apart path listed
  refine ⟨fun step member key known => ?_, notStylesheet, notCheckpoint, ?_⟩
  · exact (others key (spread_key member known)).1
  · rintro ⟨step, member, key, known, same⟩
    exact (others key (spread_key member known)).2 same

/-- What is seen of a run of that project: how its steps end, and the texts that they make of
its files. -/
def spreadView (task : Task) (report : RunReport) (_ : Session) :
    List StepStatus × List (List Char) :=
  (report.results.map StepResult.status, spreadFiles.map fun path => editInOrder "x y z".toList
    ((attemptedOn spreadProject.project path (task.steps.zip report.results)).map Prod.fst))

theorem spread_observed :
    observe { apply := true } smallLayout .absent spreadProject spreadView =
      some ([.applied, .failed, .skipped, .failed, .applied],
        ["y z".toList, "x bg-(--t) z".toList, "y z".toList]) := by
  rw [observe_of_prepared (spread_prepares true)]
  decide +kernel

/-- The first two files are written, and the third is refused. -/
theorem run_edits_in_order_spread :
    ∃ report after, run { apply := true } smallLayout .absent spreadProject = .ok report after ∧
      report.results.map StepResult.status = [.applied, .failed, .skipped, .failed, .applied] ∧
        after.workspace.readBytes ⟨.root, ["p", "f"]⟩ = .ok (Text.encode "y z".toList) ∧
        after.workspace.readBytes ⟨.root, ["p", "g"]⟩ =
          .ok (Text.encode "x bg-(--t) z".toList) ∧
        after.workspace.readBytes ⟨.root, ["p", "h"]⟩ = .ok (Text.encode "x y z".toList) := by
  obtain ⟨task, started, report, after, prepared, returned, seen⟩ :=
    observe_eq_some spread_observed
  cases (spread_prepares true).symm.trans prepared
  obtain ⟨statuses, texts⟩ := Prod.mk.inj seen
  have read : ∀ path ∈ spreadFiles, spreadProject.workspace.readBytes path =
      .ok (Text.encode "x y z".toList) := by
    decide +kernel
  have readable : ∀ path ∈ spreadFiles, spreadProject.workspace.readText path = .ok "x y z" :=
    fun path listed =>
      Workspace.readText_eq_ok_iff.mpr ⟨_, "x y z".toList, read path listed, rfl, rfl⟩
  have edits : ∀ path ∈ spreadFiles, _ := fun path listed =>
    run_edits_in_order rfl returned prepared spread_fresh (spread_source listed)
      (readable path listed)
  have written : ∀ path ∈ spreadFiles, spreadProject.trouble path = none → ∀ text,
      ∃ later, Activity.writeFile path text spreadProject = .ok () later := by
    intro path listed free text
    have short : ∀ path ∈ spreadFiles, path.hasNull = false ∧
        (Activity.temporaryFor spreadProject path).toString.utf8ByteSize <
          Workspace.pathLimit := by
      decide
    exact Activity.writeFile_of_accepts spread_fresh.plain (short path listed).1 (read path listed)
      (by rw [spread_fresh.temporary_free]; simp) ⟨free, (short path listed).2, by decide⟩
  simp only [spreadFiles, List.map_cons, List.map_nil, List.cons.injEq, and_true] at texts
  obtain ⟨first, second, third⟩ := texts
  refine ⟨report, after, returned, statuses, ?_, ?_, ?_⟩
  · obtain ⟨_, ending, _⟩ := edits ⟨.root, ["p", "f"]⟩ (by decide)
    rw [first] at ending
    exact (ending (Or.inr (written _ (by decide) rfl _))).1
  · obtain ⟨_, ending, _⟩ := edits ⟨.root, ["p", "g"]⟩ (by decide)
    rw [second] at ending
    exact (ending (Or.inr (written _ (by decide) rfl _))).1
  · obtain ⟨_, _, refusal⟩ := edits ⟨.root, ["p", "h"]⟩ (by decide)
    rw [third] at refusal
    have unwritten : ¬ ∃ later, Activity.writeFile ⟨.root, ["p", "h"]⟩ (String.ofList "y z".toList)
        spreadProject = .ok () later := by
      rintro ⟨later, success⟩
      cases (Activity.accepts_of_writeFile spread_fresh.plain rfl (read _ (by decide))
        success).noTrouble
    exact (refusal ⟨by decide, unwritten⟩).1.trans (read _ (by decide))

end Migration

end Restyle
