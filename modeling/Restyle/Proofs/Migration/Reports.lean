import Restyle.Proofs.Migration.Courses
import Restyle.Proofs.Migration.FailedRuns
import Restyle.Proofs.Migration.Previews
import Restyle.Proofs.Migration.Tallies

/-!
# What a run reports

A run that returns after changing files reports on the steps that it went
through.  Its report, the checkpoint that it saves and its totals tell the same
about each of them, and the files that it counts are those that it has written.
-/

namespace Restyle

namespace Migration

open Activity

variable {options : MigrationOptions} {layout : Layout} {index : IndexRebuild} {task : Task}
  {report : RunReport} {state : RunState} {session started middle after : Session}
  {written files : List Path} {warnings : List String}

/-- A checkpoint that a run has saved, the checkpoint file never having been
written by anything else. -/
def SavedByRun (layout : Layout) (checkpoint : Checkpoint) : Prop :=
  ∃ calls, History layout calls ∧ ∃ call ∈ calls, call.saved? layout = some checkpoint

/-- A run that starts from nothing, or from what a run has saved, starts with
different identifiers. -/
theorem startState_distinct {checkpoint : Option Checkpoint}
    (own : ∀ saved, checkpoint = some saved → SavedByRun layout saved) :
    (startState checkpoint).lists.Distinct := by
  cases checkpoint with
  | none => exact Lists.distinct_empty
  | some saved =>
      obtain ⟨calls, history, call, member, saves⟩ := own saved rfl
      exact history.distinct call member saved saves

/-- Whether the results of a report, its totals and a checkpoint tell the same of
some steps, given the lists from before. -/
structure Tallies (steps : List Step) (start : Lists) (report : RunReport) (saved : Checkpoint) :
    Prop where
  subjects : report.results.map StepResult.subject <+: steps.map Step.subject
  once : (report.results.map (·.stepId)).Pairwise fun first second =>
    Json.same first second = false
  total : report.summary.total = report.results.length
  applied : report.summary.applied = countOf .applied report.results
  skipped : report.summary.skipped = countOf .skipped report.results
  failed : report.summary.failed = countOf .failed report.results
  whole : report.summary.applied + report.summary.skipped + report.summary.failed =
    report.summary.total
  listed : ∀ result ∈ report.results, ∀ which, which ≠ .pending →
    (result.stepId.isAmong (saved.lists.bucket which) = true ↔ result.status = which)
  others : ∀ id, (∀ result ∈ report.results, Json.same result.stepId id = false) →
    ∀ which, id.isAmong (saved.lists.bucket which) = id.isAmong (start.bucket which)

/-- Whether declarations are added to a stylesheet. -/
def IsRestyled (stylesheet : Path) (state : RunState) (session : Session) : Prop :=
  (state.utilityBlocks ≠ [] ∨ state.tokenDeclarations ≠ []) ∧
    ∃ after, appendDeclarations stylesheet state session = .ok () after

/-- Whether a run writes its files side by side: its temporary files are new, and
its checkpoint is neither the stylesheet nor the file of a step. -/
structure IsKeptApart (session : Session) (layout : Layout) (steps : List Step) : Prop where
  fresh : FreshTag session steps
  unnamed : session.temporaryName ∉ layout.stylesheet.place
  stylesheet : layout.stylesheet.place ≠ layout.checkpoint.place
  files : ∀ step ∈ steps, ∀ key, fileKey? session.project step.file = some key →
    key.place ≠ layout.checkpoint.place

/-- What stands on disk after a run: in each of the sources what its buffer held, and in
the stylesheet the declarations after what it held before, if there are any. -/
structure StandsOnDisk (layout : Layout) (executed state : RunState) (sources : List Path)
    (committed after : Session) : Prop where
  sources : ∀ buffer ∈ executed.buffers, buffer.path ∈ sources →
    after.workspace.readBytes buffer.path = .ok (Text.encode buffer.content)
  restyled : IsRestyled layout.stylesheet state committed →
    after.workspace.readBytes layout.stylesheet = .ok (Text.encode
      (restyled (textAt committed.workspace layout.stylesheet) state.tokenDeclarations
        state.utilityBlocks).toList)
  unstyled : ¬ IsRestyled layout.stylesheet state committed →
    committed.workspace.Keeps after.workspace layout.stylesheet.place

/-- What a run counts as changed files: those that it has written out, and one
more when it has added to the stylesheet.  `sources` are the files that were
written, each a file with a changed buffer and an applied result. -/
structure CountsFiles (options : MigrationOptions) (layout : Layout) (task : Task)
    (session : Session) (report : RunReport) (executed state : RunState) (sources : List Path)
    (middle committed after : Session) : Prop where
  executes : executeAll options (startState task.checkpoint) task.steps session =
    .ok executed middle
  commits : commit executed [] executed.buffers middle = .ok (state, sources) committed
  apart : (sources.map Path.place).Nodup
  written : ∀ path, path ∈ sources ↔ ∃ buffer ∈ executed.buffers, buffer.path = path ∧
    IsWritten session.project report.results buffer
  restyled : IsRestyled layout.stylesheet state committed →
    report.summary.filesChanged = sources.length + 1
  unstyled : ¬ IsRestyled layout.stylesheet state committed →
    report.summary.filesChanged = sources.length
  warned : IsRestyled layout.stylesheet state committed ↔
    (state.utilityBlocks ≠ [] ∨ state.tokenDeclarations ≠ []) ∧ report.warnings = []
  standing : IsKeptApart session layout task.steps →
    StandsOnDisk layout executed state sources committed after

/-- A stylesheet that was not written yet is counted if declarations are added. -/
theorem updateStylesheet_counts {stylesheet : Path}
    (success : updateStylesheet stylesheet state written session = .ok (files, warnings) after)
    (other : stylesheet ∉ written) :
    (IsRestyled stylesheet state session → files.length = written.length + 1) ∧
      (¬ IsRestyled stylesheet state session → files.length = written.length) ∧
      (IsRestyled stylesheet state session ↔
        (state.utilityBlocks ≠ [] ∨ state.tokenDeclarations ≠ []) ∧ warnings = []) := by
  cases updateStylesheet_updates success with
  | nothing none => simp [IsRestyled, none.1, none.2]
  | appended some success =>
      have declared : state.utilityBlocks ≠ [] ∨ state.tokenDeclarations ≠ [] := by
        simpa only [not_and_or, or_comm] using some
      have restyled : IsRestyled stylesheet state session := ⟨declared, _, success⟩
      refine ⟨fun _ => ?_, fun not => absurd restyled not, fun _ => ⟨declared, rfl⟩,
        fun _ => restyled⟩
      simp [other]
  | warned some stop quiet =>
      have unstyled : ¬ IsRestyled stylesheet state session := by
        rintro ⟨_, wrote, appended⟩
        rw [stop] at appended
        cases appended
      refine ⟨fun styled => absurd styled unstyled, fun _ => rfl,
        fun styled => absurd styled unstyled, fun silent => ?_⟩
      cases silent.2

theorem conclude_totals
    (success : conclude layout task state files warnings session = .ok report after) :
    report.summary = RunSummary.ofResults state.results files.length ∧
      report.warnings = warnings := by
  unfold conclude at success
  obtain ⟨stamp, _, stamped, rest⟩ := bind_eq_ok.mp success
  obtain ⟨_, _, saved, rest⟩ := bind_eq_ok.mp rest
  obtain ⟨rfl, _⟩ := pure_eq_ok.mp rest
  exact ⟨rfl, rfl⟩

/-- A stored file keeps its applied results, and a refused one has none. -/
theorem isWritten_refuseAll {project : Path} {refused : List (Path × String)}
    {results : List StepResult} {buffer : Buffer} :
    IsWritten project (results.map (refuseAll project refused)) buffer ↔
      IsWritten project results buffer ∧ buffer.path ∉ refused.map Prod.fst := by
  constructor
  · rintro ⟨changed, result, member, applied, known⟩
    obtain ⟨old, among, rfl⟩ := List.mem_map.mp member
    rw [refuseAll_file] at known
    by_cases listed : buffer.path ∈ refused.map Prod.fst
    · exfalso
      by_cases before : old.status = .applied
      · rw [(refuseAll_status_of_key known).2 listed before] at applied
        cases applied
      · rw [refuseAll_status] at applied
        split at applied
        · cases applied
        · exact before applied
    · rw [(refuseAll_status_of_key known).1 listed] at applied
      exact ⟨⟨changed, old, among, applied, known⟩, listed⟩
  · rintro ⟨⟨changed, result, member, applied, known⟩, unlisted⟩
    refine ⟨changed, _, List.mem_map_of_mem member, ?_, ?_⟩
    · rw [(refuseAll_status_of_key known).1 unlisted]
      exact applied
    · rw [refuseAll_file]
      exact known

theorem Commits.written_buffers {executed final : RunState} {last : Session}
    {buffers : List Buffer} {refused : List (Path × String)}
    (committed : Commits executed session buffers final last written refused)
    (distinct : (buffers.map Buffer.path).Nodup) {path : Path} (member : path ∈ written) :
    path ∈ buffers.map Buffer.path := by
  rw [committed.written_eq distinct] at member
  exact (List.filter_sublist.map _).subset member

/-- A buffer that was written stands in its file. -/
theorem Commits.stands {executed final : RunState} {last : Session} {buffers : List Buffer}
    {refused : List (Path × String)}
    (committed : Commits executed session buffers final last written refused)
    (distinct : (buffers.map Buffer.path).Nodup)
    (clear : ∀ buffer ∈ buffers, IsClear session buffers buffer.path) :
    ∀ buffer ∈ buffers, buffer.path ∈ written →
      last.workspace.readBytes buffer.path = .ok (Text.encode buffer.content) := by
  induction committed with
  | nil => simp
  | unchanged same later induction =>
      obtain ⟨new, distinctLater⟩ := List.nodup_cons.mp distinct
      intro buffer member listed
      rcases List.mem_cons.mp member with rfl | among
      · exact absurd (later.written_buffers distinctLater listed) new
      · exact induction distinctLater (fun other found =>
          (clear other (List.mem_cons_of_mem _ found)).tail (.refl _)) buffer among listed
  | @stored _ _ _ _ _ _ head _ _ _ changed success quiet later induction =>
      obtain ⟨new, distinctLater⟩ := List.nodup_cons.mp distinct
      obtain ⟨setting, _, stands⟩ := Activity.writeFile_ok success
      have settingNext := setting.trans quiet.toSameSetting
      intro buffer member listed
      rcases List.mem_cons.mp member with rfl | among
      · rw [← quiet.workspace, String.toList_ofList] at stands
        exact (later.keeps stands ((clear _ List.mem_cons_self).tail settingNext) new).1
      · have apart : buffer.path ≠ head.path := fun same => new (same ▸ List.mem_map_of_mem among)
        exact induction distinctLater (fun other found =>
          (clear other (List.mem_cons_of_mem _ found)).tail settingNext) buffer among
            ((List.mem_cons.mp listed).resolve_left apart)
  | refused changed stop quiet later induction =>
      obtain ⟨new, distinctLater⟩ := List.nodup_cons.mp distinct
      have settingNext := (Activity.writeFile_error stop).1.trans quiet.toSameSetting
      intro buffer member listed
      rcases List.mem_cons.mp member with rfl | among
      · exact absurd (later.written_buffers distinctLater listed) new
      · exact induction distinctLater (fun other found =>
          (clear other (List.mem_cons_of_mem _ found)).tail settingNext) buffer among listed

/-- The end of a run writes the stylesheet if there are declarations and nothing is in
the way. -/
theorem ending_restyles {committed styled ready : Session}
    (updating : updateStylesheet layout.stylesheet state written committed =
      .ok (files, warnings) styled)
    (quiet : styled.Quiet ready)
    (conclusion : conclude layout task state files warnings ready = .ok report after)
    (plain : committed.HasPlainTag) (unnamed : committed.temporaryName ∉ layout.stylesheet.place)
    (apart : layout.stylesheet.place ≠ layout.checkpoint.place) :
    (IsRestyled layout.stylesheet state committed →
        after.workspace.readBytes layout.stylesheet = .ok (Text.encode
          (restyled (textAt committed.workspace layout.stylesheet) state.tokenDeclarations
            state.utilityBlocks).toList)) ∧
      (¬ IsRestyled layout.stylesheet state committed →
        committed.workspace.Keeps after.workspace layout.stylesheet.place) := by
  have beside : ∀ target, layout.stylesheet.place ≠
      (Activity.temporaryFor committed target).place := by
    intro target same
    apply unnamed
    rw [same, Session.temporaryFor_place plain]
    simp
  obtain ⟨_, _, _, _, saving, ended, _⟩ := conclude_eq_ok conclusion
  obtain ⟨_, saved, _⟩ := Activity.writeFile_ok saving
  rw [← ended.workspace, quiet.workspace, ((updateStylesheet_evolves updating).1.trans
    quiet.toSameSetting).temporaryFor] at saved
  have untouched := not_or.mpr ⟨beside layout.checkpoint, apart⟩
  cases updateStylesheet_updates updating with
  | nothing none =>
      refine ⟨fun styled => ?_, fun _ => saved.keepsOther _ untouched⟩
      simp [IsRestyled, none.1, none.2] at styled
  | appended some success =>
      obtain ⟨wrote, writing, noted⟩ := appendDeclarations_eq_ok success
      refine ⟨fun _ => saved.readBytes untouched ?_, fun plain => absurd ?_ plain⟩
      · rw [noted.workspace]
        exact (Activity.writeFile_ok writing).2.2
      · exact ⟨by simpa only [not_and_or, or_comm] using some, _, success⟩
  | warned some stop calm =>
      obtain ⟨_, tried, _⟩ := appendDeclarations_error stop
      rw [← calm.workspace] at tried
      refine ⟨fun styled => ?_, fun _ => ?_⟩
      · obtain ⟨_, wrote, appended⟩ := styled
        rw [stop] at appended
        cases appended
      · exact Workspace.Keeps.trans (tried.keepsOther _ (beside _))
          (saved.keepsOther _ untouched)

theorem standsOnDisk_of_parts {backup : Bool} {start executed : RunState} {done steps : List Step}
    {sources : List Path} {refused : List (Path × String)} {committed styled ready : Session}
    (kept : IsKeptApart session layout steps) (within : ∀ step ∈ done, step ∈ steps)
    (empty : start.buffers = [])
    (execution : Executes backup start session done executed middle)
    (commitment : Commits executed middle executed.buffers state committed sources refused)
    (updating : updateStylesheet layout.stylesheet state sources committed =
      .ok (files, warnings) styled)
    (quiet : styled.Quiet ready)
    (conclusion : conclude layout task state files warnings ready = .ok report after)
    (unaliased : ∀ first ∈ done, ∀ second ∈ done, ∀ key other,
      fileKey? session.project first.file = some key →
        fileKey? session.project second.file = some other → key.place = other.place → key = other)
    (apart : ∀ step ∈ done, ∀ key, fileKey? session.project step.file = some key →
      key.place ≠ layout.stylesheet.place) :
    StandsOnDisk layout executed state sources committed after := by
  obtain ⟨distinct, keyed⟩ := execution.bufferPaths (by simp [empty])
  have origin : ∀ buffer ∈ executed.buffers,
      ∃ step ∈ done, fileKey? session.project step.file = some buffer.path := by
    intro buffer member
    have stands := keyed buffer.path (List.mem_map_of_mem member)
    rw [empty] at stands
    exact (stands.resolve_left List.not_mem_nil).2
  have setting := execution.sameSetting
  have whole := setting.trans commitment.sameSetting
  have beside : ∀ buffer ∈ executed.buffers, ∀ target,
      (Activity.temporaryFor session target).place ≠ buffer.path.place := by
    intro buffer member target same
    obtain ⟨step, among, known⟩ := origin buffer member
    apply kept.fresh.unnamed step (within step among) buffer.path known
    apply Path.mem_place
    rw [← same, Session.temporaryFor_place kept.fresh.plain]
    simp
  have clear : ∀ buffer ∈ executed.buffers, IsClear middle executed.buffers buffer.path := by
    intro buffer member
    obtain ⟨step, among, known⟩ := origin buffer member
    refine ⟨fun other found differs same => ?_, fun other _ => ?_, fun other found => ?_⟩
    · obtain ⟨second, listed, named⟩ := origin other found
      exact differs (unaliased second listed step among _ _ named known same)
    · rw [setting.temporaryFor]
      exact beside buffer member other.path
    · obtain ⟨second, listed, named⟩ := origin other found
      rw [setting.temporaryFor]
      exact kept.fresh.not_passes (within second listed) named _
  obtain ⟨restyles, leaves⟩ := ending_restyles updating quiet conclusion
    (whole.hasPlainTag kept.fresh.plain) (whole.temporaryName ▸ kept.unnamed) kept.stylesheet
  refine ⟨fun buffer member written => ?_, restyles, leaves⟩
  have stands := commitment.stands distinct clear buffer member written
  obtain ⟨step, among, known⟩ := origin buffer member
  refine (ending_evolves updating quiet conclusion).readBytes ?_ stands
  rintro ((temporary | target) | (temporary | target))
  · rw [whole.temporaryFor] at temporary
    exact beside buffer member _ temporary.symm
  · exact apart step among _ known target
  · rw [whole.temporaryFor] at temporary
    exact beside buffer member _ temporary.symm
  · exact kept.files step (within step among) _ known target

theorem countsFiles_of_parts {executed : RunState} {done : List Step} {sources : List Path}
    {refused : List (Path × String)} {committed styled : Session}
    (executing : executeAll options (startState task.checkpoint) task.steps session =
      .ok executed middle)
    (committing : commit executed [] executed.buffers middle = .ok (state, sources) committed)
    (execution : Executes options.backup (startState task.checkpoint) session done executed middle)
    (commitment : Commits executed middle executed.buffers state committed sources refused)
    (updating : updateStylesheet layout.stylesheet state sources committed =
      .ok (files, warnings) styled)
    (standing : IsKeptApart session layout task.steps →
      StandsOnDisk layout executed state sources committed after)
    (results : report.results = executed.results.map (refuseAll middle.project refused))
    (counted : report.summary.filesChanged = files.length) (warned : report.warnings = warnings)
    (unaliased : ∀ first ∈ done, ∀ second ∈ done, ∀ key other,
      fileKey? session.project first.file = some key →
        fileKey? session.project second.file = some other → key.place = other.place → key = other)
    (apart : ∀ step ∈ done, ∀ key, fileKey? session.project step.file = some key →
      key.place ≠ layout.stylesheet.place) :
    CountsFiles options layout task session report executed state sources middle committed
      after := by
  have empty : (startState task.checkpoint).buffers = [] := startState_buffers _
  obtain ⟨distinct, keyed⟩ := execution.bufferPaths (by simp [empty])
  have listed := commitment.written_eq distinct
  have named : ∀ path ∈ sources, ∃ step ∈ done, fileKey? session.project step.file = some path := by
    intro path member
    rw [listed] at member
    obtain ⟨buffer, among, rfl⟩ := List.mem_map.mp member
    have stands := keyed buffer.path (List.mem_map_of_mem (List.mem_of_mem_filter among))
    rw [empty] at stands
    exact (stands.resolve_left List.not_mem_nil).2
  have unstyled : layout.stylesheet ∉ sources := by
    intro member
    obtain ⟨step, among, known⟩ := named _ member
    exact apart step among _ known rfl
  obtain ⟨more, same, restyles⟩ := updateStylesheet_counts updating unstyled
  refine ⟨executing, committing, ?_, fun path => ?_, fun styled => ?_, fun plain => ?_,
    warned ▸ restyles, standing⟩
  · refine (List.Nodup.map_on ?_) (listed ▸ distinct.sublist (List.filter_sublist.map _))
    intro first member second among place
    obtain ⟨step, listedStep, known⟩ := named first member
    obtain ⟨other, listedOther, knownOther⟩ := named second among
    exact unaliased step listedStep other listedOther first second known knownOther place
  · have edits := execution.edits (by simp [empty])
    rw [results, listed, List.mem_map]
    rw [← execution.sameSetting.project] at edits ⊢
    constructor
    · rintro ⟨buffer, among, rfl⟩
      obtain ⟨member, kept⟩ := List.mem_filter.mp among
      obtain ⟨changed, accepted⟩ := of_decide_eq_true kept
      exact ⟨buffer, member, rfl, isWritten_refuseAll.mpr ⟨edits buffer member changed, accepted⟩⟩
    · rintro ⟨buffer, member, rfl, written⟩
      obtain ⟨⟨changed, _⟩, accepted⟩ := isWritten_refuseAll.mp written
      exact ⟨buffer, List.mem_filter.mpr ⟨member, decide_eq_true ⟨changed, accepted⟩⟩, rfl⟩
  · rw [counted, more styled]
    rfl
  · rw [counted, same plain]

theorem applying_of_applied (returned : run options layout index session = .ok report after)
    (reported : report.applied = true) : options.apply = true := by
  cases applying : options.apply with
  | true => rfl
  | false =>
      rw [(preview_claims_nothing applying returned).1] at reported
      cases reported

theorem busy_of_applied (returned : run options layout index session = .ok report after)
    (reported : report.applied = true)
    (prepared : prepare options layout session = .ok task started) : task.steps ≠ [] := by
  intro idle
  rw [run_of_prepared prepared] at returned
  unfold perform at returned
  rw [idle] at returned
  obtain ⟨rfl, _⟩ := pure_eq_ok.mp returned
  cases reported

theorem tallies_of_mirrors {steps : List Step} {start : Lists} {saved : Checkpoint} {count : Nat}
    (subjects : report.results.map StepResult.subject <+: steps.map Step.subject)
    (summary : report.summary = RunSummary.ofResults report.results count)
    (mirrors : Mirrors start report.results saved.lists)
    (decided : ∀ result ∈ report.results, result.status ≠ .pending) :
    Tallies steps start report saved := by
  obtain ⟨total, _, applied, failed, skipped⟩ :=
    foldl_count report.results { total := report.results.length, filesChanged := count }
  have counted : report.summary =
      report.results.foldl RunSummary.count
        { total := report.results.length, filesChanged := count } := summary
  rw [← counted] at total applied failed skipped
  simp only [Int.zero_add] at total applied failed skipped
  have whole := countOf_whole decided
  refine ⟨subjects, ?_, total, applied, skipped, failed, by omega, ?_, mirrors.others⟩
  · have apart := List.pairwise_map.mp mirrors.distinct
    refine List.pairwise_map.mpr (apart.imp_of_mem fun {first second} member _ differs => ?_)
    have different : ¬ Json.same first.stepId second.stepId = true := by
      rw [Json.same_iff (mirrors.keys first member)]
      exact differs
    simpa using different
  · intro result member which known
    rw [mirrors.listed result member which known, decide_eq_true_eq, eq_comm]

/-- A run that changes files and returns, started from nothing or from a checkpoint
that a run has saved, reports on the first of its steps, each once, and on all of
them unless it was told to quit.  Its totals count the results by status, and the
checkpoint lists each of these steps by its status and leaves all others where they
were.  Where different names lead to different files and none leads to the
stylesheet, the files that are counted are those that were written, and the
stylesheet if declarations were added to it; and with these files kept apart from
the checkpoint, they stand on disk as they were written. -/
theorem run_report_tallies (returned : run options layout index session = .ok report after)
    (reported : report.applied = true)
    (prepared : prepare options layout session = .ok task started)
    (own : ∀ saved, task.checkpoint = some saved → SavedByRun layout saved) :
    ∃ saved, report.checkpoint = some saved ∧
      Checkpoint.storedAt after.workspace layout.checkpoint = .ok (some saved) ∧
        Tallies task.steps task.start report saved ∧
          (report.results.length = task.steps.length ∨
            options.interactive = true ∧ Quits session.answers after.answers) ∧
            ((∀ first ∈ task.steps, ∀ second ∈ task.steps, ∀ key other,
                fileKey? session.project first.file = some key →
                  fileKey? session.project second.file = some other →
                    key.place = other.place → key = other) →
              (∀ step ∈ task.steps, ∀ key, fileKey? session.project step.file = some key →
                key.place ≠ layout.stylesheet.place) →
              ∃ executed state sources middle committed,
                CountsFiles options layout task started report executed state sources middle
                  committed after) := by
  have applying := applying_of_applied returned reported
  obtain ⟨known, calm⟩ := prepare_eq_ok prepared
  have busy := busy_of_applied returned reported prepared
  obtain ⟨executed, middle, executing, finished⟩ := run_course applying returned prepared busy
  obtain ⟨done, cut, split, execution, ending⟩ := executeAll_answers executing
  obtain ⟨state, sources, committed, files, warnings, styled, ready, committing, updating, quiet,
    conclusion⟩ := finish_parts finished
  obtain ⟨written, refused, rfl, commitment⟩ := commit_commits committing
  obtain ⟨stamp, wrote, _, _, _, _, results, _, checkpoint⟩ := conclude_eq_ok conclusion
  obtain ⟨summary, warned⟩ := conclude_totals conclusion
  obtain ⟨saved, found, stored⟩ : ∃ saved, report.checkpoint = some saved ∧
      Checkpoint.storedAt after.workspace layout.checkpoint = .ok (some saved) := by
    obtain ⟨_, _, ⟨_, _, none, _⟩ | ⟨saved, saves, stored⟩⟩ := run_progress applying returned
    · rw [none] at checkpoint
      cases checkpoint
    · exact ⟨saved, saves.reported, stored⟩
  obtain rfl : saved = checkpointOf task state stamp :=
    Option.some.inj (found.symm.trans checkpoint)
  obtain ⟨scheduled, distinct, _⟩ := known.steps.steps
  have within : ∀ step ∈ done, step ∈ task.steps := fun step member =>
    split ▸ List.mem_append_left _ member
  obtain ⟨outcomes, made, subjects, _⟩ := execution.records
  rw [startState_results, List.nil_append] at made
  have reportedResults : report.results = outcomes.map (refuseAll middle.project refused) := by
    rw [results, commitment.results, made]
  have sameSubjects : report.results.map StepResult.subject = done.map Step.subject := by
    rw [reportedResults, subjects_refuseAll, subjects]
  have mirrors : Mirrors task.start report.results state.lists := by
    rw [results]
    refine commitment.mirrors (execution.mirrors (startState_results _)
      (fun step member => (scheduled step (within step member)).2.1) ?_ (startState_distinct own))
    rw [split, List.map_append] at distinct
    exact (List.nodup_append.mp distinct).1
  have decided : ∀ result ∈ report.results, result.status ≠ .pending := by
    rw [results]
    exact commitment.decided (execution.decided (by simp [startState_results]))
  refine ⟨_, found, stored, ?_, ?_, fun unaliased apart => ?_⟩
  · exact tallies_of_mirrors (split ▸ sameSubjects ▸ by simp) (results ▸ summary) mirrors decided
  · rcases ending with rfl | ⟨asking, quits⟩
    · have lengths := congrArg List.length sameSubjects
      rw [split, List.append_nil]
      simpa using Or.inl lengths
    · rw [prepare_answers prepared] at quits
      rw [finish_answers finished]
      exact Or.inr ⟨asking, quits⟩
  · have files : report.summary.filesChanged = files.length := by
      rw [summary]
      exact (foldl_count state.results
        { total := state.results.length, filesChanged := files.length }).2.1
    have unaliasedDone : ∀ first ∈ done, ∀ second ∈ done, ∀ key other,
        fileKey? started.project first.file = some key →
          fileKey? started.project second.file = some other →
            key.place = other.place → key = other := by
      intro first among second member
      rw [calm.project]
      exact unaliased first (within first among) second (within second member)
    have apartDone : ∀ step ∈ done, ∀ key, fileKey? started.project step.file = some key →
        key.place ≠ layout.stylesheet.place := by
      intro step member
      rw [calm.project]
      exact apart step (within step member)
    have standing := fun kept : IsKeptApart started layout task.steps =>
      standsOnDisk_of_parts kept within (startState_buffers _) execution commitment updating quiet
        conclusion unaliasedDone apartDone
    exact ⟨executed, state, _, middle, committed, countsFiles_of_parts executing committing execution
      commitment updating standing (reportedResults.trans (by rw [made])) files warned
        unaliasedDone apartDone⟩

theorem spread_counted :
    observe { apply := true } smallLayout .absent spreadProject
      (fun _ report _ => (report.applied, report.results.map StepResult.status,
        report.summary.filesChanged)) =
      some (true, [.applied, .failed, .skipped, .failed, .applied], 3) := by
  rw [observe_of_prepared (spread_prepares true)]
  decide +kernel

theorem spread_keptApart : IsKeptApart spreadProject smallLayout spreadTask.steps := by
  refine ⟨spread_fresh, by decide, by decide, fun step member key known => ?_⟩
  exact (spread_source (spread_key member known)).notCheckpoint

/-- Two files are written and the stylesheet is restyled; the third file is refused. -/
theorem run_report_tallies_spread :
    ∃ task started report after saved,
      prepare { apply := true } smallLayout spreadProject = .ok task started ∧
        run { apply := true } smallLayout .absent spreadProject = .ok report after ∧
          report.results.map StepResult.status =
              [.applied, .failed, .skipped, .failed, .applied] ∧
            Tallies task.steps task.start report saved ∧
              report.results.length = task.steps.length ∧
                ∃ executed state sources middle committed,
                  CountsFiles { apply := true } smallLayout task started report executed state
                      sources middle committed after ∧
                    StandsOnDisk smallLayout executed state sources committed after ∧
                      report.summary.filesChanged = 3 := by
  obtain ⟨task, started, report, after, prepared, returned, seen⟩ := observe_eq_some spread_counted
  cases (spread_prepares true).symm.trans prepared
  simp only [Prod.mk.injEq] at seen
  obtain ⟨reported, statuses, files⟩ := seen
  obtain ⟨saved, _, _, tallies, whole, counts⟩ := run_report_tallies returned reported prepared
    nofun
  have complete := whole.resolve_right (by
    rintro ⟨asking, _⟩
    cases asking)
  obtain ⟨executed, state, sources, middle, committed, counted⟩ := counts
    (fun first among second member key other known same place =>
      (spread_source (spread_key member same)).unaliased first among key known place)
    fun step member key known => (spread_source (spread_key member known)).notStylesheet
  have apart : IsKeptApart (spreadPlan.noted smallLayout.plan spreadProject) smallLayout
      spreadTask.steps := by
    have calm := spreadPlan.noted_quiet smallLayout.plan spreadProject
    exact ⟨spread_fresh.of_quiet calm, spread_keptApart.unnamed, spread_keptApart.stylesheet,
      spread_keptApart.files⟩
  exact ⟨_, _, report, after, saved, prepared, returned, statuses, tallies, complete, executed,
    state, sources, middle, committed, counted, counted.standing apart, files⟩

end Migration

end Restyle
