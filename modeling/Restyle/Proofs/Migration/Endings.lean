import Restyle.Proofs.Migration.UntouchedLines
import Restyle.Proofs.Migration.Views

/-!
# What a run leaves behind

With its steps executed a run writes out the edited files, adds to the
stylesheet and saves the checkpoint.  The files of its steps then hold the texts
that the execution ended with, and the next run reads them again.
-/

namespace Restyle

namespace Migration

variable {project path : Path} {layout : Layout} {index : IndexRebuild} {task : Task}
  {steps done : List Step} {report : RunReport} {backup : Bool}
  {state start executed final : RunState} {session middle committed after last : Session}
  {before : Workspace} {outcome : Except ReadFailure (List Char)} {buffers : List Buffer}
  {written : List Path} {refused : List (Path × String)} {files : Path → Prop} {seen : View}

def IsStepFile (project : Path) (steps : List Step) (path : Path) : Prop :=
  ∃ step ∈ steps, fileKey? project step.file = some path

/-- Whether the way to a file passes nothing that a run writes on its own account,
and steps name the file by this path only. -/
structure IsApart (project : Path) (layout : Layout) (steps : List Step) (path : Path) : Prop where
  clean : path.hasNull = false
  unaliased : ∀ key, IsStepFile project steps key → key.place = path.place → key = path
  notStylesheet : ¬ path.Passes layout.stylesheet.place
  notCheckpoint : ¬ path.Passes layout.checkpoint.place
  notBackup : ∀ place, IsBackupPlace project steps place → ¬ path.Passes place

theorem passes_place (path : Path) : path.Passes path.place :=
  ⟨path.names, List.prefix_rfl, rfl⟩

theorem IsApart.isSource (apart : IsApart session.project layout steps path) :
    IsSource session layout steps path where
  unaliased := fun step member key known => apart.unaliased key ⟨step, member, known⟩
  notStylesheet := fun same => apart.notStylesheet (same ▸ passes_place path)
  notCheckpoint := fun same => apart.notCheckpoint (same ▸ passes_place path)
  notBackup := fun backup => apart.notBackup _ backup (passes_place path)

/-- Source files, those of the steps among them: they are apart from what runs
write, and no directory on the way to one is still to be made for the stylesheet
or the checkpoint. -/
structure AreSources (files : Path → Prop) (project : Path) (layout : Layout) (steps : List Step)
    (workspace : Workspace) : Prop where
  named : ∀ path, IsStepFile project steps path → files path
  apart : ∀ path, files path → IsApart project layout steps path
  ready : ∀ path, files path → ∀ place, path.Passes place →
    layout.stylesheet.parent.Passes place ∨ layout.checkpoint.parent.Passes place →
      workspace.get? place = some .directory

theorem AreSources.spares (sources : AreSources files project layout steps before) :
    ∀ step ∈ steps, Spares files project step := by
  intro step member
  constructor
  · exact fun key known => sources.named key ⟨step, member, known⟩
  · intro key known path among
    exact (sources.apart path among).notBackup _ ⟨step, member, key, known, rfl⟩

/-- Whether a session takes the edits of steps: it accepts their files, and the
name of its temporary files is new. -/
structure Takes (files : Path → Prop) (session : Session) (steps : List Step) : Prop where
  fresh : FreshTag session steps
  unnamed : ∀ path, files path → session.temporaryName ∉ path.names
  accepts : ∀ path, IsStepFile session.project steps path → session.Accepts path

theorem Takes.not_passes (takes : Takes files session steps) (among : files path) (target : Path) :
    ¬ path.Passes (Activity.temporaryFor session target).place := by
  intro passes
  apply takes.unnamed path among
  apply passes.mem_names
  rw [Session.temporaryFor_place takes.fresh.plain]
  simp

/-- A run leaves a file with some outcome of reading it: as it was, or written
anew with another text. -/
inductive Leaves (before after : Workspace) (path : Path) :
    Except ReadFailure (List Char) → Prop where
  | kept (bytes : after.readBytes path = before.readBytes path) :
      Leaves before after path ((before.readText path).map String.toList)
  | stored {old text : List Char} (read : before.readText path = .ok (String.ofList old))
      (changed : text ≠ old) (clean : '\r' ∉ text)
      (bytes : after.readBytes path = .ok (Text.encode text)) : Leaves before after path (.ok text)

theorem Leaves.readText {after : Workspace} (left : Leaves before after path outcome) :
    (after.readText path).map String.toList = outcome := by
  cases left with
  | kept bytes => rw [Workspace.readText_congr bytes]
  | @stored old text read changed clean bytes =>
      have found : after.readText path = .ok (String.ofList text) := by
        apply Workspace.readText_eq_ok_iff.mpr
        refine ⟨_, text, bytes, Text.decode_encode text, ?_⟩
        rw [Text.unifyBreaks_of_not_mem clean]
      rw [found]
      simp [Except.map]

theorem Leaves.cases {after : Workspace} (left : Leaves before after path outcome) :
    (after.readBytes path = before.readBytes path ∧
        (before.readText path).map String.toList = outcome) ∨
      ∃ old text, before.readText path = .ok (String.ofList old) ∧ text ≠ old ∧
        after.readBytes path = .ok (Text.encode text) ∧ outcome = .ok text := by
  cases left with
  | kept bytes => exact Or.inl ⟨bytes, rfl⟩
  | stored read changed _ bytes => exact Or.inr ⟨_, _, read, changed, bytes, rfl⟩

theorem readText_of_map {left right : Except ReadFailure String}
    (same : left.map String.toList = right.map String.toList) : left = right := by
  cases left <;> cases right <;> simp_all [Except.map, String.toList_inj]

/-- Whether a file holds its text with line feeds for all line ends. -/
def HasPlainBreaks (workspace : Workspace) (path : Path) : Prop :=
  ∀ text, workspace.readText path = .ok text →
    workspace.readBytes path = .ok (Text.encode text.toList)

/-- A file that two runs leave with a text, one after the other, is as one run
leaves it with that text.  The line ends may differ where the one run leaves the
file alone and the two do not. -/
theorem Leaves.agree {whole between after : Workspace} {half : Except ReadFailure (List Char)}
    (single : Leaves before whole path outcome) (begun : Leaves before between path half)
    (resumed : Leaves between after path outcome) :
    after.readText path = whole.readText path ∧
      ((whole.readText path = before.readText path → HasPlainBreaks before path) →
        after.readBytes path = whole.readBytes path) := by
  refine ⟨readText_of_map (resumed.readText.trans single.readText.symm), fun plain => ?_⟩
  have middle := begun.readText
  rcases single.cases with ⟨wholeKept, initial⟩ | ⟨old, text, read, changed, wholeBytes, rfl⟩
  · rcases resumed.cases with ⟨afterKept, shown⟩ | ⟨_, text, _, _, afterBytes, rfl⟩
    · rcases begun.cases with ⟨betweenKept, _⟩ | ⟨old, text, read, changed, _, rfl⟩
      · rw [afterKept, betweenKept, wholeKept]
      · rw [← initial, middle, read] at shown
        simp [Except.map, changed] at shown
    · have same := Workspace.readText_congr wholeKept
      cases readable : before.readText path with
      | error failure =>
          rw [readable] at initial
          cases initial
      | ok found =>
          rw [readable] at initial
          simp only [Except.map, Except.ok.injEq] at initial
          rw [afterBytes, wholeKept, plain same found readable, initial]
  · rcases resumed.cases with ⟨afterKept, shown⟩ | ⟨_, _, _, _, afterBytes, again⟩
    · rcases begun.cases with ⟨betweenKept, _⟩ | ⟨_, half, _, _, betweenBytes, rfl⟩
      · rw [Workspace.readText_congr betweenKept, read] at shown
        simp [Except.map, changed.symm] at shown
      · rw [middle, Except.ok.injEq] at shown
        rw [afterKept, betweenBytes, wholeBytes, shown]
    · rw [Except.ok.injEq] at again
      rw [afterBytes, wholeBytes, again]

theorem Tracks.textAt? {initial text : List Char} (tracked : Tracks path initial state before text)
    (clean : path.hasNull = false) : state.textAt? before path = some (.ok text) := by
  unfold RunState.textAt?
  rcases tracked.buffered with ⟨absent, rfl⟩ | ⟨buffer, found, _, rfl⟩
  · rw [absent]
    simp [clean, tracked.disk, Except.map]
  · rw [found]

/-- Files with nothing in their way stay so while others are written out. -/
theorem Commits.writable (plain : session.HasPlainTag)
    (committed : Commits state session buffers final last written refused)
    (others : ∀ buffer ∈ buffers, Writable session buffer.path) (file : Writable session path) :
    Writable last path := by
  induction committed with
  | nil => exact file
  | unchanged _ _ induction => exact induction plain (List.forall_mem_cons.mp others).2 file
  | stored _ success quiet _ induction =>
      obtain ⟨first, later⟩ := List.forall_mem_cons.mp others
      have setting := (Activity.writeFile_ok success).1.trans quiet.toSameSetting
      have stays : ∀ {other : Path}, Writable _ other → Writable _ other :=
        fun kept => ((kept.of_write plain first).1 success).of_quiet quiet
      exact induction (setting.hasPlainTag plain) (fun other among => stays (later other among))
        (stays file)
  | refused _ stop quiet _ induction =>
      obtain ⟨first, later⟩ := List.forall_mem_cons.mp others
      have setting := (Activity.writeFile_error stop).1.trans quiet.toSameSetting
      have stays : ∀ {other : Path}, Writable _ other → Writable _ other :=
        fun kept => ((kept.of_write plain first).2 _ stop).of_quiet quiet
      exact induction (setting.hasPlainTag plain) (fun other among => stays (later other among))
        (stays file)

theorem Executes.isStepFile (empty : start.buffers = [])
    (execution : Executes backup start session done executed middle)
    (within : ∀ step ∈ done, step ∈ steps) :
    ∀ buffer ∈ executed.buffers, IsStepFile session.project steps buffer.path := by
  intro buffer member
  obtain ⟨_, origin⟩ := execution.bufferPaths (by simp [empty])
  rcases origin buffer.path (List.mem_map_of_mem member) with old | ⟨_, step, among, known⟩
  · simp [empty] at old
  · exact ⟨step, within step among, known⟩

/-- The places that a run touches once its steps are executed. -/
def IsFinishPlace (layout : Layout) (session : Session) (executed : RunState) (place : Place) :
    Prop :=
  (∃ buffer ∈ executed.buffers, place = buffer.path.place) ∨
    (∃ target, place = (Activity.temporaryFor session target).place) ∨
      place = layout.stylesheet.place ∨ place = layout.checkpoint.place

/-- Once its steps are executed, a run writes the files with buffers, the
stylesheet and the checkpoint. -/
theorem finish_evolves (fresh : FreshTag session steps) (within : ∀ step ∈ done, step ∈ steps)
    (empty : start.buffers = []) (execution : Executes backup start session done executed middle)
    (finished : finish layout index task executed middle = .ok report after) :
    Workspace.Evolves (IsFinishPlace layout session executed)
      (fun place => layout.stylesheet.parent.Passes place ∨ layout.checkpoint.parent.Passes place)
      middle.workspace after.workspace := by
  obtain ⟨state, written, refused, committed, files, warnings, styled, ready, commitment, updating,
    quiet, conclusion⟩ := finish_eq_ok finished
  have writing := commitment.evolves_of_writable (execution.writable fresh within empty)
  have setting := execution.sameSetting.trans commitment.sameSetting
  apply (writing.mono ?_ fun _ => False.elim).trans
  · apply (ending_evolves updating quiet conclusion).touching
    rintro place ((temporary | target) | (temporary | target))
    · rw [setting.temporaryFor] at temporary
      exact Or.inr (Or.inl ⟨_, temporary⟩)
    · exact Or.inr (Or.inr (Or.inl target))
    · rw [setting.temporaryFor] at temporary
      exact Or.inr (Or.inl ⟨_, temporary⟩)
    · exact Or.inr (Or.inr (Or.inr target))
  · rintro place ⟨buffer, member, temporary | target⟩
    · rw [execution.sameSetting.temporaryFor] at temporary
      exact Or.inr (Or.inl ⟨_, temporary⟩)
    · exact Or.inl ⟨buffer, member, target⟩

theorem finish_hasFile (fresh : FreshTag session steps)
    (sources : AreSources files session.project layout steps session.workspace)
    (within : ∀ step ∈ done, step ∈ steps) (empty : start.buffers = [])
    (execution : Executes backup start session done executed middle)
    (finished : finish layout index task executed middle = .ok report after) :
    ∀ buffer ∈ executed.buffers, middle.workspace.HasFile buffer.path ∧
      after.workspace.HasFile buffer.path := by
  obtain ⟨state, written, refused, committed, files, warnings, styled, ready, commitment, updating,
    quiet, conclusion⟩ := finish_eq_ok finished
  have plain := execution.sameSetting.hasPlainTag fresh.plain
  have writable := execution.writable fresh within empty
  intro buffer member
  have named := sources.named _ (execution.isStepFile empty within buffer member)
  have source := (sources.apart _ named).isSource
  have kept := commitment.writable plain writable (writable buffer member)
  obtain ⟨bytes, read⟩ := kept.there
  refine ⟨(writable buffer member).there, bytes, ?_⟩
  refine (ending_evolves updating quiet conclusion).readBytes ?_ read
  have plainThen := commitment.sameSetting.hasPlainTag plain
  rintro ((temporary | target) | (temporary | target))
  · exact kept.place_ne plainThen temporary
  · exact source.notStylesheet target
  · exact kept.place_ne plainThen temporary
  · exact source.notCheckpoint target

/-- A file without a buffer keeps its bytes, or stays as unreadable as it was. -/
theorem finish_unbuffered (takes : Takes files session steps)
    (sources : AreSources files session.project layout steps session.workspace)
    (among : files path) (within : ∀ step ∈ done, step ∈ steps) (empty : start.buffers = [])
    (execution : Executes backup start session done executed middle)
    (absent : executed.buffer? path = none)
    (finished : finish layout index task executed middle = .ok report after) :
    middle.workspace.readBytes path = session.workspace.readBytes path ∧
      after.workspace.readBytes path = middle.workspace.readBytes path := by
  have evolved := finish_evolves takes.fresh within empty execution finished
  have stay := finish_hasFile takes.fresh sources within empty execution finished
  have apart := sources.apart path among
  have still : ∀ place, path.Passes place →
      middle.workspace.get? place = session.workspace.get? place := by
    intro place passes
    apply (execution.evolves fun _ => False).get?_eq
    rintro ⟨step, member, backup⟩
    exact apart.notBackup place ⟨step, within step member, backup⟩ passes
  have ready : ∀ place, path.Passes place →
      layout.stylesheet.parent.Passes place ∨ layout.checkpoint.parent.Passes place →
        middle.workspace.get? place = some .directory := by
    intro place passes making
    rw [still place passes]
    exact sources.ready path among place passes making
  have reached : ∀ place, path.Passes place → IsFinishPlace layout session executed place →
      ∃ buffer ∈ executed.buffers, place = buffer.path.place := by
    rintro place passes (buffered | ⟨target, rfl⟩ | rfl | rfl)
    · exact buffered
    · exact absurd passes (takes.not_passes among target)
    · exact absurd passes apart.notStylesheet
    · exact absurd passes apart.notCheckpoint
  constructor
  · apply Workspace.readBytes_congr
    · exact fun place passes => .of_eq (still place passes)
    · exact still _ (passes_place path)
  · apply Workspace.readBytes_congr
    · intro place passes
      apply evolved.alike (ready place passes)
      intro touched
      obtain ⟨buffer, member, rfl⟩ := reached place passes touched
      obtain ⟨⟨_, first⟩, ⟨_, second⟩⟩ := stay buffer member
      exact ⟨⟨_, (Workspace.readBytes_eq_ok_iff.mp first).2⟩,
        ⟨_, (Workspace.readBytes_eq_ok_iff.mp second).2⟩⟩
    · apply evolved.get?_of_ready (ready _ (passes_place path))
      intro touched
      obtain ⟨buffer, member, same⟩ := reached _ (passes_place path) touched
      have here := apart.unaliased _ (execution.isStepFile empty within buffer member) same.symm
      exact not_mem_bufferPaths absent (here ▸ List.mem_map_of_mem member)

/-- What an execution ends with is what its end leaves. -/
theorem finish_leaves (takes : Takes files session steps)
    (sources : AreSources files session.project layout steps session.workspace)
    (among : files path) (plain : ∀ step ∈ steps, '\r' ∉ step.action.inserted)
    (within : ∀ step ∈ done, step ∈ steps) (empty : start.buffers = [])
    (execution : Executes backup start session done executed middle)
    (text : executed.textAt? middle.workspace path = some outcome)
    (unread : ∀ failure, session.workspace.readText path = .error failure →
      outcome = .error failure)
    (finished : finish layout index task executed middle = .ok report after) :
    Leaves session.workspace after.workspace path outcome := by
  have apart := sources.apart path among
  cases found : executed.buffer? path with
  | none =>
      obtain ⟨first, second⟩ :=
        finish_unbuffered takes sources among within empty execution found finished
      unfold RunState.textAt? at text
      rw [found] at text
      simp only [apart.clean, Bool.false_eq_true, if_false, Option.some.injEq] at text
      rw [← text, Workspace.readText_congr first]
      exact .kept (second.trans first)
  | some buffer =>
      cases readable : session.workspace.readText path with
      | error failure =>
          rw [unread failure readable] at text
          simp [RunState.textAt?, found] at text
      | ok whole =>
          obtain ⟨initial, rfl⟩ : ∃ initial, whole = String.ofList initial :=
            ⟨whole.toList, (String.ofList_toList).symm⟩
          obtain ⟨bytes, characters, read, _, isText⟩ := Workspace.readText_eq_ok_iff.mp readable
          have tracked : Tracks path initial start session.workspace initial :=
            ⟨readable, Or.inl ⟨by simp [RunState.buffer?, empty], rfl⟩⟩
          obtain ⟨outcomes, _, subjects, _, trackedEnd⟩ := execution.tracks
            (fun step member key isKey same =>
              apart.isSource.notBackup ⟨step, within step member, key, isKey, same.symm⟩) tracked
          rw [trackedEnd.textAt? apart.clean, Option.some.injEq] at text
          subst text
          obtain ⟨state, written, refused, committed, files, warnings, styled, last, commitment,
            updating, quiet, conclusion⟩ := finish_eq_ok finished
          have finishes := ending_finishes takes.fresh apart.isSource read within empty execution
            trackedEnd commitment updating quiet conclusion
          have original : '\r' ∉ initial := by
            rw [String.ofList_injective isText]
            exact Text.return_not_mem_unifyBreaks characters
          have clean : '\r' ∉ editInOrder initial
              ((attemptedOn session.project path (done.zip outcomes)).map Prod.fst) := by
            apply editInOrder_clean _ original
            intro step member
            apply plain step
            exact within step ((attemptedOn_sublist _ _ subjects).1.subset member)
          by_cases same : editInOrder initial
              ((attemptedOn session.project path (done.zip outcomes)).map Prod.fst) = initial
          · have kept : Leaves session.workspace after.workspace path _ :=
              .kept (finishes.unchanged same).2
            rw [readable] at kept
            rw [same]
            simpa [Except.map] using kept
          · have member := List.mem_of_find?_eq_some found
            have here := RunState.path_of_buffer? found
            have accepted := takes.accepts _ (execution.isStepFile empty within buffer member)
            rw [here] at accepted
            exact .stored readable same clean (finishes.stored same accepted).2

theorem Commits.of_unrefused
    (committed : Commits state session buffers final last written refused) (none : refused = []) :
    final = state := by
  induction committed with
  | nil => rfl
  | unchanged _ _ induction => exact induction none
  | stored _ _ _ _ induction => exact induction none
  | refused => cases none

/-- When all files are accepted, a run reports and saves what its execution ended
with. -/
theorem finish_reports (takes : Takes files session steps) (within : ∀ step ∈ done, step ∈ steps)
    (empty : start.buffers = []) (execution : Executes backup start session done executed middle)
    (finished : finish layout index task executed middle = .ok report after) :
    report.results = executed.results ∧ ∃ saved, report.checkpoint = some saved ∧
      saved.lists = executed.lists ∧ saved.planDigest = .text task.digest := by
  obtain ⟨state, written, refused, committed, files, warnings, styled, ready, commitment, updating,
    quiet, conclusion⟩ := finish_eq_ok finished
  have setting := execution.sameSetting
  have none : refused = [] := by
    apply List.eq_nil_iff_forall_not_mem.mpr
    intro entry member
    obtain ⟨buffer, among, same⟩ := List.mem_map.mp (commitment.refused_buffers entry member)
    apply commitment.rejects (setting.hasPlainTag takes.fresh.plain)
      (execution.writable takes.fresh within empty) entry member
    rw [← same]
    exact setting.accepts (takes.accepts _ (execution.isStepFile empty within buffer among))
  obtain ⟨_, _, _, _, _, _, results, _, saved⟩ := conclude_eq_ok conclusion
  rw [commitment.of_unrefused none] at results saved
  exact ⟨results, _, saved, rfl, rfl⟩

end Migration

end Restyle
