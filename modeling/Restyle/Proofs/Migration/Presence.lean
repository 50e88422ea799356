import Restyle.Proofs.Activity.Failing
import Restyle.Proofs.Migration.Lists
import Restyle.Proofs.Migration.SequentialEdits

/-!
# Files that a run has read

A file that was read is there, and it stays there while steps are processed and
files are written out.  So the writing out of what was edited always comes to an
end: each file is stored or refused.
-/

namespace Restyle

/-- Whether a file stands at a path. -/
def Workspace.HasFile (workspace : Workspace) (path : Path) : Prop :=
  ∃ bytes, workspace.readBytes path = .ok bytes

/-- A file is still there if something that is a file stands at its place. -/
theorem Workspace.Evolves.hasFile {touched made : Place → Prop} {before after : Workspace}
    {path : Path} (evolved : Workspace.Evolves touched made before after)
    (there : before.HasFile path)
    (stands : touched path.place → ∃ bytes mode, after.get? path.place = some (.file bytes mode)) :
    after.HasFile path := by
  obtain ⟨bytes, read⟩ := there
  by_cases concerned : touched path.place
  · obtain ⟨located, _⟩ := Workspace.readBytes_eq_ok_iff.mp read
    obtain ⟨new, mode, standing⟩ := stands concerned
    exact ⟨new, Workspace.readBytes_eq_ok_iff.mpr ⟨evolved.locate located, mode, standing⟩⟩
  · exact ⟨bytes, evolved.readBytes concerned read⟩

/-- What stands at a place is still there, and where nothing stood there is
nothing or a directory. -/
def Workspace.Keeps (before after : Workspace) (place : Place) : Prop :=
  after.get? place = before.get? place ∨
    (before.get? place = none ∧ after.get? place = some .directory)

theorem Workspace.Keeps.trans {before middle after : Workspace} {place : Place}
    (first : before.Keeps middle place) (second : middle.Keeps after place) :
    before.Keeps after place := by
  rcases first with same | ⟨absent, directory⟩
  · unfold Workspace.Keeps at second ⊢
    rw [← same]
    exact second
  · rcases second with same | ⟨none, _⟩
    · exact Or.inr ⟨absent, same.trans directory⟩
    · rw [directory] at none
      cases none

theorem Workspace.Evolves.get?_eq {touched : Place → Prop} {before after : Workspace} {place : Place}
    (evolved : Workspace.Evolves touched (fun _ => False) before after)
    (outside : ¬ touched place) : after.get? place = before.get? place := by
  rcases evolved.keepsOther place outside with kept | ⟨absent, new⟩
  · exact kept
  · rcases evolved.newDirectory place new with old | never
    · rw [absent] at old
      cases old
    · exact never.elim

/-- Where no directory is made, a change can be read backwards. -/
theorem Workspace.Evolves.symm {touched : Place → Prop} {before after : Workspace}
    (evolved : Workspace.Evolves touched (fun _ => False) before after) :
    Workspace.Evolves touched (fun _ => False) after before where
  keepsDirectory := fun place directory =>
    (evolved.newDirectory place directory).elim id False.elim
  newDirectory := fun place directory => Or.inl (evolved.keepsDirectory place directory)
  keepsOther := fun _ outside => Or.inl (evolved.get?_eq outside).symm

namespace Activity

variable {session after : Session} {path target source : Path} {content : String}

theorem copyFile_hasFile {outcome : Except SystemError Unit}
    (success : copyFile source target session = .ok outcome after)
    (there : session.workspace.HasFile path) : after.workspace.HasFile path := by
  rcases copyFile_cases success with ⟨_, _, rfl⟩ | ⟨bytes, workspace, _, _, stored, rfl⟩
  · exact there
  · have evolved : Workspace.Evolves _ (fun _ => False) _ workspace :=
      Workspace.writeBytes_evolves stored
    refine evolved.hasFile there ?_
    intro here
    rw [here]
    exact ⟨bytes, Workspace.get?_writeBytes stored⟩

theorem writeFile_hasFile (apart : path.place ≠ (temporaryFor session target).place)
    (there : session.workspace.HasFile path) :
    (writeFile target content session = .ok () after → after.workspace.HasFile path) ∧
      ∀ failure, writeFile target content session = .error failure after →
        after.workspace.HasFile path := by
  constructor
  · intro success
    obtain ⟨_, evolved, stands⟩ := writeFile_ok success
    refine evolved.hasFile there ?_
    rintro (temporary | here)
    · exact absurd temporary apart
    · obtain ⟨_, mode, standing⟩ := Workspace.readBytes_eq_ok_iff.mp stands
      rw [here]
      exact ⟨_, mode, standing⟩
  · intro failure stopped
    exact (writeFile_error stopped).2.hasFile there fun temporary => absurd temporary apart

end Activity

namespace Migration

variable {state opened next final : RunState} {session middle after last : Session} {step : Step}
  {steps : List Step} {backup : Bool} {path : Path} {buffers : List Buffer}

/-- A file that is there and whose temporary file has room: it is written or
refused, and nothing else can happen. -/
structure Writable (session : Session) (path : Path) : Prop where
  clean : path.hasNull = false
  there : session.workspace.HasFile path
  free : session.workspace.get? (Activity.temporaryFor session path).place ≠ some .directory
  unnamed : session.temporaryName ∉ path.place

theorem Writable.place_ne {target : Path} (writable : Writable session path)
    (plain : session.HasPlainTag) : path.place ≠ (Activity.temporaryFor session target).place := by
  intro same
  apply writable.unnamed
  rw [same, Session.temporaryFor_place plain]
  simp

theorem Writable.of_quiet (writable : Writable session path) (quiet : session.Quiet after) :
    Writable after path where
  clean := writable.clean
  there := quiet.workspace ▸ writable.there
  free := by
    rw [quiet.workspace, quiet.temporaryFor]
    exact writable.free
  unnamed := by
    rw [quiet.temporaryName]
    exact writable.unnamed

/-- The writing of one file, done or refused, leaves the others as writable as
they were. -/
theorem Writable.of_write {target : Path} {content : String} (plain : session.HasPlainTag)
    (writable : Writable session path) (targeted : Writable session target) :
    (Activity.writeFile target content session = .ok () after → Writable after path) ∧
      ∀ failure, Activity.writeFile target content session = .error failure after →
        Writable after path := by
  obtain ⟨bytes, read⟩ := targeted.there
  have settles : ∀ touched : Place → Prop, session.SameSetting after →
      Workspace.Evolves touched (fun _ => False) session.workspace after.workspace →
        after.workspace.HasFile path → Writable after path := by
    intro touched setting evolved there
    refine ⟨writable.clean, there, ?_, ?_⟩
    · rw [setting.temporaryFor]
      intro directory
      exact (evolved.newDirectory _ directory).elim writable.free id
    · rw [setting.temporaryName]
      exact writable.unnamed
  constructor
  · intro success
    exact settles _ (Activity.writeFile_ok success).1
      ((Activity.writeFile_evolves_of_file read).1 _ success)
      ((Activity.writeFile_hasFile (writable.place_ne plain) writable.there).1 success)
  · intro failure stopped
    exact settles _ (Activity.writeFile_error stopped).1
      ((Activity.writeFile_evolves_of_file read).2 _ _ stopped)
      ((Activity.writeFile_hasFile (writable.place_ne plain) writable.there).2 _ stopped)

/-- Whether the files of all applied results have a path. -/
def HaveKeys (project : Path) (results : List StepResult) : Prop :=
  ∀ result ∈ results, result.status = .applied → ∃ key, fileKey? project result.file = some key

theorem failResults_succeeds (state : RunState) (path : Path) (error : String)
    {results : List StepResult} (keyed : HaveKeys session.project results) :
    ∃ outcome, failResults path error state results session = .ok outcome session := by
  induction results generalizing state with
  | nil => exact ⟨_, rfl⟩
  | cons result results induction =>
      obtain ⟨first, later⟩ := List.forall_mem_cons.mp keyed
      have asked : ∃ found, isAppliedAt path result session = .ok found session := by
        unfold isAppliedAt
        split
        · rename_i applied
          obtain ⟨key, known⟩ := first applied
          rw [Activity.bind_of_ok (pathOf_eq_ok.mpr ⟨known, rfl⟩)]
          exact ⟨_, rfl⟩
        · exact ⟨_, rfl⟩
      obtain ⟨found, asked⟩ := asked
      unfold failResults
      rw [Activity.bind_of_ok asked]
      cases found with
      | true =>
          obtain ⟨outcome, rest⟩ := induction (state.mark result.stepId .failed) later
          rw [if_pos rfl, Activity.bind_of_ok rest]
          exact ⟨_, rfl⟩
      | false =>
          obtain ⟨outcome, rest⟩ := induction state later
          rw [if_neg (by decide), Activity.bind_of_ok rest]
          exact ⟨_, rfl⟩

theorem HaveKeys.refuse {project : Path} {error : String} {results : List StepResult}
    (keyed : HaveKeys project results) (path : Path) :
    HaveKeys project (results.map (StepResult.refuse project path error)) := by
  intro result member applied
  obtain ⟨old, among, rfl⟩ := List.mem_map.mp member
  have stays : ¬ old.IsAppliedAt project path := by
    intro refused
    rw [refuse_status refused] at applied
    cases applied
  rw [StepResult.refuse, if_neg stays] at applied ⊢
  exact keyed old among applied

/-- Files that were read can be written out: each is stored or refused, and the
run goes on. -/
theorem commit_succeeds (before : List Path) (plain : session.HasPlainTag)
    (writable : ∀ buffer ∈ buffers, Writable session buffer.path)
    (keyed : HaveKeys session.project state.results) :
    ∃ outcome last, commit state before buffers session = .ok outcome last := by
  induction buffers generalizing state session before with
  | nil => exact ⟨_, _, rfl⟩
  | cons buffer buffers induction =>
      obtain ⟨first, later⟩ := List.forall_mem_cons.mp writable
      unfold commit
      by_cases same : buffer.content = buffer.loaded
      · rw [if_pos same]
        exact induction before plain later keyed
      · rw [if_neg same]
        obtain ⟨bytes, read⟩ := first.there
        obtain ⟨_, wrote, success⟩ | ⟨_, cause, stopped, failed⟩ :=
          Activity.writeFile_of_file (String.ofList buffer.content) plain first.clean read
            first.free
        · have attempted : Activity.attempt (Activity.writeFile buffer.path
              (String.ofList buffer.content)) session = .ok (.ok ()) wrote :=
            Activity.attempt_eq_ok.mpr (Or.inl ⟨(), rfl, success⟩)
          have quiet : wrote.Quiet _ := Activity.log_quiet
            (Activity.log_apply .info .running ("Wrote " ++ buffer.path.toString))
          have setting := (Activity.writeFile_ok success).1.trans quiet.toSameSetting
          rw [Activity.bind_of_ok attempted]
          dsimp only
          rw [Activity.bind_of_ok (Activity.log_apply ..)]
          refine induction _ (setting.hasPlainTag plain) (fun other member => ?_) ?_
          · exact (((later other member).of_write plain first).1 success).of_quiet quiet
          · rw [setting.project]
            exact keyed
        · have attempted : Activity.attempt (Activity.writeFile buffer.path
              (String.ofList buffer.content)) session = .ok (.error (.write cause)) stopped :=
            Activity.attempt_eq_ok.mpr (Or.inr ⟨_, rfl, failed⟩)
          have quiet : stopped.Quiet _ := Activity.log_quiet
            (Activity.log_apply .warning .running
              ("Failed to write " ++ buffer.path.toString ++ ": " ++ cause.message))
          have setting := (Activity.writeFile_error failed).1.trans quiet.toSameSetting
          have keyedThen : HaveKeys _ state.results := setting.project.symm ▸ keyed
          obtain ⟨⟨marked, results⟩, failing⟩ := failResults_succeeds state
            buffer.path ("Failed to write file: " ++ cause.message) keyedThen
          obtain ⟨_, rfl, _⟩ := failResults_eq_ok failing
          rw [Activity.bind_of_ok attempted]
          dsimp only
          rw [Activity.bind_of_ok (Activity.log_apply ..), Activity.bind_of_ok failing]
          refine induction _ (setting.hasPlainTag plain) (fun other member => ?_)
            (keyedThen.refuse _)
          exact (((later other member).of_write plain first).2 _ failed).of_quiet quiet

theorem backUp_hasFile {kept : RunState} {other : Path}
    (copied : (if backup then backUp opened path else pure opened) session = .ok kept middle)
    (there : session.workspace.HasFile other) : middle.workspace.HasFile other := by
  cases backup with
  | false =>
      obtain ⟨_, rfl⟩ := Activity.pure_eq_ok.mp copied
      exact there
  | true =>
      rw [if_pos rfl] at copied
      unfold backUp at copied
      split at copied
      · obtain ⟨_, rfl⟩ := Activity.pure_eq_ok.mp copied
        exact there
      · obtain ⟨outcome, written, stored, rest⟩ := Activity.bind_eq_ok.mp copied
        have after := Activity.copyFile_hasFile stored there
        cases outcome with
        | ok done =>
            obtain ⟨_, rfl⟩ := Activity.pure_eq_ok.mp rest
            exact after
        | error error =>
            obtain ⟨_, noted, logged, rest⟩ := Activity.bind_eq_ok.mp rest
            obtain ⟨_, rfl⟩ := Activity.pure_eq_ok.mp rest
            exact (Activity.log_quiet logged).workspace ▸ after

theorem Processed.hasFile (processed : Processed backup step state session next after)
    (there : session.workspace.HasFile path) : after.workspace.HasFile path := by
  cases processed with
  | blocked _ quiet => exact quiet.workspace ▸ there
  | declined _ quiet => exact quiet.workspace ▸ there
  | unreadable _ _ _ _ _ quiet => exact quiet.workspace ▸ there
  | unlocated _ _ _ _ quiet => exact quiet.workspace ▸ there
  | edited _ _ _ _ before copied quiet =>
      exact quiet.workspace ▸ backUp_hasFile copied (before.workspace.symm ▸ there)

/-- The buffers of a run are those of files that are there. -/
def HoldsFiles (workspace : Workspace) (state : RunState) : Prop :=
  ∀ path ∈ state.buffers.map Buffer.path, path.hasNull = false ∧ workspace.HasFile path

theorem Opens.holdsFiles {workspace : Workspace} {content : List Char}
    (buffered : Opens workspace path state opened content) (holds : HoldsFiles workspace state) :
    HoldsFiles workspace opened := by
  cases buffered with
  | known found => exact holds
  | loaded absent clean read =>
      intro other listed
      rw [List.map_append, List.mem_append] at listed
      rcases listed with old | new
      · exact holds other old
      · obtain rfl := List.mem_singleton.mp new
        obtain ⟨bytes, _, stored, _⟩ := Workspace.readText_eq_ok_iff.mp read
        exact ⟨clean, bytes, stored⟩

theorem Processed.holdsFiles (processed : Processed backup step state session next after)
    (holds : HoldsFiles session.workspace state) : HoldsFiles after.workspace next := by
  have carry : HoldsFiles session.workspace next := by
    unfold HoldsFiles
    cases processed with
    | blocked _ _ => exact holds
    | declined _ _ => exact holds
    | unreadable _ _ _ _ _ _ => exact holds
    | unlocated _ _ buffered _ _ => exact buffered.holdsFiles holds
    | edited _ key buffered made before copied quiet =>
        obtain ⟨⟨backedUp, rfl⟩, _⟩ := backUp_outcome (fun _ => True) copied
        intro other listed
        refine buffered.holdsFiles holds other ?_
        simpa [afterEdit, RunState.setContent, Function.comp_def, apply_ite Buffer.path] using listed
  intro path listed
  exact ⟨(carry path listed).1, processed.hasFile (carry path listed).2⟩

theorem Executes.holdsFiles (executed : Executes backup state session steps final last)
    (holds : HoldsFiles session.workspace state) : HoldsFiles last.workspace final := by
  induction executed with
  | nil quiet =>
      rw [quiet.workspace]
      exact holds
  | cons first _ induction => exact induction (first.holdsFiles holds)

theorem Processed.haveKeys (processed : Processed backup step state session next after)
    (keyed : HaveKeys session.project state.results) : HaveKeys session.project next.results := by
  have extend : ∀ {results : List StepResult} {status error size}, HaveKeys session.project results →
      (status = .applied → ∃ key, fileKey? session.project step.file = some key) →
        HaveKeys session.project (results ++ [RunState.resultOf step status error size]) := by
    intro results status error size before known result member applied
    rcases List.mem_append.mp member with old | new
    · exact before result old applied
    · obtain rfl := List.mem_singleton.mp new
      exact known applied
  cases processed with
  | blocked _ _ => exact RunState.record_results .. ▸ extend keyed nofun
  | declined _ _ => exact RunState.record_results .. ▸ extend keyed nofun
  | unreadable _ _ _ _ _ _ => exact RunState.record_results .. ▸ extend keyed nofun
  | unlocated _ _ buffered _ _ =>
      rw [← buffered.results] at keyed
      exact RunState.record_results .. ▸ extend keyed nofun
  | edited _ key buffered _ _ copied _ =>
      obtain ⟨⟨backedUp, rfl⟩, _⟩ := backUp_outcome (fun _ => True) copied
      rw [← buffered.results] at keyed
      rw [afterEdit_results]
      exact extend keyed fun _ => ⟨_, key⟩

theorem Executes.haveKeys (executed : Executes backup state session steps final last)
    (keyed : HaveKeys session.project state.results) : HaveKeys session.project final.results := by
  induction executed with
  | nil quiet => exact keyed
  | cons first _ induction =>
      rw [first.sameSetting.project] at induction
      exact induction (first.haveKeys keyed)

/-- After an execution that started without buffers all of them can be written
out. -/
theorem Executes.writable {done : List Step} (fresh : FreshTag session steps)
    (within : ∀ step ∈ done, step ∈ steps) (empty : state.buffers = [])
    (executed : Executes backup state session done final last) :
    ∀ buffer ∈ final.buffers, Writable last buffer.path := by
  intro buffer member
  have listed := List.mem_map_of_mem (f := Buffer.path) member
  have setting := executed.sameSetting
  obtain ⟨clean, there⟩ :=
    executed.holdsFiles (by simp [HoldsFiles, empty]) buffer.path listed
  refine ⟨clean, there, ?_, ?_⟩
  · rw [setting.temporaryFor]
    intro directory
    rcases (executed.evolves fun _ => False).newDirectory _ directory with old | never
    · rw [fresh.temporary_free] at old
      cases old
    · exact never
  · rw [setting.temporaryName]
    rcases (executed.bufferPaths (by simp [empty])).2 buffer.path listed with
      old | ⟨_, step, among, known⟩
    · simp [empty] at old
    · exact fun named => fresh.unnamed step (within step among) _ known (Path.mem_place named)

theorem Commits.evolves_of_writable {written : List Path} {refused : List (Path × String)}
    (writable : ∀ buffer ∈ buffers, Writable session buffer.path)
    (committed : Commits state session buffers final last written refused) :
    Workspace.Evolves
      (fun place => ∃ buffer ∈ buffers,
        place = (Activity.temporaryFor session buffer.path).place ∨ place = buffer.path.place)
      (fun _ => False) session.workspace last.workspace := by
  refine committed.evolves.settled ?_
  rintro place ⟨buffer, member, passes⟩
  obtain ⟨bytes, read⟩ := (writable buffer member).there
  exact Workspace.directory_of_passes read passes

theorem Commits.rejects {written : List Path} {refused : List (Path × String)}
    (plain : session.HasPlainTag) (writable : ∀ buffer ∈ buffers, Writable session buffer.path)
    (committed : Commits state session buffers final last written refused) :
    ∀ entry ∈ refused, ¬ session.Accepts entry.1 := by
  induction committed with
  | nil => simp
  | unchanged _ _ induction => exact induction plain (List.forall_mem_cons.mp writable).2
  | stored _ success quiet _ induction =>
      obtain ⟨first, later⟩ := List.forall_mem_cons.mp writable
      have setting := (Activity.writeFile_ok success).1.trans quiet.toSameSetting
      intro entry member accepted
      exact induction (setting.hasPlainTag plain)
        (fun other among => (((later other among).of_write plain first).1 success).of_quiet quiet)
        entry member (setting.accepts accepted)
  | refused _ stop quiet _ induction =>
      obtain ⟨first, later⟩ := List.forall_mem_cons.mp writable
      have setting := (Activity.writeFile_error stop).1.trans quiet.toSameSetting
      intro entry member accepted
      rcases List.mem_cons.mp member with rfl | among
      · obtain ⟨bytes, read⟩ := first.there
        obtain ⟨_, success⟩ :=
          Activity.writeFile_of_accepts plain first.clean read first.free accepted
        rw [success] at stop
        cases stop
      · exact induction (setting.hasPlainTag plain)
          (fun other listed => (((later other listed).of_write plain first).2 _ stop).of_quiet quiet)
          entry among (setting.accepts accepted)

/-- A place that steps do not reach: it is not that of a file of theirs, nor of a
backup or of a temporary file. -/
structure OutOfReach (session : Session) (steps : List Step) (place : Place) : Prop where
  notFile : ∀ step ∈ steps, ∀ key, fileKey? session.project step.file = some key →
    key.place ≠ place
  notBackup : ¬ IsBackupPlace session.project steps place
  notTemporary : session.temporaryName ∉ place

theorem OutOfReach.temporary_ne {place : Place} (apart : OutOfReach session steps place)
    (plain : session.HasPlainTag) (target : Path) :
    place ≠ (Activity.temporaryFor session target).place := by
  intro same
  apply apart.notTemporary
  rw [same, Session.temporaryFor_place plain]
  simp

/-- Executing steps and writing out their edits leaves alone what the steps do
not reach. -/
theorem Commits.spares {done : List Step} {executed : RunState} {committed : Session}
    {written : List Path} {refused : List (Path × String)} (fresh : FreshTag session steps)
    (within : ∀ step ∈ done, step ∈ steps) (empty : state.buffers = [])
    (execution : Executes backup state session done executed middle)
    (commitment : Commits executed middle executed.buffers final committed written refused) :
    Workspace.Evolves (fun place => ¬ OutOfReach session steps place) (fun _ => False)
      session.workspace committed.workspace := by
  have setting := execution.sameSetting
  refine ((execution.evolves fun _ => False).touching ?_).trans
    ((commitment.evolves_of_writable (execution.writable fresh within empty)).touching ?_)
  · rintro place ⟨step, member, key, known, same⟩ apart
    exact apart.notBackup ⟨step, within step member, key, known, same⟩
  · rintro place ⟨buffer, member, temporary | target⟩ apart
    · rw [setting.temporaryFor] at temporary
      exact apart.temporary_ne fresh.plain _ temporary
    · rcases (execution.bufferPaths (by simp [empty])).2 buffer.path
        (List.mem_map_of_mem member) with old | ⟨_, step, among, known⟩
      · simp [empty] at old
      · exact apart.notFile step (within step among) _ known target.symm

end Migration

end Restyle
