import Restyle.Proofs.Migration.Arrivals
import Restyle.Proofs.Migration.Errands
import Restyle.Proofs.Migration.Frames

/-!
# Backups

The first edit of a file that is found has the file copied beside itself.  The copy is
taken from the disk in the middle of the execution, while edits are kept in memory, and
the files themselves are written only afterwards.  So a backup holds what its file held
before the run, however many steps edit the file and whether or not it is written.

The names of backups end in a suffix of their own.  A run makes or changes a file with
such a name only as the backup of a file that it edits, unless the shared stylesheet or
the checkpoint has that name.
-/

namespace Restyle

/-- The file at a place, if one stands there. -/
def Workspace.file? (workspace : Workspace) (place : Place) : Option (List UInt8 × Nat) :=
  match workspace.get? place with
  | some (.file bytes mode) => some (bytes, mode)
  | _ => none

theorem Workspace.Evolves.file?_eq {touched made : Place → Prop} {before after : Workspace}
    {place : Place} (evolved : Workspace.Evolves touched made before after)
    (outside : ¬ touched place) : after.file? place = before.file? place := by
  unfold Workspace.file?
  rcases evolved.keepsOther place outside with kept | ⟨absent, directory⟩
  · rw [kept]
  · rw [absent, directory]

def HasBackupName (place : Place) : Prop :=
  ".bak".toList <:+ (place.getLastD "").toList

instance (place : Place) : Decidable (HasBackupName place) :=
  inferInstanceAs (Decidable (_ <:+ _))

/-- Whether a place has the name of a backup and is neither that of the stylesheet nor
that of the checkpoint. -/
def IsBackupSpot (layout : Layout) (place : Place) : Prop :=
  HasBackupName place ∧ place ≠ layout.stylesheet.place ∧ place ≠ layout.checkpoint.place

instance (layout : Layout) (place : Place) : Decidable (IsBackupSpot layout place) :=
  inferInstanceAs (Decidable (_ ∧ _))

theorem Path.place_backup (path : Path) :
    (path.withSuffix ".bak").place = path.parent.place ++ [path.name ++ ".bak"] := by
  have down : path.name ++ ".bak" ≠ ".." := by
    intro same
    have size := congrArg (fun text => text.toList.length) same
    simp at size
  show Path.follow [] (path.names.dropLast ++ [path.name ++ ".bak"]) = _
  rw [Path.follow_append, Path.follow_singleton down]
  rfl

theorem hasBackupName_backup (path : Path) : HasBackupName (path.withSuffix ".bak").place := by
  rw [Path.place_backup]
  simp [HasBackupName]

/-- A file has its backup for itself: no other place has it. -/
theorem Workspace.place_of_backup {workspace : Workspace} {path other : Path} {bytes : List UInt8}
    (read : workspace.readBytes path = .ok bytes) (below : other.names ≠ [])
    (same : (path.withSuffix ".bak").place = (other.withSuffix ".bak").place) :
    path.place = other.place := by
  obtain ⟨name, whole, down, _, _, place⟩ := Workspace.parent_of_file read
  have last : path.name = name := by simp [Path.name, whole]
  rw [Path.place_backup, Path.place_backup] at same
  obtain ⟨parents, names⟩ := List.append_inj' same rfl
  have letters := congrArg String.toList (List.singleton_inj.mp names)
  simp only [String.toList_append, List.append_cancel_right_eq] at letters
  have sameName : path.name = other.name := String.toList_inj.mp letters
  have split : other.names = other.parent.names ++ [other.name] := by
    simp [Path.parent, Path.name, List.getLastD_eq_getLast?, List.getLast?_eq_getLast_of_ne_nil below,
      List.dropLast_append_getLast below]
  rw [place, parents]
  conv_rhs => rw [Path.place, split, Path.follow_append, ← sameName, last,
    Path.follow_singleton down]
  rfl

namespace RunState

variable {state : RunState}

@[simp]
theorem record_backedUp (state : RunState) (step : Step) (status : StepStatus)
    (error : Option String) (size : Option EditSize) :
    (state.record step status error size).backedUp = state.backedUp := by
  cases status <;> rfl

@[simp]
theorem keepSideEffect_backedUp (state : RunState) (effect : Option SideEffect) :
    (state.keepSideEffect effect).backedUp = state.backedUp := by
  rcases effect with _ | (_ | _) <;> rfl

end RunState

namespace Migration

open Activity

variable {options : MigrationOptions} {layout : Layout} {index : IndexRebuild} {task : Task}
  {state opened kept next final : RunState} {base session started middle after last : Session}
  {step : Step} {steps : List Step} {backup ask : Bool} {decision : Option Decision}
  {result : StepResult} {arrival : Arrival} {key path target : Path} {place : Place}
  {bytes : List UInt8} {content : List Char}

/-! ## While steps are executed -/

theorem Opens.backedUp {workspace : Workspace} (buffered : Opens workspace path state opened content) :
    opened.backedUp = state.backedUp := by
  cases buffered <;> rfl

@[simp]
theorem afterEdit_backedUp (kept : RunState) (step : Step) (path : Path) (edit : Edit) :
    (afterEdit kept step path edit).backedUp = kept.backedUp := by
  simp [afterEdit, RunState.setContent]

/-- What a step does for the backups in a run that makes them.  Only a step that is applied
does something: it has its file copied, unless that was done before. -/
inductive BacksUp (step : Step) (state : RunState) (session : Session) (next : RunState)
    (after : Session) : Prop where
  | idle (same : after.workspace = session.workspace) (listed : next.backedUp = state.backedUp)
      (apart : ∀ result, next.results = state.results ++ [result] → result.status ≠ .applied)
  | again {key : Path} (known : fileKey? session.project step.file = some key)
      (already : key ∈ state.backedUp) (same : after.workspace = session.workspace)
      (listed : next.backedUp = state.backedUp)
  | copies {key : Path} {ready written : Session} {outcome : Except SystemError Unit}
      {result : StepResult} (known : fileKey? session.project step.file = some key)
      (before : ready.workspace = session.workspace)
      (stored : copyFile key (key.withSuffix ".bak") ready = .ok outcome written)
      (same : after.workspace = written.workspace)
      (listed : next.backedUp = state.backedUp ++ [key])
      (results : next.results = state.results ++ [result]) (applied : result.status = .applied)

theorem BacksUp.of_record {status : StepStatus} {error : Option String}
    (buffered : opened.backedUp = state.backedUp) (before : opened.results = state.results)
    (other : status ≠ StepStatus.applied) (same : after.workspace = session.workspace) :
    BacksUp step state session (opened.record step status error none) after := by
  refine .idle same (by rw [RunState.record_backedUp, buffered]) fun result results => ?_
  rw [RunState.record_results, before, List.append_cancel_left_eq] at results
  cases results
  exact other

theorem Processed.backsUp (processed : Processed true step state session next after) :
    BacksUp step state session next after := by
  cases processed with
  | blocked _ quiet => exact .of_record rfl rfl nofun quiet.workspace
  | declined _ quiet => exact .of_record rfl rfl nofun quiet.workspace
  | unreadable _ _ _ _ _ quiet => exact .of_record rfl rfl nofun quiet.workspace
  | unlocated _ _ buffered _ quiet =>
      exact .of_record buffered.backedUp buffered.results nofun quiet.workspace
  | edited free known buffered made before copied quiet =>
      rename_i opened kept ready middle path content edit
      rcases backUp_eq_ok copied with ⟨already, rfl, rfl⟩ | ⟨rfl, outcome, written, stored, noted⟩
      · refine .again known (buffered.backedUp ▸ already) (quiet.workspace.trans before.workspace) ?_
        rw [afterEdit_backedUp, buffered.backedUp]
      · have results := afterEdit_results
          { opened with backedUp := opened.backedUp ++ [path] } step path edit
        refine .copies known before.workspace stored (quiet.workspace.trans noted.workspace) ?_
          (results.trans (congrArg (· ++ [_]) buffered.results)) rfl
        rw [afterEdit_backedUp, buffered.backedUp]

theorem Processed.workspace_eq (processed : Processed false step state session next after) :
    after.workspace = session.workspace := by
  cases processed with
  | blocked _ quiet => exact quiet.workspace
  | declined _ quiet => exact quiet.workspace
  | unreadable _ _ _ _ _ quiet => exact quiet.workspace
  | unlocated _ _ _ _ quiet => exact quiet.workspace
  | edited _ _ _ _ before copied quiet =>
      obtain ⟨_, rfl⟩ := pure_eq_ok.mp copied
      exact quiet.workspace.trans before.workspace

/-- A step that changes what stands at a place has edited its file and has copied it
there. -/
theorem Processed.changes (processed : Processed backup step state session next after)
    (changed : after.workspace.get? place ≠ session.workspace.get? place) :
    backup = true ∧ ∃ key bytes result, fileKey? session.project step.file = some key ∧
      place = (key.withSuffix ".bak").place ∧ session.workspace.readBytes key = .ok bytes ∧
        next.results = state.results ++ [result] ∧ result.status = .applied := by
  cases backup with
  | false => exact absurd (by rw [processed.workspace_eq]) changed
  | true =>
      cases processed.backsUp with
      | idle same _ _ => exact absurd (by rw [same]) changed
      | again _ _ same _ => exact absurd (by rw [same]) changed
      | @copies key ready written outcome result known before stored same _ results applied =>
          rw [same, ← before] at changed
          rcases copyFile_cases stored with ⟨_, _, rfl⟩ | ⟨bytes, workspace, _, read, put, rfl⟩
          · exact absurd rfl changed
          · have evolved := @Workspace.writeBytes_evolves _ _ _ (fun _ => False) _ put
            have here : place = (key.withSuffix ".bak").place := by
              by_contra apart
              exact changed (evolved.get?_eq apart)
            exact ⟨rfl, key, bytes, result, known, here, before ▸ read, results, applied⟩

/-- How the step ends that an execution has come to, if it gets a result. -/
def Arrival.status? (backup : Bool) (arrival : Arrival) : Option StepStatus :=
  match arrival.handling backup with
  | .ok (_, next) _ => (next.results.drop arrival.state.results.length).head?.map (·.status)
  | .error _ _ => none

theorem Arrival.status?_of_results
    (handled : arrival.handling backup = .ok (decision, next) middle)
    (results : next.results = arrival.state.results ++ [result]) :
    arrival.status? backup = some result.status := by
  simp [status?, handled, results]

theorem Arrival.processed_of_applied (applied : arrival.status? backup = some .applied) :
    ∃ decision next middle result, arrival.handling backup = .ok (decision, next) middle ∧
      decision ≠ some .quit ∧
        Processed backup arrival.step arrival.state arrival.session next middle ∧
          next.results = arrival.state.results ++ [result] ∧ result.status = .applied := by
  cases handled : arrival.handling backup with
  | error failure middle => simp [status?, handled] at applied
  | ok outcome middle =>
      obtain ⟨decision, next⟩ := outcome
      have goesOn : decision ≠ some .quit := by
        rintro rfl
        obtain ⟨_, rfl, _⟩ := (handle_eq_ok handled).of_quit
        simp [status?, handled] at applied
      have processed := (handle_eq_ok handled).processed goesOn
      obtain ⟨result, results, _⟩ := processed.records
      rw [status?_of_results handled results, Option.some.injEq] at applied
      exact ⟨decision, next, middle, result, rfl, goesOn, processed, results, applied⟩

/-- An execution changes what stands at a place only where it comes to a step that edits
its file, and copies the file there. -/
theorem execute_changes (ends : EndsIn (execute backup ask state steps) session last)
    (changed : last.workspace.get? place ≠ session.workspace.get? place) :
    backup = true ∧ ∃ arrival key bytes, Arrives backup ask state session steps arrival ∧
      fileKey? session.project arrival.step.file = some key ∧
        arrival.status? backup = some .applied ∧ place = (key.withSuffix ".bak").place ∧
          arrival.session.workspace.readBytes key = .ok bytes := by
  induction steps generalizing ask state session with
  | nil =>
      have still := Maintains.ends (maintains_pure _) (Session.Quiet.refl session) ends
      exact absurd (by rw [still.workspace]) changed
  | cons step steps induction =>
      rw [execute_handle] at ends
      rcases ends.bind with ⟨failure, stopped⟩ | ⟨⟨decision, next⟩, middle, handled, rest⟩
      · have quiet := failsQuietly_handle _ _ _ _ _ _ _ stopped
        exact absurd (by rw [quiet.workspace]) changed
      · dsimp only at rest
        split at rest
        · rename_i quit
          subst quit
          have still := Maintains.ends (maintains_pure _) (Session.Quiet.refl middle) rest
          have quiet := (handle_eq_ok handled).of_quit.2.2.trans still
          exact absurd (by rw [quiet.workspace]) changed
        · rename_i goesOn
          have processed := (handle_eq_ok handled).processed goesOn
          by_cases same : middle.workspace.get? place = session.workspace.get? place
          · rw [← same] at changed
            obtain ⟨backs, arrival, key, bytes, arrives, known, told⟩ := induction rest changed
            rw [processed.sameSetting.project] at known
            exact ⟨backs, arrival, key, bytes, .later handled goesOn arrives, known, told⟩
          · obtain ⟨backs, key, bytes, result, known, here, read, results, applied⟩ :=
              processed.changes same
            let arrival : Arrival := ⟨ask, state, session, step⟩
            have handling : arrival.handling backup = .ok (decision, next) middle := handled
            refine ⟨backs, arrival, key, bytes, .here, known, ?_, here, read⟩
            rw [Arrival.status?_of_results handling results, applied]

/-- What is known of a file and its backup while steps are executed: the bytes of the
file, that the backup can be written, and that it holds the bytes once the file is noted
as backed up. -/
structure Backs (key : Path) (bytes : List UInt8) (state : RunState) (workspace : Workspace) :
    Prop where
  source : workspace.readBytes key = .ok bytes
  located : workspace.locate (key.withSuffix ".bak") = .ok (key.withSuffix ".bak").place
  free : workspace.get? (key.withSuffix ".bak").place ≠ some .directory
  held : key ∈ state.backedUp →
    ∃ mode, workspace.get? (key.withSuffix ".bak").place = some (.file bytes mode)

/-- A copy of a file keeps what is known of the backups: it holds the bytes of its file,
and no other file has it for its backup. -/
theorem Backs.copy {outcome : Except SystemError Unit}
    (backs : Backs key bytes state session.workspace)
    (stored : copyFile path (path.withSuffix ".bak") session = .ok outcome after)
    (noted : key ∈ state.backedUp ∨ key = path) :
    ∃ mode, after.workspace.get? (key.withSuffix ".bak").place = some (.file bytes mode) := by
  rcases copyFile_cases stored with ⟨error, rfl, rfl⟩ | ⟨other, workspace, _, read, put, rfl⟩
  · rcases noted with old | rfl
    · exact backs.held old
    · obtain ⟨copied, made⟩ := copyFile_of_free backs.source backs.located backs.free
      rw [made] at stored
      cases stored
  · by_cases same : (path.withSuffix ".bak").place = (key.withSuffix ".bak").place
    · obtain ⟨name, whole, _⟩ := Workspace.parent_of_file backs.source
      have place := Workspace.place_of_backup read (by simp [whole]) same
      obtain ⟨_, _, standing⟩ := Workspace.readBytes_eq_ok_iff.mp read
      obtain ⟨_, _, source⟩ := Workspace.readBytes_eq_ok_iff.mp backs.source
      rw [place, source] at standing
      cases standing
      rw [← same]
      exact Workspace.get?_writeBytes put
    · have apart : key ≠ path := fun equal => same (equal ▸ rfl)
      have evolved := @Workspace.writeBytes_evolves _ _ _ (fun _ => False) _ put
      rw [evolved.get?_eq (Ne.symm same)]
      exact backs.held (noted.resolve_right apart)

/-- Also when a step copies its file, the backup of another keeps its bytes. -/
theorem Processed.backs (processed : Processed true step state session next after)
    (backs : Backs key bytes state session.workspace) (plain : ¬ HasBackupName key.place) :
    Backs key bytes next after.workspace := by
  have evolved := @Processed.evolves _ _ _ _ _ _ (fun _ => False) processed
  have outside : ¬ ∃ other, fileKey? session.project step.file = some other ∧
      key.place = (other.withSuffix ".bak").place := by
    rintro ⟨other, _, same⟩
    exact plain (same ▸ hasBackupName_backup other)
  refine ⟨evolved.readBytes outside backs.source, evolved.locate backs.located, ?_, ?_⟩
  · exact fun directory => backs.free ((evolved.newDirectory _ directory).resolve_right id)
  cases processed.backsUp with
  | idle same listed _ =>
      rw [same, listed]
      exact backs.held
  | again _ _ same listed =>
      rw [same, listed]
      exact backs.held
  | copies _ before stored same listed _ _ =>
      rw [same, listed]
      intro noted
      apply Backs.copy (before ▸ backs) stored
      rcases List.mem_append.mp noted with old | here
      · exact Or.inl old
      · exact Or.inr (List.mem_singleton.mp here)

/-- A file that is noted as backed up stays so, and one that is edited is noted. -/
theorem Processed.backedUp (processed : Processed true step state session next after) :
    (∀ path ∈ state.backedUp, path ∈ next.backedUp) ∧
      ∀ result, next.results = state.results ++ [result] → result.status = .applied →
        ∀ key, fileKey? session.project step.file = some key → key ∈ next.backedUp := by
  cases processed.backsUp with
  | idle _ listed apart =>
      rw [listed]
      exact ⟨fun _ old => old, fun result results applied => absurd applied (apart result results)⟩
  | again known already _ listed =>
      rw [listed]
      refine ⟨fun _ old => old, fun _ _ _ key named => ?_⟩
      rw [known, Option.some.injEq] at named
      exact named ▸ already
  | copies known _ _ _ listed _ _ =>
      rw [listed]
      refine ⟨fun _ old => List.mem_append_left _ old, fun _ _ _ key named => ?_⟩
      rw [known, Option.some.injEq] at named
      exact List.mem_append_right _ (List.mem_singleton.mpr named.symm)

theorem Executes.backs (executed : Executes true state session steps final last)
    (backs : Backs key bytes state session.workspace) (plain : ¬ HasBackupName key.place) :
    Backs key bytes final last.workspace ∧ (key ∈ state.backedUp → key ∈ final.backedUp) := by
  induction executed with
  | nil quiet =>
      rw [quiet.workspace]
      exact ⟨backs, id⟩
  | cons first _ induction =>
      obtain ⟨ended, kept⟩ := induction (first.backs backs plain)
      exact ⟨ended, fun listed => kept (first.backedUp.1 _ listed)⟩

theorem execute_ends (ends : EndsIn (execute backup ask state steps) session last) :
    ∃ done final, Executes backup state session done final last := by
  rcases ends with ⟨final, returned⟩ | ⟨failure, stopped⟩
  · obtain ⟨done, _, _, executes, _⟩ := execute_executes returned
    exact ⟨done, final, executes⟩
  · obtain ⟨done, _, next, _, executes⟩ := execute_stops stopped
    exact ⟨done, next, executes⟩

/-- A file that a step edits has a backup when the execution ends, with the bytes that
the file had when it began. -/
theorem execute_backs (ends : EndsIn (execute true ask state steps) session last)
    (unnoted : state.backedUp = []) (arrives : Arrives true ask state session steps arrival)
    (applied : arrival.status? true = some .applied)
    (known : fileKey? session.project arrival.step.file = some key)
    (plain : ¬ HasBackupName key.place)
    (copies : ∃ copied, copyFile key (key.withSuffix ".bak") arrival.session =
      .ok (.ok ()) copied) :
    ∃ bytes mode, session.workspace.readBytes key = .ok bytes ∧
      last.workspace.locate (key.withSuffix ".bak") = .ok (key.withSuffix ".bak").place ∧
        last.workspace.get? (key.withSuffix ".bak").place = some (.file bytes mode) := by
  obtain ⟨copied, stored⟩ := copies
  obtain ⟨before, behind, rfl, executed, same⟩ := arrives.split
  have evolved := (executed.evolves fun _ => False).symm
  have outside : ¬ IsBackupPlace session.project before key.place := by
    rintro ⟨_, _, other, _, equal⟩
    exact plain (equal ▸ hasBackupName_backup other)
  rcases copyFile_cases stored with ⟨_, failed, _⟩ | ⟨bytes, _, _, read, put, _⟩
  · cases failed
  obtain ⟨located, free, _⟩ := Workspace.writeBytes_cases put
  have begun : Backs key bytes state session.workspace := by
    refine ⟨evolved.readBytes outside read, evolved.locate located, fun directory => ?_, ?_⟩
    · exact free (evolved.symm.keepsDirectory _ directory)
    · simp [unnoted]
  obtain ⟨decision, next, middle, result, handled, goesOn, processed, results, done⟩ :=
    Arrival.processed_of_applied applied
  have rest : EndsIn (execute true (asksOn arrival.asks decision) next behind) middle last := by
    simp only [EndsIn, same] at ends
    rw [execute_handle] at ends
    rcases EndsIn.bind ends with ⟨_, stopped⟩ | ⟨told, ready, again, rest⟩
    · rw [show handle _ _ _ _ _ = _ from handled] at stopped
      cases stopped
    · rw [show handle _ _ _ _ _ = _ from handled] at again
      cases again
      dsimp only at rest
      rwa [if_neg goesOn] at rest
  obtain ⟨later, final, executedLater⟩ := execute_ends rest
  have there := (executed.backs begun plain).1
  rw [← executed.sameSetting.project] at known
  have noted := processed.backedUp.2 result results done key known
  obtain ⟨ended, kept⟩ := executedLater.backs (processed.backs there plain) plain
  obtain ⟨mode, standing⟩ := ended.held (kept noted)
  exact ⟨bytes, mode, begun.source, ended.located, standing⟩

/-! ## After the execution -/

/-- What has come of a session in which the backups were left alone. -/
structure SparesBackups (layout : Layout) (base session : Session) : Prop where
  setting : base.SameSetting session
  evolved : Workspace.Evolves (fun place => ¬ IsBackupSpot layout place) (fun _ => True)
    base.workspace session.workspace

theorem maintains_sparesBackups (plain : base.HasPlainTag)
    (other : ¬ IsBackupSpot layout target.place) (content : String) :
    Maintains (SparesBackups layout base) (writeFile target content) := by
  intro session spares
  have aside : ¬ IsBackupSpot layout (temporaryFor session target).place := by
    rw [spares.setting.temporaryFor, Session.temporaryFor_place plain]
    rintro ⟨⟨lead, same⟩, _⟩
    apply Session.temporaryName_ne_backup plain (String.ofList lead)
    apply String.toList_inj.mp
    rw [String.toList_append, String.toList_ofList, same, List.getLastD_concat]
  constructor
  · intro _ after success
    obtain ⟨setting, evolved, _⟩ := writeFile_ok success
    refine ⟨spares.setting.trans setting, spares.evolved.trans (evolved.mono ?_ fun _ _ => trivial)⟩
    rintro place (rfl | rfl)
    · exact aside
    · exact other
  · intro failure after stopped
    obtain ⟨setting, evolved⟩ := writeFile_error stopped
    refine ⟨spares.setting.trans setting, spares.evolved.trans (evolved.mono ?_ fun _ _ => trivial)⟩
    rintro place rfl
    exact aside

theorem finish_sparesBackups {executed : RunState} (plain : session.HasPlainTag)
    (sources : ∀ buffer ∈ executed.buffers, ¬ HasBackupName buffer.path.place)
    (ends : EndsIn (finish layout index task executed) session after) :
    SparesBackups layout session after := by
  have logs : IgnoresLog (SparesBackups layout session) :=
    fun _ _ spares => ⟨spares.setting.trans ⟨rfl, rfl, rfl, rfl⟩, spares.evolved⟩
  have rebuilds : IgnoresRebuilds (SparesBackups layout session) :=
    fun _ _ spares => ⟨spares.setting.trans ⟨rfl, rfl, rfl, rfl⟩, spares.evolved⟩
  have maintained := maintains_finish logs rebuilds
    (fun buffer member _ => maintains_sparesBackups plain
      (fun spot => sources buffer member spot.1) _)
    (maintains_sparesBackups plain fun spot => spot.2.1 rfl)
    (maintains_sparesBackups plain fun spot => spot.2.2 rfl) index task
  exact Maintains.ends maintained ⟨.refl _, .refl _ _ _⟩ ends

theorem applySteps_ends (plain : started.HasPlainTag)
    (sources : ∀ step ∈ task.steps, ∀ key, fileKey? started.project step.file = some key →
      ¬ HasBackupName key.place)
    (ends : EndsIn (executeAll options (startState task.checkpoint) task.steps >>=
      finish layout index task) started after) :
    ∃ last, EndsIn (execute options.backup options.interactive (startState task.checkpoint)
        task.steps) (conversing options started) last ∧
      Workspace.Evolves (fun place => ¬ IsBackupSpot layout place) (fun _ => True)
        last.workspace after.workspace := by
  rcases ends.bind with ⟨failure, stopped⟩ | ⟨executed, middle, executing, finishes⟩
  · obtain ⟨last, stopped, quiet⟩ := executeAll_eq_error stopped
    exact ⟨last, Or.inr ⟨failure, stopped⟩, quiet.workspace ▸ .refl _ _ _⟩
  · obtain ⟨last, executed, quiet, _⟩ := executeAll_eq_ok executing
    obtain ⟨_, _, _, execution, _⟩ := executeAll_executes executing
    have spares := finish_sparesBackups (execution.sameSetting.hasPlainTag plain)
      (fun buffer member => by
        obtain ⟨step, listed, known⟩ := executeAll_keyed executing buffer member
        exact sources step listed _ known) finishes
    exact ⟨last, Or.inl ⟨_, executed⟩, quiet.workspace ▸ spares.evolved⟩

/-! ## The whole run -/

/-- Whether a run comes to a step that edits the file of a path. -/
structure Transforms (options : MigrationOptions) (layout : Layout) (session : Session)
    (key : Path) (arrival : Arrival) : Prop where
  comes : ∃ task started, prepare options layout session = .ok task started ∧
    ComesTo options task started arrival
  known : fileKey? session.project arrival.step.file = some key
  applied : arrival.status? options.backup = some .applied

/-- A run that ends has done nothing, or it has applied the steps of its task. -/
theorem run_idle_or_applies (ends : EndsIn (run options layout index) session after) :
    (session.Quiet after ∧ ∀ key arrival, ¬ Transforms options layout session key arrival) ∨
      ∃ task started, prepare options layout session = .ok task started ∧ options.apply = true ∧
        EndsIn (executeAll options (startState task.checkpoint) task.steps >>=
          finish layout index task) started after := by
  rw [run_eq] at ends
  rcases ends.bind with ⟨failure, unprepared⟩ | ⟨task, started, prepared, performs⟩
  · refine Or.inl ⟨(isQuiet_prepare options layout session).2 _ _ unprepared, ?_⟩
    rintro key arrival ⟨⟨task, started, prepared, _⟩, _, _⟩
    rw [prepared] at unprepared
    cases unprepared
  · have quiet := (prepare_eq_ok prepared).2
    have idle : (∀ arrival, ¬ ComesTo options task started arrival) →
        ∀ key arrival, ¬ Transforms options layout session key arrival := by
      rintro nowhere key arrival ⟨⟨other, begun, again, comes⟩, _, _⟩
      rw [prepared] at again
      cases again
      exact nowhere arrival comes
    unfold perform at performs
    split at performs
    · rename_i none
      have still := Maintains.ends (maintains_pure _) (Session.Quiet.refl started) performs
      refine Or.inl ⟨quiet.trans still, idle ?_⟩
      rintro arrival ⟨_, arrives⟩
      rw [List.isEmpty_iff.mp none] at arrives
      cases arrives
    · split at performs
      · rename_i applying
        rw [applySteps_eq] at performs
        exact Or.inr ⟨task, started, prepared, applying, performs⟩
      · rename_i previewing
        have still := Maintains.ends (maintains_value _) (Session.Quiet.refl started) performs
        exact Or.inl ⟨quiet.trans still, idle fun arrival comes => previewing comes.1⟩

/-- A run that executes steps of its plan, and leaves the backups alone afterwards. -/
structure Enacts (options : MigrationOptions) (layout : Layout) (session : Session) (task : Task)
    (started last after : Session) : Prop where
  prepared : prepare options layout session = .ok task started
  applying : options.apply = true
  begun : session.Quiet (conversing options started)
  planned : ∀ step ∈ task.steps, step ∈ plannedSteps options layout session
  executes : EndsIn (execute options.backup options.interactive (startState task.checkpoint)
    task.steps) (conversing options started) last
  spared : Workspace.Evolves (fun place => ¬ IsBackupSpot layout place) (fun _ => True)
    last.workspace after.workspace

theorem run_idle_or_enacts (ends : EndsIn (run options layout index) session after)
    (plain : session.HasPlainTag)
    (sources : ∀ step ∈ plannedSteps options layout session, ∀ key,
      fileKey? session.project step.file = some key → ¬ HasBackupName key.place) :
    (session.Quiet after ∧ ∀ key arrival, ¬ Transforms options layout session key arrival) ∨
      ∃ task started last, Enacts options layout session task started last after := by
  rcases run_idle_or_applies ends with idle | ⟨task, started, prepared, applying, applies⟩
  · exact Or.inl idle
  · obtain ⟨known, quiet⟩ := prepare_eq_ok prepared
    have named : ∀ step ∈ task.steps, ∀ key, fileKey? started.project step.file = some key →
        ¬ HasBackupName key.place := by
      rw [quiet.project]
      exact fun step member => sources step (known.planned step member)
    obtain ⟨last, executes, spared⟩ := applySteps_ends (quiet.hasPlainTag plain) named applies
    exact Or.inr ⟨task, started, last, prepared, applying,
      quiet.trans (conversing_quiet options started), known.planned, executes, spared⟩

/-- A run makes or changes a file with the name of a backup only as that of a file that
it edits. -/
theorem run_changes_backup (ends : EndsIn (run options layout index) session after)
    (plain : session.HasPlainTag)
    (sources : ∀ step ∈ plannedSteps options layout session, ∀ key,
      fileKey? session.project step.file = some key → ¬ HasBackupName key.place)
    (spot : IsBackupSpot layout place)
    (changed : after.workspace.file? place ≠ session.workspace.file? place) :
    options.backup = true ∧ ∃ key arrival bytes, Transforms options layout session key arrival ∧
      place = (key.withSuffix ".bak").place ∧ session.workspace.readBytes key = .ok bytes := by
  rcases run_idle_or_enacts ends plain sources with ⟨quiet, _⟩ | ⟨task, started, last, enacts⟩
  · exact absurd (by rw [quiet.workspace]) changed
  · rw [enacts.spared.file?_eq (not_not_intro spot), ← enacts.begun.workspace] at changed
    have differs : last.workspace.get? place ≠ (conversing options started).workspace.get? place :=
      fun same => changed (by simp only [Workspace.file?, same])
    obtain ⟨backs, arrival, key, bytes, arrives, file, applied, here, read⟩ :=
      execute_changes enacts.executes differs
    obtain ⟨before, behind, split, executed, _⟩ := arrives.split
    rw [enacts.begun.project] at file
    have named := sources _ (enacts.planned arrival.step (by simp [split])) key file
    have outside : ¬ IsBackupPlace (conversing options started).project before key.place := by
      rintro ⟨_, _, other, _, equal⟩
      exact named (equal ▸ hasBackupName_backup other)
    have original := (executed.evolves fun _ => False).symm.readBytes outside read
    rw [enacts.begun.workspace] at original
    exact ⟨backs, key, arrival, bytes,
      ⟨⟨task, started, enacts.prepared, enacts.applying, arrives⟩, file, applied⟩, here, original⟩

/-- After a run with backups, the backup of a file that a step has edited holds the bytes
that the file had before the run, unless the copy failed.  It does not matter how many
steps edit the file, what is answered, which writes fail and how the run ends.  Beside
other files no backup is made or changed, and in a run without backups there is none. -/
theorem backups_hold_originals (ends : EndsIn (run options layout index) session after)
    (plain : session.HasPlainTag)
    (sources : ∀ step ∈ plannedSteps options layout session, ∀ key,
      fileKey? session.project step.file = some key → ¬ HasBackupName key.place) :
    (options.backup = true → ∀ key arrival, Transforms options layout session key arrival →
        IsBackupSpot layout (key.withSuffix ".bak").place →
          (∃ copied, copyFile key (key.withSuffix ".bak") arrival.session = .ok (.ok ()) copied) →
            ∃ bytes, session.workspace.readBytes key = .ok bytes ∧
              after.workspace.readBytes (key.withSuffix ".bak") = .ok bytes) ∧
      (∀ key : Path, key.names ≠ [] → IsBackupSpot layout (key.withSuffix ".bak").place →
        (∀ other arrival, Transforms options layout session other arrival →
          other.place ≠ key.place) →
        after.workspace.file? (key.withSuffix ".bak").place =
          session.workspace.file? (key.withSuffix ".bak").place) ∧
        (options.backup = false → ∀ place, IsBackupSpot layout place →
          after.workspace.file? place = session.workspace.file? place) := by
  refine ⟨?_, ?_, ?_⟩
  · intro backs key arrival transforms spot copies
    rcases run_idle_or_enacts ends plain sources with ⟨_, idle⟩ | ⟨task, started, last, enacts⟩
    · exact absurd transforms (idle key arrival)
    · obtain ⟨⟨other, found, again, _, arrives⟩, file, applied⟩ := transforms
      rw [enacts.prepared] at again
      cases again
      obtain ⟨before, behind, split, _⟩ := arrives.split
      have named := sources _ (enacts.planned arrival.step (by simp [split])) key file
      have executes := enacts.executes
      rw [backs] at executes arrives applied
      rw [← enacts.begun.project] at file
      obtain ⟨bytes, mode, read, located, standing⟩ := execute_backs executes
        (by cases task.checkpoint <;> rfl) arrives applied file named copies
      rw [enacts.begun.workspace] at read
      refine ⟨bytes, read,
        Workspace.readBytes_eq_ok_iff.mpr ⟨enacts.spared.locate located, mode, ?_⟩⟩
      exact enacts.spared.get?_file (not_not_intro spot) standing
  · intro key below spot untouched
    by_contra changed
    obtain ⟨_, other, arrival, bytes, transforms, same, read⟩ :=
      run_changes_backup ends plain sources spot changed
    exact untouched other arrival transforms (Workspace.place_of_backup read below same.symm)
  · intro without place spot
    by_contra changed
    have backs := (run_changes_backup ends plain sources spot changed).1
    rw [without] at backs
    cases backs

/-- Two steps that each take a class out of one file. -/
def pairErrands : List Json := [errand (.text "a") "x" [], errand (.text "b") "y" []]

def pairPlan : Plan := (Plan.ofJson (.object (errandFields pairErrands))).toOption.getD default

def errandFile : Path := ⟨.root, ["p", "f"]⟩

/-- Where a run of that plan comes to its first step. -/
def pairArrival : Arrival :=
  ⟨false, {}, pairPlan.noted smallLayout.plan (errandProject pairErrands),
    pairPlan.steps.headD default⟩

theorem pair_prepares :
    ∃ task, task.plan = pairPlan ∧ task.checkpoint = none ∧ task.steps = pairPlan.steps ∧
      prepare { apply := true } smallLayout (errandProject pairErrands) =
        .ok task (pairPlan.noted smallLayout.plan (errandProject pairErrands)) := by
  apply errand_prepares
  · simp only [pairErrands, List.forall_mem_cons]
    exact ⟨isTidy_errand _ trivial (by simp), isTidy_errand _ trivial (by simp), by simp⟩
  · decide +kernel
  · decide +kernel
  · decide +kernel

theorem pair_transforms :
    Transforms { apply := true } smallLayout (errandProject pairErrands) errandFile pairArrival := by
  obtain ⟨task, _, fresh, steps, prepared⟩ := pair_prepares
  have split : pairPlan.steps = pairPlan.steps.headD default :: pairPlan.steps.tail := by
    decide +kernel
  refine ⟨⟨task, _, prepared, rfl, ?_⟩, by decide +kernel, by decide +kernel⟩
  rw [fresh, steps, split]
  exact .here

/-- However a run of that plan ends, the file is backed up with its three classes. -/
theorem backups_hold_originals_pair :
    ∃ after, EndsIn (run { apply := true } smallLayout .absent) (errandProject pairErrands) after ∧
      after.workspace.readBytes ⟨.root, ["p", "f.bak"]⟩ = .ok (Text.encode "x y z".toList) := by
  obtain ⟨after, ends⟩ : ∃ after,
      EndsIn (run { apply := true } smallLayout .absent) (errandProject pairErrands) after := by
    unfold EndsIn
    cases run { apply := true } smallLayout .absent (errandProject pairErrands) with
    | ok report after => exact ⟨after, Or.inl ⟨report, rfl⟩⟩
    | error failure after => exact ⟨after, Or.inr ⟨failure, rfl⟩⟩
  obtain ⟨task, plan, _, _, prepared⟩ := pair_prepares
  have sources : ∀ step ∈ plannedSteps { apply := true } smallLayout (errandProject pairErrands),
      ∀ key, fileKey? (errandProject pairErrands).project step.file = some key →
        ¬ HasBackupName key.place := by
    rw [(prepare_eq_ok prepared).1.plannedSteps_eq, plan]
    have files : ∀ step ∈ pairPlan.steps, step.file = .text "f" := by decide +kernel
    intro step member key known
    rw [files step member] at known
    have here : fileKey? (errandProject pairErrands).project (.text "f") = some errandFile := by
      decide
    rw [← Option.some.inj (here.symm.trans known)]
    decide
  have holds := (backups_hold_originals ends (by decide) sources).1 rfl errandFile pairArrival
    pair_transforms (by decide)
  have original : (errandProject pairErrands).workspace.readBytes errandFile =
      .ok (Text.encode "x y z".toList) := rfl
  obtain ⟨bytes, read, stored⟩ := holds (copyFile_of_free original rfl (by decide +kernel))
  rw [original, Except.ok.injEq] at read
  subst read
  exact ⟨after, ends, stored⟩

/-- A layout whose stylesheet stands where the backup of the file goes. -/
def besideLayout : Layout := { smallLayout with stylesheet := ⟨.root, ["p", "f.bak"]⟩ }

/-- The project with a token, in which every file can be written. -/
def besideProject : Session := tokenProject ⟨.root, ["q"]⟩

/-- What is seen of a run of that project: the files of the planned steps and of those of
the run, how the first step ends, and the bytes of the backup afterwards. -/
def besideOutcome : Option (List Json × List Json × Option StepStatus × Option (List UInt8)) :=
  match prepareWith Plan.loadCharacters { apply := true } besideLayout besideProject with
  | .error _ _ => none
  | .ok task started =>
      match perform { apply := true } besideLayout .absent task started with
      | .error _ _ => none
      | .ok _ after =>
          some (task.plan.steps.map Step.file, task.steps.map Step.file,
            Arrival.status? true
              ⟨false, startState task.checkpoint, started, task.steps.headD default⟩,
            (after.workspace.readBytes besideLayout.stylesheet).toOption)

theorem beside_observed :
    besideOutcome = some ([.text "f"], [.text "f"], some .applied,
      some (Text.encode
        "x y\n/* north migrate: tokens */\n@theme \x7b\n  --t: x;\n\x7d\n".toList)) := by
  decide +kernel

/-- A backup does not hold what its file held if the stylesheet stands in its place: the
run adds its declarations to the copy. -/
theorem backup_appended :
    ∃ arrival report after bytes,
      (plannedSteps { apply := true } besideLayout besideProject).map Step.file = [.text "f"] ∧
        run { apply := true } besideLayout .absent besideProject = .ok report after ∧
        Transforms { apply := true } besideLayout besideProject tokenFile arrival ∧
        (∃ copied, copyFile tokenFile (tokenFile.withSuffix ".bak") arrival.session =
          .ok (.ok ()) copied) ∧
        after.workspace.readBytes (tokenFile.withSuffix ".bak") = .ok bytes ∧
          besideProject.workspace.readBytes tokenFile ≠ .ok bytes := by
  have observed := beside_observed
  unfold besideOutcome at observed
  split at observed
  · cases observed
  rename_i task started loaded
  split at observed
  · cases observed
  rename_i report after performed
  simp only [Option.some.injEq, Prod.mk.injEq] at observed
  obtain ⟨planned, files, applied, stored⟩ := observed
  have prepared : prepare { apply := true } besideLayout besideProject = .ok task started := by
    rw [prepare_loads]
    exact loaded
  obtain ⟨known, quiet⟩ := prepare_eq_ok prepared
  have original : started.workspace.readBytes tokenFile = .ok (Text.encode "x y".toList) := by
    rw [quiet.workspace]
    rfl
  obtain ⟨step, rest, split⟩ : ∃ step rest, task.steps = step :: rest := by
    cases shape : task.steps with
    | nil =>
        rw [shape] at files
        cases files
    | cons step rest => exact ⟨step, rest, rfl⟩
  rw [split, List.map_cons, List.cons.injEq] at files
  let arrival : Arrival := ⟨false, startState task.checkpoint, started, step⟩
  have transforms : Transforms { apply := true } besideLayout besideProject tokenFile arrival := by
    refine ⟨⟨task, started, prepared, rfl, ?_⟩, ?_, ?_⟩
    · rw [split]
      exact .here
    · show fileKey? besideProject.project step.file = some tokenFile
      rw [files.1]
      decide
    · rw [split] at applied
      exact applied
  refine ⟨arrival, report, after, _, ?_, ?_, transforms, ?_, eq_ok_of_toOption stored, ?_⟩
  · rw [known.plannedSteps_eq]
    exact planned
  · rw [run_of_prepared prepared]
    exact performed
  · apply copyFile_of_free original
    · show started.workspace.locate _ = _
      rw [quiet.workspace]
      rfl
    · show started.workspace.get? _ ≠ _
      rw [quiet.workspace]
      decide
  · rw [← quiet.workspace, original]
    decide +kernel

end Migration

end Restyle
