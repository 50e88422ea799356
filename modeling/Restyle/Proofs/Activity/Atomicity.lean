import Restyle.Proofs.Activity.Acceptance

/-!
# Writing a file all or not at all

Whatever stands in the workspace and whichever stage fails, a write ends in one
of two ways.  The target holds the whole content, with the permissions it had
before, or nothing has changed.  In both cases the temporary file is gone, and
elsewhere at most directories on the way to the target have been made.

One stage is not covered by the failures of writing: the permissions of the target
are asked for before the temporary file is begun, and a path that is too long to
be asked about fails as a read does.
-/

namespace Restyle

/-- Whether a path, or its last name, is too long to be looked up. -/
def Path.IsTooLong (path : Path) : Prop :=
  Workspace.pathLimit ≤ path.toString.utf8ByteSize ∨
    Workspace.nameLimit < path.name.utf8ByteSize

instance (path : Path) : Decidable path.IsTooLong := inferInstanceAs (Decidable (_ ∨ _))

namespace Workspace

variable {workspace before middle after : Workspace} {target : Path}

/-- The permissions that a file written to a target gets: those of the file that is
there, or those of a new one. -/
def modeFor (workspace : Workspace) (target : Path) : Nat :=
  match workspace.get? target.place with
  | some (.file _ mode) => mode
  | _ => newFileMode

/-- Away from some places nothing changes, but that directories on the way to a
target are made. -/
def SparesBut (touched : Place → Prop) (target : Path) (before after : Workspace) : Prop :=
  ∀ place, ¬ touched place → after.get? place = before.get? place ∨
    before.get? place = none ∧ after.get? place = some .directory ∧ target.parent.Passes place

theorem Evolves.sparesBut {touched : Place → Prop}
    (evolved : Evolves touched target.parent.Passes before after) :
    SparesBut touched target before after := by
  intro place outside
  rcases evolved.keepsOther place outside with kept | ⟨absent, made⟩
  · exact Or.inl kept
  · rcases evolved.newDirectory place made with old | permitted
    · rw [absent] at old
      cases old
    · exact Or.inr ⟨absent, made, permitted⟩

/-- A place is spared as well when nothing stands there before and after. -/
theorem SparesBut.of_absent {touched wider : Place → Prop} {place : Place}
    (spared : SparesBut wider target before after)
    (within : ∀ other, wider other → other = place ∨ touched other)
    (absent : before.get? place = none) (gone : after.get? place = none) :
    SparesBut touched target before after := by
  intro other outside
  by_cases same : other = place
  · exact Or.inl (by rw [same, gone, absent])
  · exact spared other fun wide => (within other wide).elim same outside

theorem locate_of_parent (there : workspace.stat target.parent = .ok .directory) :
    workspace.locate target =
      if target.IsTooLong then .error .nameTooLong else .ok target.place := by
  obtain ⟨located, directory⟩ := stat_eq_ok_iff.mp there
  rcases List.eq_nil_or_concat target.names with empty | ⟨above, name, whole⟩
  · obtain ⟨anchor, names⟩ := target
    subst empty
    have short : ¬ Path.IsTooLong ⟨anchor, []⟩ := by cases anchor <;> decide
    rw [if_neg short]
    exact located
  · rw [List.concat_eq_append] at whole
    have parentNames : target.parent.names = above := by simp [Path.parent, whole]
    have last : target.name = name := by simp [Path.name, whole]
    have reached : workspace.locateFrom [] above = .ok target.parent.place := by
      unfold locate at located
      split at located
      · cases located
      · rwa [parentNames] at located
    rw [locate_below whole reached directory]
    simp only [Path.IsTooLong, last]

/-- With the directory of a target there, its permissions are known exactly when it
is not too long. -/
theorem mode?_of_parent (there : workspace.stat target.parent = .ok .directory) :
    (target.IsTooLong → workspace.mode? target = .error ⟨.nameTooLong, some target, none⟩) ∧
      (¬ target.IsTooLong → ∃ mode, workspace.mode? target = .ok mode ∧
        (workspace.get? target.place ≠ some .directory →
          mode.getD newFileMode = workspace.modeFor target)) := by
  have located := locate_of_parent there
  constructor
  · intro long
    rw [if_pos long] at located
    simp [mode?, stat, located]
  · intro short
    rw [if_neg short] at located
    unfold mode? modeFor
    cases standing : workspace.get? target.place with
    | none =>
        have missing : workspace.stat target = .error .notFound := by
          simp [stat, located, standing]
        simp [missing]
    | some entry =>
        have found := stat_eq_ok_iff.mpr ⟨located, standing⟩
        cases entry with
        | directory => simp [found]
        | file bytes mode => simp [found]

end Workspace

/-- The name of the temporary files of a session is new at a target: the path does
not use it, and nothing has it beside the target. -/
structure Session.HasFreshName (session : Session) (target : Path) : Prop where
  plain : session.HasPlainTag
  unused : session.temporaryName ∉ target.names
  absent : session.workspace.get? (Activity.temporaryFor session target).place = none

namespace Session.HasFreshName

variable {session : Session} {target : Path}

theorem apart (fresh : session.HasFreshName target) :
    (Activity.temporaryFor session target).place ≠ target.place := by
  intro same
  apply fresh.unused
  apply Path.mem_place
  rw [← same, Session.temporaryFor_place fresh.plain]
  simp

theorem aside (fresh : session.HasFreshName target) :
    ¬ target.parent.Passes (Activity.temporaryFor session target).place := by
  intro passes
  apply fresh.unused
  have member : session.temporaryName ∈ target.parent.names := by
    apply passes.mem_names
    rw [Session.temporaryFor_place fresh.plain]
    simp
  exact List.dropLast_subset target.names member

end Session.HasFreshName

/-- A path without double dots does not pass the place it leads to before its end. -/
theorem Path.not_passes_place {target : Path} (below : target.names ≠ [])
    (plain : ".." ∉ target.names) : ¬ target.parent.Passes target.place := by
  rintro ⟨names, lead, same⟩
  have shorter := lead.length_le
  have plainLead : ".." ∉ names := fun up =>
    plain (List.dropLast_subset target.names (lead.subset up))
  rw [Path.place, Path.follow_of_plain plain, Path.follow_of_plain plainLead] at same
  have length := congrArg List.length same
  have positive := List.length_pos_iff.mpr below
  simp only [Path.parent, List.length_dropLast, List.length_append] at shorter length
  omega

namespace Activity

variable {session after : Session} {target : Path} {content : String}

/-- A file that is written has the permissions of the file it replaces, or those of
a new one. -/
theorem get?_writeFile (fresh : session.HasFreshName target)
    (success : writeFile target content session = .ok () after) :
    after.workspace.get? target.place =
      some (.file (Text.encode content.toList) (session.workspace.modeFor target)) := by
  have writes := writeFile_writes session target content
  rw [success] at writes
  cases writes with
  | @stored ready mode workspace log setting directories parent permissions attempted =>
      obtain ⟨evolved, located, ⟨last, standing, kept⟩, _⟩ :=
        (writeThrough_outcome target.parent.Passes attempted).1 rfl
      have begun := directories fun _ => False
      have free : ready.workspace.get? target.place ≠ some .directory := by
        intro directory
        rw [evolved.keepsDirectory _ directory] at standing
        cases standing
      have same : ready.workspace.get? target.place = session.workspace.get? target.place :=
        (begun.keepsOther _ id).resolve_right fun made => free made.2
      have absent : ready.workspace.get? (temporaryFor session target).place = none := by
        rcases begun.sparesBut _ id with still | ⟨_, _, passes⟩
        · exact still.trans fresh.absent
        · exact absurd passes fresh.aside
      have short : ¬ target.IsTooLong := fun long => by
        rw [(Workspace.mode?_of_parent parent).1 long] at permissions
        cases permissions
      obtain ⟨known, asked, mode⟩ := (Workspace.mode?_of_parent parent).2 short
      rw [permissions] at asked
      cases asked
      rw [standing, kept absent, mode free]
      simp only [Workspace.modeFor, same]

/-- The ways in which the writing of a file fails, but for failures of writing: the
path holds the null character or is too long. -/
theorem writeFile_failure_exact {failure : Failure}
    (stopped : writeFile target content session = .error failure after) :
    (∃ cause, failure = .write cause) ∨
      (target.hasNull = true ∧ failure = .value .nullInPath) ∨
        target.IsTooLong ∧ failure = .reading (.system ⟨.nameTooLong, some target, none⟩) := by
  have writes := writeFile_writes session target content
  rw [stopped] at writes
  cases writes with
  | unmade _ _ reason =>
      cases reason with
      | directory cause => exact Or.inl ⟨cause, rfl⟩
      | null null => exact Or.inr (Or.inl ⟨null, rfl⟩)
      | permissions parent asked =>
          by_cases long : target.IsTooLong
          · rw [(Workspace.mode?_of_parent parent).1 long] at asked
            cases asked
            exact Or.inr (Or.inr ⟨long, rfl⟩)
          · obtain ⟨_, known, _⟩ := (Workspace.mode?_of_parent parent).2 long
            rw [known] at asked
            cases asked
  | refused => exact Or.inl ⟨_, rfl⟩

/-- In a directory that is there, a target that is too long cannot be written, and the
failure is not one of writing. -/
theorem writeFile_of_long (clean : target.hasNull = false)
    (there : session.workspace.stat target.parent = .ok .directory)
    (noTrouble : troubleAt session target (· == .makingDirectory) = none)
    (long : target.IsTooLong) :
    writeFile target content session =
      .error (.reading (.system ⟨.nameTooLong, some target, none⟩)) session := by
  have nested : session.workspace.stat
      ⟨target.parent.anchor, target.parent.names.reverse.reverse⟩ = .ok .directory := by
    rwa [List.reverse_reverse]
  have made : makeParent target session = .ok () session := by
    unfold makeParent
    rw [bind_of_ok (requirePath_eq_ok.mpr ⟨parent_hasNull clean, rfl⟩), get_bind, noTrouble]
    simp only [Workspace.ensureDirectories_of_directory nested]
    rfl
  have asked : modeOf target session =
      .error (.reading (.system ⟨.nameTooLong, some target, none⟩)) session := by
    unfold modeOf
    rw [bind_of_ok (requirePath_eq_ok.mpr ⟨clean, rfl⟩), get_bind,
      (Workspace.mode?_of_parent there).1 long]
    rfl
  unfold writeFile
  rw [bind_of_ok made, bind_of_error asked]

/-- A write that succeeds leaves the whole content at the target, with the
permissions of the file that stood there, and changes nothing else; one that fails
leaves the target as it was, if its path has no double dots: with these it can name a
directory that is made on the way.  Neither leaves a temporary file behind.  A write fails
as such, unless the path holds the null character or is too long; links and directories
that may not be looked into, which a workspace does not have, would be further reasons. -/
theorem writeFile_all_or_nothing (session : Session) (target : Path) (content : String)
    (fresh : session.HasFreshName target) :
    (∀ after, writeFile target content session = .ok () after →
        after.workspace.readBytes target = .ok (Text.encode content.toList) ∧
          after.workspace.get? target.place =
            some (.file (Text.encode content.toList) (session.workspace.modeFor target)) ∧
            after.workspace.get? (temporaryFor session target).place = none ∧
              Workspace.SparesBut (· = target.place) target session.workspace after.workspace) ∧
      ∀ failure after, writeFile target content session = .error failure after →
        ((∃ cause, failure = .write cause) ∨
            (target.hasNull = true ∧ failure = .value .nullInPath) ∨
              target.IsTooLong ∧
                failure = .reading (.system ⟨.nameTooLong, some target, none⟩)) ∧
          (".." ∉ target.names →
            after.workspace.get? target.place = session.workspace.get? target.place) ∧
            after.workspace.get? (temporaryFor session target).place = none ∧
              Workspace.SparesBut (fun _ => False) target session.workspace after.workspace := by
  obtain ⟨clears, clearsFailed⟩ :=
    @writeFile_clears session target content fresh.apart fresh.absent fresh.aside
  constructor
  · intro after success
    obtain ⟨_, evolved, read⟩ := writeFile_ok success
    have gone := clears _ _ success
    refine ⟨read, get?_writeFile fresh success, gone, ?_⟩
    exact evolved.sparesBut.of_absent (fun _ touched => touched) fresh.absent gone
  · intro failure after stopped
    have gone := clearsFailed _ _ stopped
    have spared : Workspace.SparesBut (fun _ => False) target session.workspace after.workspace :=
      (writeFile_error stopped).2.sparesBut.of_absent (fun _ touched => Or.inl touched)
        fresh.absent gone
    refine ⟨writeFile_failure_exact stopped, fun plain => ?_, gone, spared⟩
    rcases spared target.place id with kept | ⟨_, _, passes⟩
    · exact kept
    · by_cases root : target.names = []
      · simp [Path.place, root, Path.follow, Workspace.get?]
      · exact absurd passes (Path.not_passes_place root plain)

/-- A directory with a script and a log, of which only one byte can be written. -/
def scriptProject : Session where
  workspace := ⟨[(["p"], .directory), (["p", "run"], .file [0x6f] 0o750),
    (["p", "log"], .file [0x6f, 0x6c] 0o600)]⟩
  project := ⟨.root, ["p"]⟩
  now := 0
  temporaryTag := "0"
  trouble path :=
    if path.names = ["p", "log"] then some (.writingTemporary 1, ⟨.noSpace, none, none⟩)
    else none

def scriptFile : Path := ⟨.root, ["p", "run"]⟩

def logFile : Path := ⟨.root, ["p", "log"]⟩

/-- The script stays executable, and the log as it was. -/
theorem writeFile_all_or_nothing_script :
    (∃ after, writeFile scriptFile "new" scriptProject = .ok () after ∧
        after.workspace.get? ["p", "run"] = some (.file (Text.encode "new".toList) 0o750) ∧
          after.workspace.get? ["p", ".north-tmp-0"] = none) ∧
      ∃ cause after, writeFile logFile "new" scriptProject = .error (.write cause) after ∧
        after.workspace.get? ["p", "log"] = some (.file [0x6f, 0x6c] 0o600) ∧
          after.workspace.get? ["p", ".north-tmp-0"] = none := by
  constructor
  · have fresh : scriptProject.HasFreshName scriptFile := ⟨by decide, by decide, by decide⟩
    obtain ⟨after, success⟩ : ∃ after, writeFile scriptFile "new" scriptProject = .ok () after :=
      ⟨_, rfl⟩
    obtain ⟨_, placed, gone, _⟩ :=
      (writeFile_all_or_nothing scriptProject scriptFile "new" fresh).1 after success
    exact ⟨after, success, placed, gone⟩
  · have fresh : scriptProject.HasFreshName logFile := ⟨by decide, by decide, by decide⟩
    obtain ⟨cause, after, stopped⟩ : ∃ cause after,
        writeFile logFile "new" scriptProject = .error (.write cause) after := ⟨_, _, rfl⟩
    obtain ⟨_, kept, gone, _⟩ :=
      (writeFile_all_or_nothing scriptProject logFile "new" fresh).2 _ after stopped
    exact ⟨cause, after, stopped, kept (by decide), gone⟩

/-- A name of more bytes than a directory takes. -/
def lengthyFile : Path := ⟨.root, ["p", String.ofList (List.replicate 256 'n')]⟩

/-- The writing of a file with too long a name fails, but not as a write. -/
theorem lengthy_name_unwritten :
    scriptProject.HasFreshName lengthyFile ∧ scriptProject.trouble lengthyFile = none ∧
      ∃ failure after, writeFile lengthyFile "x" scriptProject = .error failure after ∧
        ∀ cause, failure ≠ .write cause := by
  have fresh : scriptProject.HasFreshName lengthyFile :=
    ⟨by decide, by decide +kernel, by decide⟩
  have clean : lengthyFile.hasNull = false := by
    simp only [Path.hasNull, lengthyFile, List.any_cons, List.any_nil, String.toList_ofList]
    decide +kernel
  have stopped := @writeFile_of_long scriptProject lengthyFile "x" clean rfl
    (by decide +kernel) (by decide +kernel)
  refine ⟨fresh, by decide +kernel, _, _, stopped, ?_⟩
  intro cause same
  cases same

end Activity

end Restyle
