import Restyle.Proofs.Workspace.Evolution

/-!
# What the operations on a workspace do

For each operation: which places it touches, and what stands at its path
afterwards.  An operation that fails midway, as the making of nested
directories may, is covered as well.
-/

namespace Restyle

namespace Workspace

variable {workspace made written moved : Workspace} {path source target : Path}

theorem stat_eq_ok_iff {entry : Entry} :
    workspace.stat path = .ok entry ↔
      workspace.locate path = .ok path.place ∧ workspace.get? path.place = some entry := by
  unfold stat
  constructor
  · intro found
    cases located : workspace.locate path with
    | error cause => simp [located] at found
    | ok place =>
        have same := locate_eq_place located
        subst same
        simp only [located] at found
        cases standing : workspace.get? path.place with
        | none => simp [standing] at found
        | some other =>
            simp only [standing, Except.ok.injEq] at found
            exact ⟨rfl, congrArg some found⟩
  · intro ⟨located, standing⟩
    simp [located, standing]

theorem readBytes_eq_ok_iff {bytes : List UInt8} :
    workspace.readBytes path = .ok bytes ↔
      workspace.locate path = .ok path.place ∧
        ∃ mode, workspace.get? path.place = some (.file bytes mode) := by
  unfold readBytes
  constructor
  · intro read
    split at read
    · cases read
    · cases read
    · rename_i contents mode found
      obtain ⟨located, standing⟩ := stat_eq_ok_iff.mp found
      cases read
      exact ⟨located, mode, standing⟩
  · intro ⟨located, mode, standing⟩
    rw [stat_eq_ok_iff.mpr ⟨located, standing⟩]

theorem Evolves.readBytes {touched made : Place → Prop} {before after : Workspace}
    (evolved : Evolves touched made before after) (outside : ¬ touched path.place)
    {bytes : List UInt8} (read : before.readBytes path = .ok bytes) :
    after.readBytes path = .ok bytes := by
  obtain ⟨located, mode, standing⟩ := readBytes_eq_ok_iff.mp read
  exact readBytes_eq_ok_iff.mpr
    ⟨evolved.locate located, mode, evolved.get?_file outside standing⟩

theorem makeDirectory_cases (success : workspace.makeDirectory path = .ok made) :
    workspace.locate path = .ok path.place ∧ workspace.get? path.place = none ∧
      made = workspace.put path.place .directory := by
  unfold makeDirectory at success
  split at success
  · cases success
  · rename_i place located
    obtain rfl := locate_eq_place located
    split at success
    · cases success
    · split at success
      · cases success
      · rename_i free
        cases success
        exact ⟨located, free, rfl⟩

theorem makeDirectory_evolves {touched : Place → Prop}
    (success : workspace.makeDirectory path = .ok made) :
    Evolves touched (· = path.place) workspace made := by
  obtain ⟨_, free, rfl⟩ := makeDirectory_cases success
  exact evolves_putDirectory free

theorem ensureDirectory_evolves {touched : Place → Prop}
    (success : workspace.ensureDirectory path = .ok made) :
    Evolves touched (· = path.place) workspace made := by
  unfold ensureDirectory at success
  split at success
  · rename_i directory
    cases success
    exact makeDirectory_evolves directory
  · cases success
  · split at success
    · cases success
      exact .refl _ _ _
    · cases success

theorem isDirectory_iff : workspace.isDirectory path = true ↔ workspace.stat path = .ok .directory := by
  unfold isDirectory
  split
  · rename_i directory
    simp [directory]
  · rename_i other
    simp only [Bool.false_eq_true, false_iff]
    exact other

theorem stat_makeDirectory (success : workspace.makeDirectory path = .ok made) :
    made.stat path = .ok .directory := by
  have evolved := @makeDirectory_evolves _ _ _ (fun _ => False) success
  obtain ⟨located, free, rfl⟩ := makeDirectory_cases success
  have other : workspace.get? path.place ≠ some .directory := by simp [free]
  exact stat_eq_ok_iff.mpr
    ⟨evolved.locate located, get?_put_self _ (ne_nil_of_not_directory other)⟩

theorem stat_ensureDirectory (success : workspace.ensureDirectory path = .ok made) :
    made.stat path = .ok .directory := by
  unfold ensureDirectory at success
  split at success
  · rename_i directory
    cases success
    exact stat_makeDirectory directory
  · cases success
  · split at success
    · rename_i already
      cases success
      exact isDirectory_iff.mp already
    · cases success

theorem stat_ensureDirectories {anchor : Anchor} {reversed : List String}
    (success : workspace.ensureDirectories anchor reversed = (made, none)) :
    made.stat ⟨anchor, reversed.reverse⟩ = .ok .directory := by
  cases reversed with
  | nil =>
      cases success
      cases anchor <;> rfl
  | cons name above =>
      unfold ensureDirectories at success
      dsimp only at success
      split at success
      · rename_i directory
        cases success
        exact stat_makeDirectory directory
      · split at success
        · cases success
        · split at success
          · rename_i whole last
            cases success
            exact stat_ensureDirectory last
          · cases success
      · split at success
        · rename_i already
          cases success
          exact isDirectory_iff.mp already
        · cases success

/-- Also when the making of nested directories fails, nothing but directories on
the way has been made. -/
theorem ensureDirectories_evolves {touched : Place → Prop} (workspace : Workspace)
    (anchor : Anchor) (reversed : List String) :
    Evolves touched (Path.Passes ⟨anchor, reversed.reverse⟩) workspace
      (workspace.ensureDirectories anchor reversed).1 := by
  induction reversed with
  | nil => exact .refl _ _ _
  | cons name above induction =>
      have whole : ∀ place, place = Path.place ⟨anchor, (name :: above).reverse⟩ →
          Path.Passes ⟨anchor, (name :: above).reverse⟩ place := by
        rintro place rfl
        exact ⟨_, List.prefix_rfl, rfl⟩
      have upper : ∀ place, Path.Passes ⟨anchor, above.reverse⟩ place →
          Path.Passes ⟨anchor, (name :: above).reverse⟩ place := by
        rintro place ⟨names, lead, rfl⟩
        refine ⟨names, lead.trans ?_, rfl⟩
        rw [List.reverse_cons]
        exact List.prefix_append _ _
      unfold ensureDirectories
      dsimp only
      split
      · rename_i directory
        exact (makeDirectory_evolves directory).mono (fun _ here => here) whole
      · have early := induction.mono (fun _ here => here) upper
        split
        · rename_i made error nested
          rw [nested] at early
          exact early
        · rename_i made nested
          rw [nested] at early
          split
          · rename_i complete last
            exact early.trans
              ((ensureDirectory_evolves last).mono (fun _ here => here) whole)
          · exact early
      · split
        · exact .refl _ _ _
        · exact .refl _ _ _

theorem writeBytes_cases {bytes : List UInt8} (success : workspace.writeBytes path bytes = .ok written) :
    workspace.locate path = .ok path.place ∧
      workspace.get? path.place ≠ some .directory ∧
        ∃ mode, written = workspace.put path.place (.file bytes mode) := by
  unfold writeBytes at success
  split at success
  · cases success
  · rename_i place located
    have same := locate_eq_place located
    subst same
    split at success
    · cases success
    · rename_i mode standing
      cases success
      exact ⟨located, by simp [standing], mode, rfl⟩
    · rename_i standing
      cases success
      exact ⟨located, by simp [standing], newFileMode, rfl⟩

theorem writeBytes_of_free (bytes : List UInt8) (located : workspace.locate path = .ok path.place)
    (free : workspace.get? path.place ≠ some .directory) :
    ∃ written, workspace.writeBytes path bytes = .ok written := by
  unfold writeBytes
  rw [located]
  cases standing : workspace.get? path.place with
  | none => exact ⟨_, by simp only [standing]; rfl⟩
  | some entry =>
      cases entry with
      | directory => exact absurd standing free
      | file old mode => exact ⟨_, by simp only [standing]; rfl⟩

theorem writeBytes_evolves {made : Place → Prop} {bytes : List UInt8}
    (success : workspace.writeBytes path bytes = .ok written) :
    Evolves (· = path.place) made workspace written := by
  obtain ⟨_, free, mode, rfl⟩ := writeBytes_cases success
  exact evolves_putFile free

theorem get?_writeBytes {bytes : List UInt8} (success : workspace.writeBytes path bytes = .ok written) :
    ∃ mode, written.get? path.place = some (.file bytes mode) := by
  obtain ⟨_, free, mode, rfl⟩ := writeBytes_cases success
  exact ⟨mode, get?_put_self _ (ne_nil_of_not_directory free)⟩

theorem get?_writeBytes_new {bytes : List UInt8}
    (success : workspace.writeBytes path bytes = .ok written)
    (absent : workspace.get? path.place = none) :
    written.get? path.place = some (.file bytes newFileMode) := by
  have located := (writeBytes_cases success).1
  have free : workspace.get? path.place ≠ some .directory := by simp [absent]
  unfold writeBytes at success
  rw [located] at success
  simp only [absent] at success
  cases success
  exact get?_put_self _ (ne_nil_of_not_directory free)

theorem setMode_evolves {made : Place → Prop} (workspace : Workspace) (path : Path)
    (mode : Nat) :
    Evolves (· = path.place) made workspace (workspace.setMode path mode) := by
  unfold setMode
  split
  · exact .refl _ _ _
  · rename_i place located
    have same := locate_eq_place located
    subst same
    split
    · rename_i standing
      exact evolves_putFile (by simp [standing])
    · exact .refl _ _ _

theorem get?_setMode {bytes : List UInt8} {mode : Nat}
    (standing : workspace.get? path.place = some (.file bytes mode)) (other : Nat) :
    ∃ last, (workspace.setMode path other).get? path.place = some (.file bytes last) := by
  unfold setMode
  split
  · exact ⟨mode, standing⟩
  · rename_i place located
    have same := locate_eq_place located
    subst same
    rw [standing]
    exact ⟨other, get?_put_self _ (ne_nil_of_file standing)⟩

theorem get?_setMode_of_located {bytes : List UInt8} {mode : Nat}
    (located : workspace.locate path = .ok path.place)
    (standing : workspace.get? path.place = some (.file bytes mode)) (other : Nat) :
    (workspace.setMode path other).get? path.place = some (.file bytes other) := by
  unfold setMode
  rw [located]
  simp only [standing]
  exact get?_put_self _ (ne_nil_of_file standing)

theorem removeFile_evolves {made : Place → Prop} (workspace : Workspace) (path : Path) :
    Evolves (· = path.place) made workspace (workspace.removeFile path) := by
  unfold removeFile
  split
  · exact .refl _ _ _
  · rename_i place located
    have same := locate_eq_place located
    subst same
    split
    · rename_i standing
      exact evolves_erase (by simp [standing])
    · exact .refl _ _ _

theorem get?_removeFile
    (removable : workspace.get? path.place = none ∨ workspace.locate path = .ok path.place ∧
      ∃ bytes mode, workspace.get? path.place = some (.file bytes mode)) :
    (workspace.removeFile path).get? path.place = none := by
  unfold removeFile
  rcases removable with absent | ⟨located, bytes, mode, standing⟩
  · split
    · exact absent
    · rename_i place located
      obtain rfl := locate_eq_place located
      rw [absent]
      exact absent
  · rw [located]
    dsimp only
    rw [standing]
    exact get?_erase_self (ne_nil_of_file standing)

theorem moveOver_cases (success : workspace.moveOver source target = .ok moved) :
    workspace.locate source = .ok source.place ∧ workspace.locate target = .ok target.place ∧
      workspace.get? target.place ≠ some .directory ∧
        ∃ entry, workspace.get? source.place = some entry ∧
          moved = (workspace.erase source.place).put target.place entry := by
  unfold moveOver at success
  dsimp only at success
  split at success
  · cases success
  · cases success
  · rename_i sourcePlace targetPlace sourceLocated targetLocated
    have sameSource := locate_eq_place sourceLocated
    have sameTarget := locate_eq_place targetLocated
    subst sameSource sameTarget
    split at success
    · cases success
    · split at success
      · cases success
      · cases success
      · rename_i entry standing free
        cases success
        exact ⟨sourceLocated, targetLocated, free, entry, standing, rfl⟩

theorem moveOver_of_file {entry : Entry} (sourceLocated : workspace.locate source = .ok source.place)
    (targetLocated : workspace.locate target = .ok target.place)
    (standing : workspace.get? source.place = some entry)
    (free : workspace.get? target.place ≠ some .directory)
    (named : ¬ (target.names = [] ∨ target.names.getLast? = some "..")) :
    ∃ moved, workspace.moveOver source target = .ok moved := by
  unfold moveOver
  simp only [sourceLocated, targetLocated]
  rw [if_neg (by simpa using named)]
  cases occupied : workspace.get? target.place with
  | none => exact ⟨_, by simp only [standing]; rfl⟩
  | some other =>
      cases other with
      | directory => exact absurd occupied free
      | file bytes mode => exact ⟨_, by simp only [standing]; rfl⟩

/-- Moving a file touches the two places only, and leaves the file at the
target and, unless they are one, nothing at the source. -/
theorem moveOver_file (made : Place → Prop) {bytes : List UInt8} {mode : Nat}
    (success : workspace.moveOver source target = .ok moved)
    (standing : workspace.get? source.place = some (.file bytes mode)) :
    Evolves (fun place => place = source.place ∨ place = target.place) made workspace moved ∧
      moved.get? target.place = some (.file bytes mode) ∧
        (source.place ≠ target.place → moved.get? source.place = none) := by
  obtain ⟨_, _, free, entry, found, rfl⟩ := moveOver_cases success
  have same : entry = .file bytes mode := by
    rw [found] at standing
    exact Option.some.inj standing
  subst same
  have erased : Evolves (fun place => place = source.place ∨ place = target.place)
      made workspace (workspace.erase source.place) :=
    (evolves_erase (by simp [standing])).touching fun _ touched => Or.inl touched
  have stillFree : (workspace.erase source.place).get? target.place ≠ some .directory := by
    by_cases apart : target.place = source.place
    · rw [apart, get?_erase_self (ne_nil_of_file standing)]
      simp
    · rw [get?_erase_other apart]
      exact free
  have placed : Evolves (fun place => place = source.place ∨ place = target.place)
      made (workspace.erase source.place)
      ((workspace.erase source.place).put target.place (.file bytes mode)) :=
    (evolves_putFile stillFree).touching fun _ touched => Or.inr touched
  refine ⟨erased.trans placed, ?_, ?_⟩
  · exact get?_put_self _ (ne_nil_of_not_directory free)
  · intro apart
    rw [get?_put_other _ apart]
    exact get?_erase_self (ne_nil_of_file standing)

end Workspace

end Restyle
