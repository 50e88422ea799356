import Mathlib.Data.List.Infix
import Restyle.Proofs.Activity.Acceptance

/-!
# Workspaces that are alike

What a path leads to hangs on the kinds of the entries along it: where nothing
stands, a directory or a file.  The bytes of files on the way do not matter.
-/

namespace Restyle

theorem Path.passes_iff {path : Path} {place : Place} :
    path.Passes place ↔ place ∈ path.names.inits.map (Path.follow []) := by
  rw [List.mem_map]
  constructor
  · rintro ⟨names, lead, same⟩
    exact ⟨names, (List.mem_inits _ _).mpr lead, same.symm⟩
  · rintro ⟨names, listed, same⟩
    exact ⟨names, (List.mem_inits _ _).mp listed, same.symm⟩

instance (path : Path) (place : Place) : Decidable (path.Passes place) :=
  decidable_of_iff _ Path.passes_iff.symm

namespace Workspace

variable {workspace other before after : Workspace} {path : Path} {place : Place}

/-- Whether two workspaces have entries of one kind at a place. -/
structure Alike (workspace other : Workspace) (place : Place) : Prop where
  empty : other.get? place = none ↔ workspace.get? place = none
  directory : other.get? place = some .directory ↔ workspace.get? place = some .directory

theorem Alike.of_eq (same : other.get? place = workspace.get? place) :
    Alike workspace other place where
  empty := by rw [same]
  directory := by rw [same]

theorem Alike.file {bytes : List UInt8} {mode : Nat} (alike : Alike workspace other place)
    (standing : workspace.get? place = some (.file bytes mode)) :
    ∃ bytes mode, other.get? place = some (.file bytes mode) := by
  cases found : other.get? place with
  | none =>
      rw [alike.empty.mp found] at standing
      cases standing
  | some entry =>
      cases entry with
      | directory =>
          rw [alike.directory.mp found] at standing
          cases standing
      | file bytes mode => exact ⟨bytes, mode, rfl⟩

theorem locate_congr (alike : ∀ place, path.Passes place → Alike workspace other place) :
    other.locate path = workspace.locate path := by
  have follows : ∀ names before, before ++ names = path.names →
      other.locateFrom (Path.follow [] before) names =
        workspace.locateFrom (Path.follow [] before) names := by
    intro names
    induction names with
    | nil => exact fun _ _ => rfl
    | cons name names induction =>
        intro before whole
        have here := alike (Path.follow [] before) ⟨before, ⟨name :: names, whole⟩, rfl⟩
        have later := induction (before ++ [name]) (by rw [← whole, List.append_assoc]; rfl)
        have down : Path.follow [] (before ++ [name]) =
            if name = ".." then (Path.follow [] before).dropLast
            else Path.follow [] before ++ [name] := by
          rw [Path.follow_append]
          split <;> simp [Path.follow, *]
        rw [down] at later
        unfold locateFrom
        cases standing : workspace.get? (Path.follow [] before) with
        | none => rw [here.empty.mpr standing]
        | some entry =>
            cases entry with
            | file bytes mode =>
                obtain ⟨_, _, found⟩ := here.file standing
                rw [found]
            | directory =>
                rw [here.directory.mpr standing]
                dsimp only
                split
                · rfl
                · split at later <;> simp_all
  have whole : other.locateFrom [] path.names = workspace.locateFrom [] path.names :=
    follows path.names [] rfl
  unfold locate
  rw [whole]

/-- Workspaces that are alike all along a path, with the same at its end, hold
the same bytes there. -/
theorem readBytes_congr (alike : ∀ place, path.Passes place → Alike workspace other place)
    (same : other.get? path.place = workspace.get? path.place) :
    other.readBytes path = workspace.readBytes path := by
  unfold readBytes stat
  rw [locate_congr alike]
  cases found : workspace.locate path with
  | error cause => rfl
  | ok place =>
      rw [locate_eq_place found]
      simp only [same]

theorem readText_congr (same : other.readBytes path = workspace.readBytes path) :
    other.readText path = workspace.readText path := by
  unfold readText
  rw [same]

/-- Where no directory is made that was not there, a place that is not touched
stays as it is. -/
theorem Evolves.get?_of_ready {touched made : Place → Prop}
    (evolved : Evolves touched made before after)
    (ready : made place → before.get? place = some .directory) (outside : ¬ touched place) :
    after.get? place = before.get? place := by
  rcases evolved.keepsOther place outside with same | ⟨free, new⟩
  · exact same
  · rcases evolved.newDirectory place new with old | making
    · rw [free] at old
      cases old
    · rw [ready making] at free
      cases free

/-- A change that puts files in place of files leaves the kinds as they are. -/
theorem Evolves.alike {touched made : Place → Prop} (evolved : Evolves touched made before after)
    (ready : made place → before.get? place = some .directory)
    (files : touched place → (∃ bytes mode, before.get? place = some (.file bytes mode)) ∧
      ∃ bytes mode, after.get? place = some (.file bytes mode)) : Alike before after place := by
  by_cases reached : touched place
  · obtain ⟨⟨_, _, first⟩, ⟨_, _, second⟩⟩ := files reached
    constructor
    · simp [first, second]
    · simp [first, second]
  · exact .of_eq (evolved.get?_of_ready ready reached)

end Workspace

end Restyle
