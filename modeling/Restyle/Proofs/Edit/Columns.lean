import Restyle.Proofs.Edit.Exactness

/-!
# Edits at the reported column

A target that stands at the column of a step is the one that is edited, if no other
occurrence is met before it.  A class that is replaced is looked for from five
characters before the column; an occurrence that starts there is met before the column,
and the first of these is the one that is edited.
-/

namespace Restyle

open Text

variable {text line : List Char} {action : FixAction} {step : Step} {place : Nat}

/-- How far before the column a fix looks for its target, where that is limited. -/
def FixAction.reach? : FixAction → Option Nat
  | .replace _ _ => some 5
  | _ => none

/-- Whether a fix looks for its target from one offset when its column is another. -/
def FixAction.Reaches (action : FixAction) (offset column : Nat) : Prop :=
  ∀ reach, action.reach? = some reach → column ≤ offset + reach

/-- The target is found at the first occurrence in reach, if it stands at the column. -/
theorem FixAction.start?_of_standsAt (filled : action.sought ≠ [])
    (stands : StandsAt action.sought line place) :
    ∃ start, action.start? place line = some start ∧ start ≤ place ∧ action.Reaches start place ∧
      ∀ other, StandsAt action.sought line other → action.Reaches other place → start ≤ other := by
  cases action with
  | replace source replacement =>
      obtain ⟨start, found, _, upTo, near, first⟩ := indexNear?_of_standsAt filled stands
      refine ⟨start, found, upTo, ?_, fun other there reaches => ?_⟩
      · rintro _ ⟨⟩
        exact near
      · exact first other there (reaches 5 rfl)
  | _ =>
      obtain ⟨start, found, upTo⟩ := stands.indexOf?
      exact ⟨start, found, upTo, nofun, fun other there _ => (indexOf?_eq_some found).2 other there⟩

namespace Step

/-- Whether an occurrence is met before another one at the column of the step. -/
def Occurrence.Precedes (other reported : step.Occurrence text) : Prop :=
  other.start < reported.start ∧ step.action.Reaches other.start reported.start

/-- The target at the column is edited if no other is met before it.  Of the classes in
reach, the one that is replaced is the first. -/
theorem edit_at_column (texts : step.action.IsOfTexts) (filled : step.action.sought ≠ [])
    (reported : step.Occurrence text) (there : (reported.start : Int) = step.column) :
    ∃ edit, step.edit text = .ok (some edit) ∧
      ((∀ other : step.Occurrence text, ¬ other.Precedes reported) → reported.IsEdited edit) ∧
      ∀ source replacement, step.action = .replace source replacement →
        ∃ found : step.Occurrence text, found.IsEdited edit ∧
          (found = reported ∨ found.Precedes reported) ∧
          ∀ other : step.Occurrence text, other.Precedes reported → found.start ≤ other.start := by
  obtain ⟨start, here, upTo, reaches, first⟩ :=
    FixAction.start?_of_standsAt filled reported.standsAt
  rw [there] at here
  obtain ⟨edit, found, made, edited, rfl⟩ :=
    edit_of_start?_eq_some texts filled reported.lineAt?_eq here
  have met : found = reported ∨ found.Precedes reported := by
    rcases Nat.eq_or_lt_of_le upTo with same | before
    · exact .inl (reported.eq_of_start same)
    · exact .inr ⟨before, reaches⟩
  refine ⟨edit, made, fun none => ?_, fun _ _ _ => ⟨found, edited, met, fun other precedes => ?_⟩⟩
  · exact met.resolve_right (none found) ▸ edited
  · exact first other.start (reported.line_eq other ▸ other.standsAt) precedes.2

/-- Swaps a class that is reported at a column of the first line. -/
def swapping (column : Int) : Step :=
  { (default : Step) with line := 1, column, action := .replace (.text "x") (.text "Y") }

/-- The class at the column is replaced, though the same class stands before it. -/
theorem edit_at_column_swapping :
    (swapping 7).action.IsOfTexts ∧ (swapping 7).action.sought ≠ [] ∧
      ∃ place : (swapping 7).Occurrence ['x', ' ', ' ', ' ', ' ', ' ', ' ', 'x'],
        (place.start : Int) = (swapping 7).column ∧
          place.IsEdited ⟨['x', ' ', ' ', ' ', ' ', ' ', ' ', 'Y'], 1, 1, none⟩ := by
  have texts : (swapping 7).action.IsOfTexts := ⟨⟨"x", rfl⟩, "Y", rfl⟩
  have filled : (swapping 7).action.sought ≠ [] := by decide
  let place : (swapping 7).Occurrence ['x', ' ', ' ', ' ', ' ', ' ', ' ', 'x'] :=
    ⟨[], ['x', ' ', ' ', ' ', ' ', ' ', ' '], [], [], rfl, rfl⟩
  obtain ⟨edit, made, edited, _⟩ := edit_at_column texts filled place rfl
  have known : (swapping 7).edit ['x', ' ', ' ', ' ', ' ', ' ', ' ', 'x'] =
      .ok (some ⟨['x', ' ', ' ', ' ', ' ', ' ', ' ', 'Y'], 1, 1, none⟩) := by rfl
  rw [known] at made
  cases made
  refine ⟨texts, filled, place, rfl, edited ?_⟩
  rintro other ⟨before, near⟩
  have stands := other.standsAt
  rw [place.line_eq other] at stands
  have spaces : ∀ start < 7, 7 ≤ start + 5 → place.line[start]? ≠ some 'x' := by decide
  exact spaces _ before (near 5 rfl) stands.getElem?

/-- A class that starts shortly before the column is replaced in the stead of the one
at the column, and a class that starts anywhere before it is removed. -/
theorem column_missed :
    (∃ place : (swapping 2).Occurrence ['x', ' ', 'x'],
        (place.start : Int) = (swapping 2).column ∧
        (swapping 2).edit ['x', ' ', 'x'] = .ok (some ⟨['Y', ' ', 'x'], 1, 1, none⟩) ∧
        ¬ place.IsEdited ⟨['Y', ' ', 'x'], 1, 1, none⟩) ∧
      ∃ place : ({ clearing with column := 4 } : Step).Occurrence ['p', ' ', 'a', ' ', 'p'],
        place.start = 4 ∧
        ({ clearing with column := 4 } : Step).edit ['p', ' ', 'a', ' ', 'p'] =
          .ok (some ⟨['a', ' ', 'p'], 2, 0, none⟩) ∧
        ¬ place.IsEdited ⟨['a', ' ', 'p'], 2, 0, none⟩ := by
  refine ⟨⟨⟨[], ['x', ' '], [], [], rfl, rfl⟩, rfl, rfl, fun edited => ?_⟩,
    ⟨[], ['p', ' ', 'a', ' '], [], [], rfl, rfl⟩, rfl, rfl, fun edited => ?_⟩
  · exact absurd edited.content (by decide)
  · exact absurd edited.content (by decide)

end Step

end Restyle
