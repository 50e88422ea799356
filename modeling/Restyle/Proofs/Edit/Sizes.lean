import Restyle.Proofs.Edit.Exactness
import Restyle.Proofs.Json.Keys

/-!
# By how much an edit changes a text

What an edit is counted to remove and to add is what the text loses and gains.  Steps
that were read from a plan may name anything; one that makes an edit names texts, but
for the name of a token, which is shown as it is.
-/

namespace Restyle

open Text

namespace Step

variable {text : List Char} {step : Step} {edit : Edit}

/-- An edit that a step makes is made by a step with texts. -/
theorem exists_isOfTexts (made : step.edit text = .ok (some edit)) :
    ∃ other : Step, other.action.IsOfTexts ∧ other.edit text = .ok (some edit) := by
  cases edits_of_edit made with
  | replaced action =>
      refine ⟨step, ?_, made⟩
      rw [action]
      exact ⟨⟨_, rfl⟩, _, rfl⟩
  | extracted action =>
      refine ⟨step, ?_, made⟩
      rw [action]
      exact ⟨⟨_, rfl⟩, _, rfl⟩
  | @tokenized value token _ _ _ action =>
      refine ⟨{ step with action := .tokenize (.text value) (.text token.shown) },
        ⟨⟨_, rfl⟩, _, rfl⟩, ?_⟩
      unfold Step.edit at made
      rw [action] at made
      exact made
  | removed action =>
      refine ⟨step, ?_, made⟩
      rw [action]
      exact ⟨_, rfl⟩

theorem edit_length (made : step.edit text = .ok (some edit)) :
    edit.content.length + edit.removed = text.length + edit.added := by
  obtain ⟨other, texts, made⟩ := exists_isOfTexts made
  have filled : other.action.sought ≠ [] := by
    intro empty
    rw [edit_of_sought_eq_nil texts empty] at made
    cases made
  cases found : lineAt? (splitFeeds text) other.line with
  | none =>
      rw [edit_of_lineAt?_none found] at made
      cases made
  | some line =>
      cases here : other.action.start? other.column line with
      | none =>
          rw [edit_of_start?_eq_none texts filled found here] at made
          cases made
      | some start =>
          obtain ⟨_, place, again, edited, _⟩ := edit_of_start?_eq_some texts filled found here
          rw [made] at again
          cases again
          exact edited.length

end Step

end Restyle
