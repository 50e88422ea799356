import Restyle.Edit
import Restyle.Proofs.Text.Feeds

/-!
# Edits of one line

A step edits one line.  What it does to the line does not hang on the other lines,
so an edit of a text is an edit of a text of one line, put in the place of that
line.
-/

namespace Restyle

open Text

variable {text line : List Char} {number : Int} {target : Json}

/-- An edit of a line in the place of the line. -/
def Edit.inPlace (lines : List (List Char)) (number : Int) (edit : Edit) : Edit :=
  { edit with content := joinFeeds (lines.set (number - 1).toNat edit.content) }

/-- What a step does to a line that stands alone. -/
def Step.onLine (step : Step) (line : List Char) : Except Fault (Option Edit) :=
  ({ step with line := 1 } : Step).edit line

theorem lineAt?_eq_some_iff {lines : List (List Char)} :
    lineAt? lines number = some line ↔
      1 ≤ number ∧ lines[(number - 1).toNat]? = some line := by
  unfold lineAt?
  split
  · rename_i before
    simp only [reduceCtorEq, false_iff, not_and]
    omega
  · rename_i notBefore
    have first : 1 ≤ number := by omega
    simp [first]

/-- There is no line with a number before the first or behind the last. -/
theorem lineAt?_eq_none_iff {lines : List (List Char)} :
    lineAt? lines number = none ↔ ¬ (1 ≤ number ∧ number ≤ lines.length) := by
  unfold lineAt?
  split
  · rename_i before
    simp only [true_iff]
    omega
  · rename_i notBefore
    rw [List.getElem?_eq_none_iff]
    omega

theorem feed_not_mem_lineAt? (found : lineAt? (splitFeeds text) number = some line) : '\n' ∉ line :=
  feed_not_mem_splitFeeds (List.mem_of_getElem? (lineAt?_eq_some_iff.mp found).2)

theorem openLine?_of_lineAt?_none (missed : lineAt? (splitFeeds text) number = none) :
    openLine? text number target = none := by
  unfold openLine?
  dsimp only
  rw [missed, ite_self]

theorem openLine?_of_lineAt? (found : lineAt? (splitFeeds text) number = some line) (target : Json) :
    openLine? text number target =
      if target.isFilled = true ∧ line ≠ [] then some (splitFeeds text, line) else none := by
  unfold openLine?
  dsimp only
  rw [found]
  cases target.isFilled with
  | false => simp
  | true => cases line <;> simp

theorem lineAt?_alone (clean : '\n' ∉ line) : lineAt? (splitFeeds line) 1 = some line := by
  rw [splitFeeds_of_clean clean]
  rfl

theorem openLine?_alone (clean : '\n' ∉ line) (target : Json) :
    openLine? line 1 target =
      if target.isFilled = true ∧ line ≠ [] then some ([line], line) else none := by
  rw [openLine?_of_lineAt? (lineAt?_alone clean), splitFeeds_of_clean clean]

/-- A line that is spliced in a text is spliced as it is when it stands alone. -/
theorem inPlace_splice (lines : List (List Char)) (number : Int) (line : List Char)
    (start stop removed added : Nat) (inserted : List Char) (sideEffect : Option SideEffect) :
    Edit.inPlace lines number
        { content := splice [line] 1 line start stop inserted, removed, added, sideEffect } =
      { content := splice lines number line start stop inserted, removed, added, sideEffect } := by
  simp [Edit.inPlace, splice, joinFeeds]

section
variable (found : lineAt? (splitFeeds text) number = some line)
include found

theorem replaceClass_of_lineAt? (column : Int) (source replacement : Json) :
    replaceClass text number column source replacement =
      (replaceClass line 1 column source replacement).map
        (Option.map (.inPlace (splitFeeds text) number)) := by
  rw [replaceClass, replaceClass, openLine?_of_lineAt? found,
    openLine?_alone (feed_not_mem_lineAt? found)]
  by_cases opens : source.isFilled = true ∧ line ≠ []
  · rw [if_pos opens, if_pos opens]
    cases source.asText with
    | error fault => rfl
    | ok target =>
        dsimp only [bind, Except.bind]
        cases indexNear? target.toList column line with
        | none => rfl
        | some start =>
            cases replacement.asText with
            | error fault => rfl
            | ok inserted => exact congrArg (Except.ok ∘ some) (inPlace_splice ..).symm
  · rw [if_neg opens, if_neg opens]
    rfl

theorem extractPattern_of_lineAt? (pattern utility : Json) :
    extractPattern text number pattern utility =
      (extractPattern line 1 pattern utility).map
        (Option.map (.inPlace (splitFeeds text) number)) := by
  rw [extractPattern, extractPattern, openLine?_of_lineAt? found,
    openLine?_alone (feed_not_mem_lineAt? found)]
  by_cases opens : pattern.isFilled = true ∧ line ≠ []
  · rw [if_pos opens, if_pos opens]
    cases pattern.asText with
    | error fault => rfl
    | ok target =>
        dsimp only [bind, Except.bind]
        cases indexOf? target.toList line with
        | none => rfl
        | some start =>
            cases utility.asText with
            | error fault => rfl
            | ok inserted => exact congrArg (Except.ok ∘ some) (inPlace_splice ..).symm
  · rw [if_neg opens, if_neg opens]
    rfl

theorem tokenizeValue_of_lineAt? (value token : Json) :
    tokenizeValue text number value token =
      (tokenizeValue line 1 value token).map
        (Option.map (.inPlace (splitFeeds text) number)) := by
  rw [tokenizeValue, tokenizeValue, openLine?_of_lineAt? found,
    openLine?_alone (feed_not_mem_lineAt? found)]
  by_cases opens : value.isFilled = true ∧ line ≠ []
  · rw [if_pos opens, if_pos opens]
    cases value.asText with
    | error fault => rfl
    | ok target =>
        dsimp only [bind, Except.bind]
        cases indexOf? target.toList line with
        | none => rfl
        | some start => exact congrArg (Except.ok ∘ some) (inPlace_splice ..).symm
  · rw [if_neg opens, if_neg opens]
    rfl

theorem removeClass_of_lineAt? (className : Json) :
    removeClass text number className =
      (removeClass line 1 className).map (Option.map (.inPlace (splitFeeds text) number)) := by
  rw [removeClass, removeClass, openLine?_of_lineAt? found,
    openLine?_alone (feed_not_mem_lineAt? found)]
  by_cases opens : className.isFilled = true ∧ line ≠ []
  · rw [if_pos opens, if_pos opens]
    cases className.asText with
    | error fault => rfl
    | ok target =>
        dsimp only [bind, Except.bind]
        cases indexOf? target.toList line with
        | none => rfl
        | some start => exact congrArg (Except.ok ∘ some) (inPlace_splice ..).symm
  · rw [if_neg opens, if_neg opens]
    rfl

end

namespace Step

variable {step : Step}

theorem edit_of_lineAt? (found : lineAt? (splitFeeds text) step.line = some line) :
    step.edit text =
      (step.onLine line).map (Option.map (.inPlace (splitFeeds text) step.line)) := by
  unfold onLine edit
  cases step.action with
  | replace source replacement => exact replaceClass_of_lineAt? found ..
  | extract pattern utility => exact extractPattern_of_lineAt? found ..
  | tokenize value token => exact tokenizeValue_of_lineAt? found ..
  | remove className => exact removeClass_of_lineAt? found ..

theorem edit_of_openLine?_none (closed : openLine? text step.line step.action.target = none) :
    step.edit text = .ok none := by
  unfold edit
  cases action : step.action with
  | replace source replacement =>
      simp only [action, FixAction.target] at closed
      simp only [replaceClass, closed]
      rfl
  | extract pattern utility =>
      simp only [action, FixAction.target] at closed
      simp only [extractPattern, closed]
      rfl
  | tokenize value token =>
      simp only [action, FixAction.target] at closed
      simp only [tokenizeValue, closed]
      rfl
  | remove className =>
      simp only [action, FixAction.target] at closed
      simp only [removeClass, closed]
      rfl

theorem edit_of_lineAt?_none (missed : lineAt? (splitFeeds text) step.line = none) :
    step.edit text = .ok none :=
  edit_of_openLine?_none (openLine?_of_lineAt?_none missed)

end Step

end Restyle
