import Restyle.Edit
import Restyle.Proofs.Computation
import Restyle.Proofs.Json.Keys
import Restyle.Proofs.Text.Feeds
import Restyle.Proofs.Text.Utf8

/-!
# What edits put into a text

An edit cuts a piece out of one line and puts the text of its step there, so
every other character of the edited text was there before.  A text that was
read has no carriage returns; it gets one only from a step that inserts it.
-/

namespace Restyle

namespace Text

theorem return_not_mem_unifyBreaks (text : List Char) : '\r' ∉ unifyBreaks text := by
  fun_induction unifyBreaks text with
  | case1 => exact List.not_mem_nil
  | case2 rest induction =>
      rw [List.mem_cons, not_or]
      exact ⟨by decide, induction⟩
  | case3 rest _ induction =>
      rw [List.mem_cons, not_or]
      exact ⟨by decide, induction⟩
  | case4 character rest _ other induction =>
      rw [List.mem_cons, not_or]
      exact ⟨fun same => other same.symm, induction⟩

end Text

/-- The text of a value, if it is one. -/
def Json.characters (value : Json) : List Char := (value.asText.toOption.getD "").toList

/-- The text that a fix puts in the place of its target. -/
def FixAction.inserted : FixAction → List Char
  | .replace _ replacement => replacement.characters
  | .extract _ utility => utility.characters
  | .tokenize value token => tokenReference value.characters token.shown.toList
  | .remove _ => []

variable {content line : List Char} {lines : List (List Char)} {character : Char} {edit : Edit}
  {step : Step}

theorem openLine?_eq_some {number : Int} {target : Json}
    (opened : openLine? content number target = some (lines, line)) :
    lines = Text.splitFeeds content ∧ line ∈ lines ∧ 1 ≤ number := by
  unfold openLine? at opened
  split at opened
  · cases opened
  · dsimp only at opened
    split at opened
    · cases opened
    · cases opened
    · rename_i found
      cases opened
      unfold lineAt? at found
      split at found
      · cases found
      · exact ⟨rfl, List.mem_of_getElem? found, by omega⟩

/-- What a step does when it finds its target: it puts a text in the place of a
piece of one line.  What such a step names are texts, but for the name of a
token, which is shown as it is. -/
inductive Step.Edits (step : Step) (content : List Char) : Edit → Prop where
  | replaced {source replacement : String} {lines : List (List Char)} {line : List Char}
      {start : Nat} (action : step.action = .replace (.text source) (.text replacement))
      (opened : openLine? content step.line (.text source) = some (lines, line)) :
      step.Edits content {
        content := splice lines step.line line start (start + source.toList.length)
          replacement.toList
        removed := source.toList.length
        added := replacement.toList.length }
  | extracted {pattern utility : String} {lines : List (List Char)} {line : List Char}
      {start : Nat} (action : step.action = .extract (.text pattern) (.text utility))
      (opened : openLine? content step.line (.text pattern) = some (lines, line)) :
      step.Edits content {
        content := splice lines step.line line start (start + pattern.toList.length)
          utility.toList
        removed := pattern.toList.length
        added := utility.toList.length
        sideEffect := some (.utility (utilityBlock utility pattern)) }
  | tokenized {value : String} {token : Json} {lines : List (List Char)} {line : List Char}
      {start : Nat} (action : step.action = .tokenize (.text value) token)
      (opened : openLine? content step.line (.text value) = some (lines, line)) :
      step.Edits content {
        content := splice lines step.line line start (start + value.toList.length)
          (tokenReference value.toList token.shown.toList)
        removed := value.toList.length
        added := (tokenReference value.toList token.shown.toList).length
        sideEffect := some (.token (tokenDeclaration value.toList token.shown)) }
  | removed {className : String} {lines : List (List Char)} {line : List Char}
      {start stop : Nat} (action : step.action = .remove (.text className))
      (opened : openLine? content step.line (.text className) = some (lines, line)) :
      step.Edits content {
        content := splice lines step.line line start stop []
        removed := stop - start
        added := 0 }

theorem Step.edits_of_edit (made : step.edit content = .ok (some edit)) :
    step.Edits content edit := by
  unfold Step.edit at made
  cases action : step.action with
  | replace source replacement =>
      rw [action] at made
      change replaceClass content step.line step.column source replacement = _ at made
      unfold replaceClass at made
      split at made
      · cases made
      · rename_i opened
        obtain ⟨target, known, made⟩ := bind_eq_ok_iff.mp made
        dsimp only at made
        split at made
        · cases made
        · obtain ⟨text, named, made⟩ := bind_eq_ok_iff.mp made
          cases made
          obtain rfl := Json.asText_eq_ok known
          obtain rfl := Json.asText_eq_ok named
          exact .replaced action opened
  | extract pattern utility =>
      rw [action] at made
      change extractPattern content step.line pattern utility = _ at made
      unfold extractPattern at made
      split at made
      · cases made
      · rename_i opened
        obtain ⟨target, known, made⟩ := bind_eq_ok_iff.mp made
        dsimp only at made
        split at made
        · cases made
        · obtain ⟨name, named, made⟩ := bind_eq_ok_iff.mp made
          cases made
          obtain rfl := Json.asText_eq_ok known
          obtain rfl := Json.asText_eq_ok named
          exact .extracted action opened
  | tokenize value token =>
      rw [action] at made
      change tokenizeValue content step.line value token = _ at made
      unfold tokenizeValue at made
      split at made
      · cases made
      · rename_i opened
        obtain ⟨target, known, made⟩ := bind_eq_ok_iff.mp made
        dsimp only at made
        split at made
        · cases made
        · cases made
          obtain rfl := Json.asText_eq_ok known
          exact .tokenized action opened
  | remove className =>
      rw [action] at made
      change removeClass content step.line className = _ at made
      unfold removeClass at made
      split at made
      · cases made
      · rename_i opened
        obtain ⟨target, known, made⟩ := bind_eq_ok_iff.mp made
        dsimp only at made
        split at made
        · cases made
        · cases made
          obtain rfl := Json.asText_eq_ok known
          exact .removed action opened

/-- An edit replaces a piece of one line by the text that its step inserts. -/
theorem Step.edit_eq_splice (made : step.edit content = .ok (some edit)) :
    1 ≤ step.line ∧ ∃ line start stop, line ∈ Text.splitFeeds content ∧
      edit.content =
        splice (Text.splitFeeds content) step.line line start stop step.action.inserted := by
  cases Step.edits_of_edit made with
  | replaced action opened | extracted action opened | tokenized action opened
  | removed action opened =>
      obtain ⟨rfl, among, first⟩ := openLine?_eq_some opened
      rw [action]
      exact ⟨first, _, _, _, among, rfl⟩

/-- A character of an edited text was there before or was inserted; line feeds
apart. -/
theorem Step.mem_edit (made : step.edit content = .ok (some edit))
    (member : character ∈ edit.content) (notFeed : character ≠ '\n') :
    character ∈ content ∨ character ∈ step.action.inserted := by
  obtain ⟨_, line, start, stop, among, spliced⟩ := Step.edit_eq_splice made
  rw [spliced, splice] at member
  rcases Text.mem_joinFeeds member with feed | ⟨other, found, here⟩
  · exact absurd feed notFeed
  · rcases List.mem_or_eq_of_mem_set found with old | rfl
    · exact Or.inl (Text.mem_of_mem_splitFeeds old here)
    · rcases List.mem_append.mp here with before | after
      · rcases List.mem_append.mp before with kept | new
        · exact Or.inl (Text.mem_of_mem_splitFeeds among (List.mem_of_mem_take kept))
        · exact Or.inr new
      · exact Or.inl (Text.mem_of_mem_splitFeeds among (List.mem_of_mem_drop after))

end Restyle
