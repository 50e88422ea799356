import Restyle.Proofs.Edit.Lines
import Restyle.Proofs.Edit.Occurrences
import Restyle.Proofs.Migration.Insertions

/-!
# What an edit does

A step with texts edits its line where its target stands, and changes nothing only
if the target is empty, the line is missing or the target does not occur on it.  The
target makes place for the text of the step; a class that is removed goes with one
space beside it.  What is counted as removed and added is what went and what came.
-/

namespace Restyle

open Text

variable {text : List Char} {action : FixAction} {step : Step} {edit : Edit}

section
variable {line before after : List Char} {column : Int} {start : Nat}

namespace FixAction

/-- Whether what a fix says are texts. -/
def IsOfTexts : FixAction → Prop
  | .replace source replacement =>
      (∃ text, source = .text text) ∧ ∃ text, replacement = .text text
  | .extract pattern utility => (∃ text, pattern = .text text) ∧ ∃ text, utility = .text text
  | .tokenize value token => (∃ text, value = .text text) ∧ ∃ text, token = .text text
  | .remove className => ∃ text, className = .text text

/-- The characters that a fix looks for. -/
def sought (action : FixAction) : List Char := action.target.characters

/-- Where a fix finds its target on a line: near the column for a class that is
replaced, and else at the first occurrence. -/
def start? (action : FixAction) (column : Int) (line : List Char) : Option Nat :=
  match action with
  | .replace _ _ => indexNear? action.sought column line
  | _ => indexOf? action.sought line

/-- What stays of a line on the two sides of the target.  A class that is removed
takes one space with it: the first character after it if that is a space, or else the
last one before it if that is. -/
def sides (action : FixAction) (before after : List Char) : List Char × List Char :=
  match action with
  | .remove _ =>
      if after.head? = some ' ' then (before, after.tail)
      else if before.getLast? = some ' ' then (before.dropLast, after)
      else (before, after)
  | _ => (before, after)

theorem IsOfTexts.isFilled_iff (texts : action.IsOfTexts) :
    action.target.isFilled = true ↔ action.sought ≠ [] := by
  obtain ⟨text, target⟩ : ∃ text, action.target = .text text := by
    cases action with
    | replace source replacement => exact texts.1
    | extract pattern utility => exact texts.1
    | tokenize value token => exact texts.1
    | remove className => exact texts
  rw [sought, target]
  simp [Json.isFilled, Json.characters, Json.asText, Except.toOption]

theorem start?_eq_some (filled : action.sought ≠ [])
    (found : action.start? column line = some start) : StandsAt action.sought line start := by
  cases action with
  | replace source replacement => exact indexNear?_eq_some filled found
  | _ => exact (indexOf?_eq_some found).1

theorem start?_eq_none_iff (filled : action.sought ≠ []) :
    action.start? column line = none ↔ ∀ index, ¬ StandsAt action.sought line index := by
  cases action with
  | replace source replacement => exact indexNear?_eq_none_iff filled
  | _ => exact indexOf?_eq_none_iff

end FixAction

/-! ## A line that stands alone -/

theorem splice_alone (line inserted : List Char) (start stop : Nat) :
    splice [line] 1 line start stop inserted = line.take start ++ inserted ++ line.drop stop := by
  simp [splice, joinFeeds]

namespace FixAction

/-- The ends of what a fix takes out of a line when its target starts at an offset. -/
def span (action : FixAction) (line : List Char) (start : Nat) : Nat × Nat :=
  match action with
  | .remove _ => removalSpan line start action.sought.length
  | _ => (start, start + action.sought.length)

/-- The edit of a line in which the target of a fix starts at an offset. -/
def editAt (action : FixAction) (line : List Char) (effect : Option SideEffect) (start : Nat) :
    Edit where
  content := line.take (action.span line start).1 ++ action.inserted ++
    line.drop (action.span line start).2
  removed := (action.span line start).2 - (action.span line start).1
  added := action.inserted.length
  sideEffect := effect

theorem span_sides (action : FixAction) (split : line = before ++ action.sought ++ after) :
    line.take (action.span line before.length).1 = (action.sides before after).1 ∧
      line.drop (action.span line before.length).2 = (action.sides before after).2 ∧
      (action.span line before.length).1 ≤ (action.span line before.length).2 ∧
      (action.span line before.length).2 ≤ line.length := by
  have lead : line.take before.length = before := by simp [split]
  have rest : line.drop (before.length + action.sought.length) = after := by
    rw [split, ← List.length_append, List.drop_left]
  have length : line.length = before.length + action.sought.length + after.length := by
    simp [split, Nat.add_assoc]
  cases action with
  | remove className =>
      simp only [span, removalSpan, sides, lead, rest]
      split_ifs with trailing leading
      · have followed : 0 < after.length := List.length_pos_of_mem (List.mem_of_head? trailing)
        refine ⟨lead, ?_, by omega, by omega⟩
        rw [← rest, List.tail_drop]
      · refine ⟨?_, rest, by omega, by omega⟩
        rw [split, List.append_assoc, List.take_append_of_le_length (Nat.sub_le ..),
          List.dropLast_eq_take]
      · exact ⟨lead, rest, by omega, by omega⟩
  | _ => exact ⟨lead, rest, Nat.le_add_right _ _, by rw [length]; exact Nat.le_add_right _ _⟩

end FixAction

section
variable {target : String} (opened : openLine? line 1 (.text target) = some ([line], line))
include opened

theorem replaceClass_alone (column : Int) (new : String) :
    replaceClass line 1 column (.text target) (.text new) =
      .ok ((indexNear? target.toList column line).map
        ((FixAction.replace (.text target) (.text new)).editAt line none)) := by
  simp only [replaceClass, opened, Json.asText, bind, Except.bind, splice_alone]
  cases indexNear? target.toList column line with
  | none => rfl
  | some start =>
      simp only [Option.map_some, FixAction.editAt, FixAction.span, Nat.add_sub_cancel_left]
      rfl

theorem extractPattern_alone (new : String) :
    extractPattern line 1 (.text target) (.text new) =
      .ok ((indexOf? target.toList line).map
        ((FixAction.extract (.text target) (.text new)).editAt line
          (some (.utility (utilityBlock new target))))) := by
  simp only [extractPattern, opened, Json.asText, bind, Except.bind, splice_alone]
  cases indexOf? target.toList line with
  | none => rfl
  | some start =>
      simp only [Option.map_some, FixAction.editAt, FixAction.span, Nat.add_sub_cancel_left]
      rfl

theorem tokenizeValue_alone (token : String) :
    tokenizeValue line 1 (.text target) (.text token) =
      .ok ((indexOf? target.toList line).map
        ((FixAction.tokenize (.text target) (.text token)).editAt line
          (some (.token (tokenDeclaration target.toList token))))) := by
  simp only [tokenizeValue, opened, Json.asText, bind, Except.bind, splice_alone]
  cases indexOf? target.toList line with
  | none => rfl
  | some start =>
      simp only [Option.map_some, FixAction.editAt, FixAction.span, Nat.add_sub_cancel_left]
      rfl

theorem removeClass_alone :
    removeClass line 1 (.text target) =
      .ok ((indexOf? target.toList line).map
        ((FixAction.remove (.text target)).editAt line none)) := by
  simp only [removeClass, opened, Json.asText, bind, Except.bind, splice_alone]
  cases indexOf? target.toList line with
  | none => rfl
  | some start => rfl

end

namespace Step

/-- A step with nothing to look for, or nothing to look at, changes nothing. -/
theorem onLine_of_closed (clean : '\n' ∉ line)
    (closed : ¬ (step.action.target.isFilled = true ∧ line ≠ [])) : step.onLine line = .ok none :=
  edit_of_openLine?_none ((openLine?_alone clean _).trans (if_neg closed))

theorem onLine_eq (texts : step.action.IsOfTexts) (clean : '\n' ∉ line)
    (filled : step.action.sought ≠ []) (written : line ≠ []) :
    ∃ effect, step.onLine line =
      .ok ((step.action.start? step.column line).map (step.action.editAt line effect)) := by
  have opened := openLine?_alone clean step.action.target
  rw [if_pos ⟨texts.isFilled_iff.mpr filled, written⟩] at opened
  unfold onLine edit
  cases action : step.action with
  | replace source replacement =>
      rw [action] at texts opened
      obtain ⟨⟨target, rfl⟩, new, rfl⟩ := texts
      exact ⟨_, replaceClass_alone opened step.column new⟩
  | extract pattern utility =>
      rw [action] at texts opened
      obtain ⟨⟨target, rfl⟩, new, rfl⟩ := texts
      exact ⟨_, extractPattern_alone opened new⟩
  | tokenize value token =>
      rw [action] at texts opened
      obtain ⟨⟨target, rfl⟩, new, rfl⟩ := texts
      exact ⟨_, tokenizeValue_alone opened new⟩
  | remove className =>
      rw [action] at texts opened
      obtain ⟨target, rfl⟩ := texts
      exact ⟨_, removeClass_alone opened⟩

end Step

end

/-! ## A line of a text -/

/-- A place in a text where the target of a step stands on the line of the step. -/
structure Step.Occurrence (step : Step) (text : List Char) where
  above : List (List Char)
  before : List Char
  after : List Char
  below : List (List Char)
  lines : splitFeeds text = above ++ (before ++ step.action.sought ++ after) :: below
  number : (above.length + 1 : Int) = step.line

namespace Step.Occurrence

variable (place : step.Occurrence text)

/-- The offset of the target on its line. -/
def start : Nat := place.before.length

def line : List Char := place.before ++ step.action.sought ++ place.after

/-- What stays of the line before the target. -/
def left : List Char := (step.action.sides place.before place.after).1

/-- What stays of the line after the target. -/
def right : List Char := (step.action.sides place.before place.after).2

/-- Whether an edit puts the text of a step between what stays of the line, leaves the
other lines alone, and counts what it takes out and puts in. -/
structure IsEdited (edit : Edit) : Prop where
  content : edit.content = joinFeeds
    (place.above ++ (place.left ++ step.action.inserted ++ place.right) :: place.below)
  added : edit.added = step.action.inserted.length
  removed : edit.removed + (place.left ++ place.right).length = place.line.length

variable {place}

/-- An edit makes a text longer by what it adds and shorter by what it removes. -/
theorem IsEdited.length (edited : place.IsEdited edit) :
    edit.content.length + edit.removed = text.length + edit.added := by
  obtain ⟨lead, rest, frame⟩ := joinFeeds_frame place.above place.below
  have whole : text = lead ++ place.line ++ rest := by
    rw [← frame, line, ← place.lines, joinFeeds_splitFeeds]
  have removed := edited.removed
  rw [edited.content, frame, edited.added]
  conv_rhs => rw [whole]
  simp only [List.length_append] at removed ⊢
  omega

variable (place)

theorem index_eq : (step.line - 1).toNat = place.above.length := by
  have number := place.number
  omega

theorem lineAt?_eq : lineAt? (splitFeeds text) step.line = some place.line := by
  rw [lineAt?_eq_some_iff, place.index_eq, place.lines, List.getElem?_append_right (Nat.le_refl _),
    Nat.sub_self]
  have number := place.number
  exact ⟨by omega, rfl⟩

theorem isEdited_inPlace (effect : Option SideEffect) : place.IsEdited
    ((step.action.editAt place.line effect place.start).inPlace (splitFeeds text) step.line) := by
  have split : place.line = place.before ++ step.action.sought ++ place.after := rfl
  obtain ⟨before, after, upTo, within⟩ := step.action.span_sides split
  constructor
  · simp only [Edit.inPlace, FixAction.editAt, start]
    rw [before, after, place.index_eq, place.lines, List.set_append_right _ _ (Nat.le_refl _),
      Nat.sub_self]
    rfl
  · rfl
  · rw [left, right, ← before, ← after, List.length_append, List.length_take, List.length_drop]
    simp only [Edit.inPlace, FixAction.editAt, start]
    omega

theorem line_eq (other : step.Occurrence text) : other.line = place.line :=
  Option.some.inj (other.lineAt?_eq.symm.trans place.lineAt?_eq)

/-- There is at most one place that starts at an offset. -/
theorem eq_of_start {other : step.Occurrence text} (same : other.start = place.start) :
    other = place := by
  have lines := place.line_eq other
  have numbers : other.above.length = place.above.length := by
    rw [← other.index_eq, ← place.index_eq]
  obtain ⟨above, before, after, below, split, number⟩ := place
  obtain ⟨otherAbove, otherBefore, otherAfter, otherBelow, otherSplit, otherNumber⟩ := other
  obtain ⟨rfl, further⟩ := List.append_inj (otherSplit.symm.trans split) numbers
  obtain ⟨_, rfl⟩ := List.cons.inj further
  simp only [line, List.append_assoc] at lines
  obtain ⟨rfl, rest⟩ := List.append_inj lines same
  obtain rfl := List.append_cancel_left rest
  rfl

theorem of_standsAt {line : List Char} {start : Nat}
    (found : lineAt? (splitFeeds text) step.line = some line)
    (stands : StandsAt step.action.sought line start) :
    ∃ place : step.Occurrence text, place.line = line ∧ place.start = start := by
  obtain ⟨first, here⟩ := lineAt?_eq_some_iff.mp found
  obtain ⟨before, after, rfl, length⟩ := stands
  obtain ⟨within, same⟩ := List.getElem?_eq_some_iff.mp here
  refine ⟨⟨(splitFeeds text).take (step.line - 1).toNat, before, after,
    (splitFeeds text).drop ((step.line - 1).toNat + 1), ?_, ?_⟩, rfl, length⟩
  · rw [← same, ← List.drop_eq_getElem_cons, List.take_append_drop]
  · rw [List.length_take]
    omega

theorem standsAt : StandsAt step.action.sought place.line place.start :=
  ⟨place.before, place.after, rfl, rfl⟩

end Step.Occurrence

namespace Step

variable {line : List Char} {start : Nat}

theorem edit_of_start?_eq_some (texts : step.action.IsOfTexts) (filled : step.action.sought ≠ [])
    (found : lineAt? (splitFeeds text) step.line = some line)
    (here : step.action.start? step.column line = some start) :
    ∃ (edit : Edit) (place : step.Occurrence text), step.edit text = .ok (some edit) ∧
      place.IsEdited edit ∧ place.start = start := by
  obtain ⟨place, rfl, rfl⟩ :=
    Occurrence.of_standsAt found (FixAction.start?_eq_some filled here)
  have written : place.line ≠ [] := by simp [Occurrence.line, filled]
  obtain ⟨effect, made⟩ := onLine_eq texts (feed_not_mem_lineAt? found) filled written
  rw [here] at made
  refine ⟨_, place, ?_, place.isEdited_inPlace effect, rfl⟩
  rw [edit_of_lineAt? found, made]
  rfl

theorem edit_of_start?_eq_none (texts : step.action.IsOfTexts) (filled : step.action.sought ≠ [])
    (found : lineAt? (splitFeeds text) step.line = some line)
    (nowhere : step.action.start? step.column line = none) : step.edit text = .ok none := by
  have missed : step.onLine line = .ok none := by
    by_cases written : line = []
    · exact onLine_of_closed (feed_not_mem_lineAt? found) fun opens => opens.2 written
    · obtain ⟨effect, made⟩ := onLine_eq texts (feed_not_mem_lineAt? found) filled written
      rw [made, nowhere]
      rfl
  rw [edit_of_lineAt? found, missed]
  rfl

/-- A step with nothing to look for changes nothing. -/
theorem edit_of_sought_eq_nil (texts : step.action.IsOfTexts) (empty : step.action.sought = []) :
    step.edit text = .ok none := by
  apply edit_of_openLine?_none
  have notFilled : step.action.target.isFilled = false :=
    Bool.eq_false_iff.mpr fun filled => texts.isFilled_iff.mp filled empty
  rw [openLine?, notFilled]
  rfl

/-- An edit is missing exactly if there is nothing to look for, no line to look at, or
no occurrence on the line; and an edit that is made is one of an occurrence. -/
theorem edit_exact (texts : step.action.IsOfTexts) (text : List Char) :
    ∃ result, step.edit text = .ok result ∧
      (result = none ↔
        step.action.sought = [] ∨
          ¬ (1 ≤ step.line ∧ step.line ≤ (splitFeeds text).length) ∨
            ∃ line, lineAt? (splitFeeds text) step.line = some line ∧
              ¬ step.action.sought <:+: line) ∧
      ∀ edit, result = some edit →
        (∃ place : step.Occurrence text, place.IsEdited edit) ∧
          edit.content.length + edit.removed = text.length + edit.added := by
  by_cases filled : step.action.sought = []
  · exact ⟨none, edit_of_sought_eq_nil texts filled, ⟨fun _ => .inl filled, fun _ => rfl⟩, nofun⟩
  cases found : lineAt? (splitFeeds text) step.line with
  | none =>
      have outside := lineAt?_eq_none_iff.mp found
      exact ⟨none, edit_of_lineAt?_none found, ⟨fun _ => .inr (.inl outside), fun _ => rfl⟩, nofun⟩
  | some line =>
      cases here : step.action.start? step.column line with
      | none =>
          have missing : ¬ step.action.sought <:+: line := by
            rw [isInfix_iff_standsAt, not_exists]
            exact (FixAction.start?_eq_none_iff filled).mp here
          exact ⟨none, edit_of_start?_eq_none texts filled found here,
            ⟨fun _ => .inr (.inr ⟨line, rfl, missing⟩), fun _ => rfl⟩, nofun⟩
      | some start =>
          obtain ⟨edit, place, made, edited, _⟩ := edit_of_start?_eq_some texts filled found here
          refine ⟨some edit, made, ⟨nofun, ?_⟩, ?_⟩
          · rintro (empty | outside | ⟨other, same, missing⟩)
            · exact absurd empty filled
            · rw [← lineAt?_eq_none_iff, found] at outside
              cases outside
            · obtain rfl := Option.some.inj same
              exact absurd (isInfix_iff_standsAt.mpr ⟨_, FixAction.start?_eq_some filled here⟩) missing
          · rintro _ ⟨⟩
            exact ⟨⟨place, edited⟩, edited.length⟩

/-- Takes a class out of the first line. -/
def clearing : Step :=
  { (default : Step) with line := 1, action := .remove (.text "p") }

theorem edit_exact_clearing :
    clearing.action.IsOfTexts ∧
      ∃ place : clearing.Occurrence ['a', ' ', 'p', ' ', 'b'],
        place.IsEdited ⟨['a', ' ', 'b'], 2, 0, none⟩ := by
  have texts : clearing.action.IsOfTexts := ⟨"p", rfl⟩
  obtain ⟨result, made, _, exact⟩ := edit_exact texts ['a', ' ', 'p', ' ', 'b']
  have known : clearing.edit ['a', ' ', 'p', ' ', 'b'] =
      .ok (some ⟨['a', ' ', 'b'], 2, 0, none⟩) := by rfl
  rw [known] at made
  cases made
  exact ⟨texts, (exact _ rfl).1⟩

end Step

end Restyle
