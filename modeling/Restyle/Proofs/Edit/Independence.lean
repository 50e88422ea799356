import Restyle.Proofs.Edit.Lines
import Restyle.Proofs.Migration.UntouchedLines

/-!
# Edits of different lines

A step reads and writes its own line only.  So steps for different lines can be taken
in any order: each does to its line what it does to the line of the text as it was,
and the text that they make is the same.
-/

namespace Restyle

open Text

variable {text line : List Char} {step first second : Step} {steps others : List Step}

/-- A reference to a token has no line feed but those of the token. -/
theorem feed_not_mem_tokenReference {value token : List Char} (plain : '\n' ∉ token) :
    '\n' ∉ tokenReference value token := by
  have parts : ∀ part ∈ Suggestion.colouredParts, '\n' ∉ part.toList := by decide
  unfold tokenReference
  dsimp only
  split
  · rename_i known
    rw [Bool.and_eq_true, List.contains_iff_mem] at known
    have clean := parts _ known.1
    rw [String.toList_ofList] at clean
    simp [clean, plain]
  · simp [defaultPart, plain]

namespace FixAction

/-- What a fix names that is new: the class, the utility or the token. -/
def named : FixAction → List Char
  | .replace _ replacement => replacement.characters
  | .extract _ utility => utility.characters
  | .tokenize _ token => token.shown.toList
  | .remove _ => []

theorem feed_not_mem_inserted {action : FixAction} (plain : '\n' ∉ action.named) :
    '\n' ∉ action.inserted := by
  cases action with
  | tokenize value token => exact feed_not_mem_tokenReference plain
  | _ => exact plain

end FixAction

namespace Step

/-- What a step makes of its line. -/
def newLine (step : Step) (line : List Char) : List Char :=
  ({ step with line := 1 } : Step).applyTo line

/-- What a step makes of the lines of a text. -/
def editLines (step : Step) (lines : List (List Char)) : List (List Char) :=
  if 1 ≤ step.line then lines.modify (step.line - 1).toNat step.newLine else lines

theorem applyTo_eq_joinFeeds (step : Step) (text : List Char) :
    step.applyTo text = joinFeeds (step.editLines (splitFeeds text)) := by
  cases found : lineAt? (splitFeeds text) step.line with
  | none =>
      have outside := lineAt?_eq_none_iff.mp found
      have same : step.editLines (splitFeeds text) = splitFeeds text := by
        unfold editLines
        split
        · apply List.modify_eq_self
          omega
        · rfl
      rw [applyTo, edit_of_lineAt?_none found, same, joinFeeds_splitFeeds]
  | some line =>
      obtain ⟨positive, here⟩ := lineAt?_eq_some_iff.mp found
      rw [editLines, if_pos positive, List.modify_eq_set_getElem?, here]
      change _ = joinFeeds ((splitFeeds text).set (step.line - 1).toNat (step.newLine line))
      have kept : joinFeeds ((splitFeeds text).set (step.line - 1).toNat line) = text := by
        obtain ⟨within, same⟩ := List.getElem?_eq_some_iff.mp here
        rw [← same, List.set_getElem_self, joinFeeds_splitFeeds]
      have alone : ({ step with line := 1 } : Step).edit line = step.onLine line := rfl
      unfold newLine applyTo
      rw [edit_of_lineAt? found, alone]
      rcases step.onLine line with _ | _ | edit
      · exact kept.symm
      · exact kept.symm
      · rfl

theorem feed_not_mem_newLine (plain : '\n' ∉ step.action.inserted) (clean : '\n' ∉ line) :
    '\n' ∉ step.newLine line := by
  have same := @applyTo_sameLines { step with line := 1 } plain line
  have single : (splitFeeds (step.newLine line)).length = 1 := by
    rw [newLine, same.length, splitFeeds_of_clean clean, List.length_singleton]
  obtain ⟨whole, cut⟩ := List.length_eq_one_iff.mp single
  have joined : step.newLine line = whole := by
    rw [← joinFeeds_splitFeeds (step.newLine line), cut]
    simp [joinFeeds]
  rw [joined]
  exact feed_not_mem_splitFeeds (cut ▸ List.mem_singleton_self whole)

theorem mem_editLines {lines : List (List Char)} (member : line ∈ step.editLines lines) :
    line ∈ lines ∨ ∃ other ∈ lines, line = step.newLine other := by
  unfold editLines at member
  split at member
  · obtain ⟨index, here⟩ := List.mem_iff_getElem?.mp member
    rw [List.getElem?_modify] at here
    obtain ⟨other, there, rfl⟩ := Option.map_eq_some_iff.mp here
    have among := List.mem_of_getElem? there
    split
    · exact .inr ⟨other, among, rfl⟩
    · exact .inl among
  · exact .inl member

theorem splitFeeds_applyTo (plain : '\n' ∉ step.action.inserted) (text : List Char) :
    splitFeeds (step.applyTo text) = step.editLines (splitFeeds text) := by
  rw [applyTo_eq_joinFeeds]
  apply splitFeeds_joinFeeds
  · intro line member
    rcases mem_editLines member with old | ⟨other, old, rfl⟩
    · exact feed_not_mem_splitFeeds old
    · exact feed_not_mem_newLine plain (feed_not_mem_splitFeeds old)
  · rw [editLines]
    split
    · simpa using splitFeeds_ne_nil text
    · exact splitFeeds_ne_nil text

/-- Edits of different lines can be exchanged. -/
theorem editLines_comm (apart : first.line ≠ second.line) (lines : List (List Char)) :
    second.editLines (first.editLines lines) = first.editLines (second.editLines lines) := by
  unfold editLines
  split_ifs with later earlier
  · apply List.modify_modify_ne
    omega
  all_goals rfl

theorem lineAt?_editLines {number : Int} (apart : step.line ≠ number) (lines : List (List Char)) :
    lineAt? (step.editLines lines) number = lineAt? lines number := by
  unfold editLines lineAt?
  split_ifs with before positive
  · rfl
  · rw [List.getElem?_modify_ne]
    omega
  · rfl

theorem applyTo_comm (firstPlain : '\n' ∉ first.action.inserted)
    (secondPlain : '\n' ∉ second.action.inserted) (apart : first.line ≠ second.line)
    (text : List Char) :
    second.applyTo (first.applyTo text) = first.applyTo (second.applyTo text) := by
  rw [second.applyTo_eq_joinFeeds, splitFeeds_applyTo firstPlain, editLines_comm apart,
    ← splitFeeds_applyTo secondPlain, ← first.applyTo_eq_joinFeeds]

/-- What a step tells about a text: nothing if there is no edit, and else the numbers of
characters removed and added and the declaration. -/
def outcome (step : Step) (text : List Char) :
    Except Fault (Option (Nat × Nat × Option SideEffect)) :=
  (step.edit text).map (Option.map fun edit => (edit.removed, edit.added, edit.sideEffect))

/-- The outcome of a step hangs on its line only. -/
theorem outcome_congr {other : List Char}
    (same : lineAt? (splitFeeds other) step.line = lineAt? (splitFeeds text) step.line) :
    step.outcome other = step.outcome text := by
  unfold outcome
  cases found : lineAt? (splitFeeds text) step.line with
  | none => rw [edit_of_lineAt?_none found, edit_of_lineAt?_none (same.trans found)]
  | some line =>
      rw [edit_of_lineAt? found, edit_of_lineAt? (same.trans found)]
      rcases step.onLine line with _ | _ | edit
      all_goals rfl

theorem outcome_applyTo (plain : '\n' ∉ first.action.inserted) (apart : first.line ≠ second.line)
    (text : List Char) : second.outcome (first.applyTo text) = second.outcome text := by
  apply outcome_congr
  rw [splitFeeds_applyTo plain, lineAt?_editLines apart]

end Step

/-- The outcomes of steps, one after the other. -/
def outcomes (text : List Char) :
    List Step → List (Except Fault (Option (Nat × Nat × Option SideEffect)))
  | [] => []
  | step :: later => step.outcome text :: outcomes (step.applyTo text) later

/-- Steps for different lines have the outcomes that they have on the text as it was. -/
theorem outcomes_eq_map (distinct : (steps.map (·.line)).Nodup)
    (plain : ∀ step ∈ steps, '\n' ∉ step.action.inserted) (text : List Char) :
    outcomes text steps = steps.map (·.outcome text) := by
  induction steps generalizing text with
  | nil => rfl
  | cons step later induction =>
      rw [List.map_cons, List.nodup_cons] at distinct
      have apart : ∀ other ∈ later, step.line ≠ other.line := fun other member same =>
        distinct.1 (same ▸ List.mem_map_of_mem member)
      rw [outcomes, induction distinct.2 fun other member => plain other (.tail _ member),
        List.map_cons]
      congr 1
      apply List.map_congr_left
      exact fun other member => Step.outcome_applyTo (plain step (.head _)) (apart other member) text

theorem editInOrder_perm (distinct : (steps.map (·.line)).Nodup)
    (plain : ∀ step ∈ steps, '\n' ∉ step.action.inserted) (order : others.Perm steps)
    (text : List Char) : editInOrder text others = editInOrder text steps := by
  refine (order.symm.foldl_eq' ?_ text).symm
  intro first firstMember second secondMember current
  by_cases apart : first.line = second.line
  · obtain rfl := List.inj_on_of_nodup_map distinct firstMember secondMember apart
    rfl
  · exact Step.applyTo_comm (plain first firstMember) (plain second secondMember) apart current

/-- Steps for different lines can be taken in any order: they make the same text, and
each has the same outcome. -/
theorem edits_independent (distinct : (steps.map (·.line)).Nodup)
    (plain : ∀ step ∈ steps, '\n' ∉ step.action.named) (order : others.Perm steps)
    (text : List Char) :
    editInOrder text others = editInOrder text steps ∧
      (others.zip (outcomes text others)).Perm (steps.zip (outcomes text steps)) := by
  have clean : ∀ step ∈ steps, '\n' ∉ step.action.inserted := fun step member =>
    FixAction.feed_not_mem_inserted (plain step member)
  refine ⟨editInOrder_perm distinct clean order text, ?_⟩
  have othersDistinct : (others.map (·.line)).Nodup := (order.map _).nodup_iff.mpr distinct
  have othersClean : ∀ step ∈ others, '\n' ∉ step.action.inserted := fun step member =>
    clean step (order.mem_iff.mp member)
  rw [outcomes_eq_map othersDistinct othersClean, outcomes_eq_map distinct clean,
    ← List.map_prod_left_eq_zip, ← List.map_prod_left_eq_zip]
  exact order.map _

/-- Swaps a class on the first line and removes it from the second. -/
def twoLines : List Step :=
  [{ (default : Step) with line := 1, action := .replace (.text "x") (.text "y") },
    { (default : Step) with line := 2, action := .remove (.text "x") }]

theorem edits_independent_twoLines :
    (twoLines.map (·.line)).Nodup ∧ (∀ step ∈ twoLines, '\n' ∉ step.action.named) ∧
      editInOrder ['x', '\n', 'x', ' ', 'z'] twoLines.reverse = ['y', '\n', 'z'] ∧
      (twoLines.reverse.zip (outcomes ['x', '\n', 'x', ' ', 'z'] twoLines.reverse)).Perm
        (twoLines.zip [.ok (some (1, 1, none)), .ok (some (2, 0, none))]) := by
  have distinct : (twoLines.map (·.line)).Nodup := by decide
  have plain : ∀ step ∈ twoLines, '\n' ∉ step.action.named := by decide
  obtain ⟨made, told⟩ :=
    edits_independent distinct plain (List.reverse_perm twoLines) ['x', '\n', 'x', ' ', 'z']
  exact ⟨distinct, plain, made, told⟩

end Restyle
