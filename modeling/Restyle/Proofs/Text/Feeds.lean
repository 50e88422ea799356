import Restyle.Text.Parts

/-!
# Lines between line feeds

Cutting a text at its line feeds and joining the lines again gives the text, and
joining lines that have no line feeds and cutting the text again gives the lines.
A line stands in the joined text between what the other lines make up.
-/

namespace Restyle.Text

variable {character : Char} {lines : List (List Char)}

theorem splitFeeds_cons (character : Char) (rest : List Char) :
    splitFeeds (character :: rest) =
      if character = '\n' then [] :: splitFeeds rest
      else (splitFeeds rest).modifyHead (List.cons character) := by
  simpa only [splitFeeds, beq_iff_eq] using List.splitOn_cons_eq_if_modifyHead character rest

theorem splitFeeds_ne_nil (text : List Char) : splitFeeds text ≠ [] :=
  List.splitOn_ne_nil _ _

theorem feed_not_mem_splitFeeds {text line : List Char} (among : line ∈ splitFeeds text) :
    '\n' ∉ line := by
  induction text generalizing line with
  | nil =>
      obtain rfl : line = [] := by simpa [splitFeeds] using among
      exact List.not_mem_nil
  | cons character rest induction =>
      rw [splitFeeds_cons] at among
      split at among
      · rcases List.mem_cons.mp among with rfl | later
        · exact List.not_mem_nil
        · exact induction later
      · rename_i notFeed
        obtain ⟨first, lines, cut⟩ := List.exists_cons_of_ne_nil (splitFeeds_ne_nil rest)
        rw [cut] at induction among
        rcases List.mem_cons.mp among with rfl | later
        · rw [List.mem_cons, not_or]
          exact ⟨fun same => notFeed same.symm, induction List.mem_cons_self⟩
        · exact induction (List.mem_cons_of_mem _ later)

theorem splitFeeds_joinFeeds {lines : List (List Char)} (clean : ∀ line ∈ lines, '\n' ∉ line)
    (filled : lines ≠ []) : splitFeeds (joinFeeds lines) = lines :=
  List.splitOn_intercalate '\n' clean filled

theorem joinFeeds_splitFeeds (text : List Char) : joinFeeds (splitFeeds text) = text :=
  List.intercalate_splitOn '\n'

theorem splitFeeds_of_clean {line : List Char} (clean : '\n' ∉ line) : splitFeeds line = [line] :=
  List.splitOn_eq_singleton clean

theorem mem_joinFeeds (member : character ∈ joinFeeds lines) :
    character = '\n' ∨ ∃ line ∈ lines, character ∈ line := by
  induction lines with
  | nil => cases member
  | cons first lines induction =>
      cases lines with
      | nil => exact Or.inr ⟨first, List.mem_cons_self, by simpa [joinFeeds] using member⟩
      | cons second lines =>
          rw [joinFeeds, List.intercalate_cons_cons] at member
          rcases List.mem_append.mp member with before | later
          · rcases List.mem_append.mp before with here | feed
            · exact Or.inr ⟨first, List.mem_cons_self, here⟩
            · exact Or.inl (List.mem_singleton.mp feed)
          · rcases induction later with feed | ⟨line, among, here⟩
            · exact Or.inl feed
            · exact Or.inr ⟨line, List.mem_cons_of_mem _ among, here⟩

theorem mem_joinFeeds_of_mem {line : List Char} (among : line ∈ lines) (here : character ∈ line) :
    character ∈ joinFeeds lines := by
  induction lines with
  | nil => cases among
  | cons first lines induction =>
      cases lines with
      | nil =>
          rw [List.mem_singleton.mp among] at here
          simpa [joinFeeds] using here
      | cons second lines =>
          rw [joinFeeds, List.intercalate_cons_cons]
          rcases List.mem_cons.mp among with rfl | later
          · exact List.mem_append_left _ (List.mem_append_left _ here)
          · exact List.mem_append_right _ (induction later)

theorem mem_of_mem_splitFeeds {text line : List Char} (among : line ∈ splitFeeds text)
    (here : character ∈ line) : character ∈ text := by
  rw [← joinFeeds_splitFeeds text]
  exact mem_joinFeeds_of_mem among here

/-- What a line stands between does not hang on the line. -/
theorem joinFeeds_frame (above below : List (List Char)) :
    ∃ lead rest, ∀ line, joinFeeds (above ++ line :: below) = lead ++ line ++ rest := by
  induction above with
  | nil =>
      cases below with
      | nil => exact ⟨[], [], fun line => by simp [joinFeeds]⟩
      | cons next below =>
          refine ⟨[], '\n' :: joinFeeds (next :: below), fun line => ?_⟩
          rw [List.nil_append, joinFeeds, List.intercalate_cons_cons]
          simp [joinFeeds]
  | cons first above induction =>
      obtain ⟨lead, rest, frame⟩ := induction
      refine ⟨first ++ '\n' :: lead, rest, fun line => ?_⟩
      obtain ⟨next, others, filled⟩ :=
        List.exists_cons_of_ne_nil (l := above ++ line :: below) (by simp)
      have joined : joinFeeds (next :: others) = lead ++ line ++ rest := filled ▸ frame line
      rw [List.cons_append, filled, joinFeeds, List.intercalate_cons_cons, ← joinFeeds, joined]
      simp

end Restyle.Text
