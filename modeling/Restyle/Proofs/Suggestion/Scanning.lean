import Restyle.Proofs.Suggestion.Notes
import Restyle.Proofs.Text.Expressions

/-!
# Notes read by one scan

`colourNote` is the expression that a note with a colour is matched against.  Blanks
that it has taken are given back where the rest does not match, and its value is as
short as the end of a line allows.  Yet one scan from the left finds the same value:
what stands behind the colon of the property, up to the end of its first line.
-/

namespace Restyle.Suggestion

open Text

variable {note rest text : List Char} {groups : List (List Char)}

/-! ## The expression of a note -/

/-- `Found:`, the name of a property, and its colon. -/
def propertyLead : Expression :=
  .join (.literal "Found:".toList) (.join (.run true 0 isBlank)
    (.join (.run true 1 isWordOrDash) (.literal [':'])))

/-- A line ends with a line feed or with the text. -/
def lineEnd : Expression := .either (.literal ['\n']) .ending

def lineValue : Expression := .join (.group (.run false 1 (· != '\n'))) lineEnd

/-- A value and the blanks in front of it. -/
def spacedValue : Expression := .join (.run true 0 isBlank) lineValue

/-- A note with the value of a property. -/
def colourNote : Expression := .join propertyLead spacedValue

/-- Whether a note names a property, and what stands behind its colon. -/
def NamesProperty (note rest : List Char) : Prop :=
  ∃ gap name, (∀ character ∈ gap, isBlank character = true) ∧ name ≠ [] ∧
    (∀ character ∈ name, isWordOrDash character = true) ∧
      note = "Found:".toList ++ (gap ++ (name ++ ':' :: rest))

theorem NamesProperty.suffix (names : NamesProperty note rest) : rest <:+ note := by
  obtain ⟨gap, name, _, _, _, rfl⟩ := names
  exact ⟨"Found:".toList ++ (gap ++ (name ++ [':'])), by simp⟩

theorem propertyLead_fits {taken : List Char} :
    propertyLead.Fits taken groups rest ↔
      ∃ gap name, taken = "Found:".toList ++ (gap ++ (name ++ [':'])) ∧
        (∀ character ∈ gap, isBlank character = true) ∧ IsRunOf isWordOrDash name ∧
          groups = [] := by
  simp only [propertyLead, Expression.join_literal_fits, Expression.join_many_fits,
    Expression.join_some_fits, Expression.literal_fits]
  constructor
  · intro fits
    obtain ⟨_, rfl, gap, _, rfl, blank, name, _, rfl, named, rfl, rfl⟩ := fits
    exact ⟨gap, name, rfl, blank, named, rfl⟩
  · intro parts
    obtain ⟨gap, name, rfl, blank, named, rfl⟩ := parts
    exact ⟨_, rfl, gap, _, rfl, blank, name, _, rfl, named, rfl, rfl⟩

theorem exists_propertyLead_iff :
    (∃ taken, note = taken ++ rest ∧ propertyLead.Fits taken [] rest) ↔
      NamesProperty note rest := by
  constructor
  · intro taken
    obtain ⟨_, rfl, fits⟩ := taken
    obtain ⟨gap, name, rfl, blank, named, _⟩ := propertyLead_fits.mp fits
    exact ⟨gap, name, blank, named.filled, named.passes, by simp⟩
  · intro names
    obtain ⟨gap, name, blank, filled, word, rfl⟩ := names
    exact ⟨"Found:".toList ++ (gap ++ (name ++ [':'])), by simp,
      propertyLead_fits.mpr ⟨gap, name, rfl, blank, ⟨filled, word⟩, rfl⟩⟩

theorem lineEnd_fits :
    (∃ taken rest, text = taken ++ rest ∧ lineEnd.Fits taken groups rest) ↔
      (text = [] ∨ text.head? = some '\n') ∧ groups = [] := by
  constructor
  · rintro ⟨taken, rest, rfl, ⟨feed, rfl⟩ | ⟨rfl, rfl, rfl | rfl⟩⟩
    · rw [List.mem_singleton.mp feed]
      exact ⟨Or.inr rfl, rfl⟩
    · exact ⟨Or.inl rfl, rfl⟩
    · exact ⟨Or.inr rfl, rfl⟩
  · rintro ⟨rfl | feed, rfl⟩
    · exact ⟨[], [], rfl, Or.inr ⟨rfl, rfl, Or.inl rfl⟩⟩
    · obtain ⟨rest, rfl⟩ := List.head?_eq_some_iff.mp feed
      exact ⟨['\n'], rest, rfl, Or.inl ⟨List.mem_singleton_self _, rfl⟩⟩

theorem lineValue_fits :
    (∃ taken rest, text = taken ++ rest ∧ lineValue.Fits taken groups rest) ↔
      text.takeWhile (· != '\n') ≠ [] ∧ groups = [text.takeWhile (· != '\n')] := by
  simp only [lineValue, Expression.join_group_fits fun _ _ _ => Expression.some_fits]
  constructor
  · intro found
    obtain ⟨_, rest, rfl, line, back, others, rfl, rfl, whole, fits⟩ := found
    obtain ⟨ends, rfl⟩ := lineEnd_fits.mp ⟨back, rest, rfl, fits⟩
    have first : (line ++ (back ++ rest)).takeWhile (· != '\n') = line :=
      takeWhile_line (whole.not_mem (bne_self_eq_false _)) ends
    rw [List.append_assoc, first]
    exact ⟨whole.filled, rfl⟩
  · intro value
    obtain ⟨filled, rfl⟩ := value
    obtain ⟨taken, rest, left, fits⟩ := lineEnd_fits.mpr ⟨dropWhile_line text, rfl⟩
    have whole : text = text.takeWhile (· != '\n') ++ taken ++ rest := by
      rw [List.append_assoc, ← left, List.takeWhile_append_dropWhile]
    exact ⟨_, rest, whole, _, taken, [], rfl, rfl, IsRunOf.of_takeWhile filled, fits⟩

/-- However short a value may be, it goes as far as its line. -/
theorem match?_lineValue (text : List Char) :
    lineValue.match? text =
      if text.takeWhile (· != '\n') = [] then none else some [text.takeWhile (· != '\n')] := by
  refine (Expression.match?_eq_map _ id fun groups => ?_).trans Option.map_id_apply
  rw [lineValue_fits]
  split
  · rename_i ended
    simp [ended]
  · rename_i filled
    simp [filled, eq_comm]

/-! ## The value behind the blanks -/

theorem match?_spacedValue (solid : trimLeft text ≠ []) :
    spacedValue.match? text = some [(trimLeft text).takeWhile (· != '\n')] := by
  apply Expression.match?_run_of_match
  obtain ⟨first, others, line, _⟩ := startsSolid_firstLine (startsSolid_trimLeft solid)
  have filled : (trimLeft text).takeWhile (· != '\n') ≠ [] := line ▸ List.cons_ne_nil first others
  exact (match?_lineValue _).trans (if_neg filled)

theorem exists_of_match?_spacedValue (matched : spacedValue.match? text = some groups) :
    ∃ value, groups = [value] ∧ value ⊆ text := by
  rw [spacedValue, Expression.match?_join] at matched
  obtain ⟨⟨taken, lead, rest⟩, member, found⟩ := List.exists_of_findSome?_eq_some matched
  obtain ⟨rfl, _, _, rfl⟩ := mem_takings.mp member
  rw [match?_lineValue] at found
  split at found
  · cases found
  · cases found
    exact ⟨_, rfl, fun _ here => List.mem_append_right _ (List.takeWhile_subset _ here)⟩

/-- Where there are only blanks, one of them is given back unless all are line feeds. -/
theorem match?_spacedValue_eq_none (blank : ∀ character ∈ text, isBlank character = true) :
    spacedValue.match? text = none ↔ ∀ character ∈ text, character = '\n' := by
  rw [spacedValue, Expression.match?_join, List.findSome?_eq_none_iff]
  constructor
  · intro unmatched character member
    by_contra other
    obtain ⟨lead, rest, rfl⟩ := List.append_of_mem member
    have before : ∀ character ∈ lead, isBlank character = true :=
      fun _ here => blank _ (List.mem_append_left _ here)
    have missed := unmatched ⟨lead, [], character :: rest⟩
      (mem_takings.mpr ⟨rfl, Nat.zero_le _, before, rfl⟩)
    rw [match?_lineValue, List.takeWhile_cons_of_pos (by simpa using other)] at missed
    cases missed
  · rintro feeds ⟨taken, groups, rest⟩ member
    obtain ⟨rfl, _⟩ := mem_takings.mp member
    have stops : rest.takeWhile (· != '\n') = [] := by
      cases rest with
      | nil => rfl
      | cons first rest =>
          rw [feeds first (by simp)]
          rfl
    rw [match?_lineValue, if_pos stops]
    rfl

theorem trim_of_blank (blank : ∀ character ∈ text, isBlank character = true) :
    trim text = [] := by
  rw [trim, trimLeft, List.dropWhile_eq_nil_iff.mpr blank]
  rfl

/-- The value of a note is what the expression of a note finds in it, without blanks
around. -/
theorem inlineColour?_eq_match? (note : List Char) :
    inlineColour? note = ((colourNote.match? note).bind List.head?).map trim := by
  have lead : colourNote.match? note = (afterProperty? note).bind spacedValue.match? := by
    apply Expression.match?_join_of_only
    · intro taken groups rest fits
      obtain ⟨_, _, _, _, _, plain⟩ := propertyLead_fits.mp fits
      exact plain
    · intro rest
      rw [exists_propertyLead_iff, afterProperty?_eq_some_iff, NamesProperty]
  rw [inlineColour?, lead]
  cases afterProperty? note with
  | none => rfl
  | some rest =>
      dsimp only [Option.bind_some]
      split
      · rename_i ended
        have blank : ∀ character ∈ rest, isBlank character = true :=
          List.dropWhile_eq_nil_iff.mp ended
        have feeds : spacedValue.match? rest = none ↔ rest.all (· == '\n') = true := by
          simpa using match?_spacedValue_eq_none blank
        cases matched : spacedValue.match? rest with
        | none => exact if_pos (feeds.mp matched)
        | some groups =>
            obtain ⟨value, rfl, among⟩ := exists_of_match?_spacedValue matched
            have empty := trim_of_blank fun character here => blank character (among here)
            rw [if_neg (feeds.not.mp (by simp [matched])), ← empty]
            rfl
      · rename_i solid
        rw [match?_spacedValue solid]
        rfl

example : colourNote.match? "Found: colour:\n \n".toList = some [" ".toList] := by decide +kernel

/-! ## The scan -/

/-- The first line of a text that is not blank, without blanks around. -/
def firstLine (text : List Char) : List Char :=
  trim ((trimLeft text).takeWhile (· != '\n'))

theorem firstLine_isInfix (text : List Char) : firstLine text <:+: text := by
  have line : (trimLeft text).takeWhile (· != '\n') <:+: text :=
    (List.takeWhile_prefix _).isInfix.trans (List.dropWhile_suffix isBlank).isInfix
  have trimmed : firstLine text <:+: (trimLeft text).takeWhile (· != '\n') :=
    (List.rdropWhile_prefix isBlank _).isInfix.trans (List.dropWhile_suffix isBlank).isInfix
  exact trimmed.trans line

theorem isTrimmed_firstLine (solid : trimLeft text ≠ []) : IsTrimmed (firstLine text) :=
  (isTrimmed_trim (startsSolid_firstLine (startsSolid_trimLeft solid))
    fun feed => by simpa using List.mem_takeWhile_imp feed).1

theorem trimLeft_ne_nil_iff :
    trimLeft text ≠ [] ↔ ∃ character ∈ text, isBlank character = false := by
  rw [trimLeft, Ne, List.dropWhile_eq_nil_iff]
  simp

theorem inlineColour?_of_names (names : NamesProperty note rest) :
    (trimLeft rest ≠ [] → inlineColour? note = some (firstLine rest)) ∧
      (trimLeft rest = [] → inlineColour? note = none ∨ inlineColour? note = some []) := by
  rw [inlineColour?, afterProperty?_eq_some_iff.mpr names]
  dsimp only
  constructor
  · intro solid
    split
    · contradiction
    · rfl
  · intro ended
    rw [ended]
    dsimp only
    split
    · exact Or.inl rfl
    · exact Or.inr rfl

/-- The value of a note that names a property is the first line behind the colon that
is not blank.  The expression of a note finds the same, and no value in any other
note. -/
theorem inlineColour?_scans (note : List Char) :
    inlineColour? note = ((colourNote.match? note).bind List.head?).map trim ∧
      (∀ rest, NamesProperty note rest → (∃ character ∈ rest, isBlank character = false) →
        inlineColour? note = some (firstLine rest) ∧ firstLine rest ≠ [] ∧
          '\n' ∉ firstLine rest ∧ firstLine rest <:+: note) ∧
      ((¬ ∃ rest, NamesProperty note rest ∧ ∃ character ∈ rest, isBlank character = false) →
        inlineColour? note = none ∨ inlineColour? note = some []) := by
  refine ⟨inlineColour?_eq_match? note, ?_, ?_⟩
  · intro rest names some
    have solid := trimLeft_ne_nil_iff.mpr some
    have trimmed := isTrimmed_firstLine solid
    obtain ⟨first, others, starts, _⟩ := trimmed.starts
    exact ⟨(inlineColour?_of_names names).1 solid, starts ▸ List.cons_ne_nil first others,
      trimmed.oneLine, (firstLine_isInfix rest).trans names.suffix.isInfix⟩
  · intro other
    cases property : afterProperty? note with
    | none =>
        rw [inlineColour?, property]
        exact Or.inl rfl
    | some rest =>
        have names : NamesProperty note rest := afterProperty?_eq_some_iff.mp property
        apply (inlineColour?_of_names names).2
        by_contra solid
        exact other ⟨rest, names, trimLeft_ne_nil_iff.mp solid⟩

theorem inlineColour?_scans_lines :
    inlineColour? "Found:\n caret-colour:\t\n #F00\u00A0\r\n more".toList = some "#F00".toList ∧
      (inlineColour? "Found: colour: \n".toList = none ∨
        inlineColour? "Found: colour: \n".toList = some []) := by
  constructor
  · obtain ⟨_, scanned, _⟩ :=
      inlineColour?_scans "Found:\n caret-colour:\t\n #F00\u00A0\r\n more".toList
    obtain ⟨found, _⟩ := scanned "\t\n #F00\u00A0\r\n more".toList
      ⟨"\n ".toList, "caret-colour".toList, List.all_eq_true.mp (by decide +kernel), by decide,
        List.all_eq_true.mp (by decide +kernel), by decide +kernel⟩
      ⟨'#', by decide, by decide⟩
    exact found
  · obtain ⟨_, _, other⟩ := inlineColour?_scans "Found: colour: \n".toList
    apply other
    rintro ⟨rest, names, solid⟩
    have blank : afterProperty? "Found: colour: \n".toList = some " \n".toList := by
      decide +kernel
    rw [afterProperty?_eq_some_iff.mpr names] at blank
    cases blank
    exact trimLeft_ne_nil_iff.mpr solid (by decide)

end Restyle.Suggestion
