import Restyle.Proofs.Text.Trimming
import Restyle.Suggestion.Colours

/-!
# Notes that give a colour

`GivesColour` is the form of such a note, put together from its parts.  The value
that is found in a note is the colour that the note gives, when it is not empty.
-/

namespace Restyle.Suggestion

open Text

variable {note colour text : List Char} {character : Char}

/-- Whether a text starts and ends with characters that are no blanks, on one line. -/
structure IsTrimmed (text : List Char) : Prop where
  starts : StartsSolid text
  ends : ∃ rest last, text = rest ++ [last] ∧ isBlank last = false
  oneLine : '\n' ∉ text

/-- A note that gives a colour: `Found:`, the name of a property with a colon, and
the colour, with nothing else on its line.  Blanks may stand around the name and the
colour. -/
inductive GivesColour : List Char → List Char → Prop where
  | found {gap name before colour behind after : List Char}
      (gapBlank : ∀ character ∈ gap, isBlank character = true)
      (named : name ≠ []) (word : ∀ character ∈ name, isWordOrDash character = true)
      (beforeBlank : ∀ character ∈ before, isBlank character = true)
      (trimmed : IsTrimmed colour)
      (behindBlank : ∀ character ∈ behind, isBlank character = true) (oneLine : '\n' ∉ behind)
      (ends : after = [] ∨ after.head? = some '\n') :
      GivesColour ("Found:".toList ++ (gap ++ (name ++ ':' ::
        (before ++ (colour ++ (behind ++ after)))))) colour

theorem GivesColour.filled (gives : GivesColour note colour) : colour ≠ [] := by
  obtain @⟨_, _, _, _, _, _, _, _, _, _, trimmed, _, _, _⟩ := gives
  obtain ⟨first, rest, rfl, _⟩ := trimmed.starts
  exact List.cons_ne_nil first rest

theorem isBlank_of_isWordOrDash (word : isWordOrDash character = true) :
    isBlank character = false := by
  have ascii : ∀ code < 0x80, (Char.ofNat code).isAlphanum = true →
      inRanges code blankRanges = false := by decide +kernel
  have beyond : ∀ range ∈ letterOrNumberRanges, ∀ blank ∈ blankRanges,
      range.2 < blank.1 ∨ blank.2 < range.1 := by decide +kernel
  simp only [isWordOrDash, isWord, Bool.or_eq_true, beq_iff_eq] at word
  rcases word with rfl | rfl | letter
  · decide
  · decide
  · unfold isLetterOrNumber at letter
    split at letter
    · rename_i small
      exact ascii character.toNat small (by rwa [Char.ofNat_toNat])
    · obtain ⟨range, member, least, most⟩ := exists_range_of_inRanges letter
      apply inRanges_eq_false
      intro blank among
      have apart := beyond range member blank among
      omega

theorem takeWhile_line {line after : List Char} (oneLine : '\n' ∉ line)
    (ends : after = [] ∨ after.head? = some '\n') :
    (line ++ after).takeWhile (· != '\n') = line := by
  have kept : ∀ character ∈ line, (character != '\n') = true := by
    intro character member
    rw [bne_iff_ne]
    rintro rfl
    exact oneLine member
  rw [List.takeWhile_append_of_pos kept]
  rcases ends with rfl | feed
  · simp
  · obtain ⟨rest, rfl⟩ := List.head?_eq_some_iff.mp feed
    simp

theorem dropWhile_line (text : List Char) :
    text.dropWhile (· != '\n') = [] ∨ (text.dropWhile (· != '\n')).head? = some '\n' := by
  have stops := List.head?_dropWhile_not (· != '\n') text
  cases later : (text.dropWhile (· != '\n')).head? with
  | none => exact Or.inl (List.head?_eq_none_iff.mp later)
  | some feed =>
      rw [later] at stops
      exact Or.inr (congrArg some (by simpa using stops))

theorem startsSolid_firstLine (starts : StartsSolid text) :
    StartsSolid (text.takeWhile (· != '\n')) := by
  obtain ⟨first, rest, rfl, solid⟩ := starts
  refine ⟨first, rest.takeWhile (· != '\n'), List.takeWhile_cons_of_pos ?_, solid⟩
  rw [bne_iff_ne]
  rintro rfl
  cases solid

theorem IsTrimmed.trim_append {behind : List Char} (trimmed : IsTrimmed colour)
    (blank : ∀ character ∈ behind, isBlank character = true) :
    trim (colour ++ behind) = colour := by
  obtain ⟨lead, last, ended, solid⟩ := trimmed.ends
  have none : trimRight behind = [] := List.rdropWhile_eq_nil_iff.mpr blank
  rw [trim, (trimmed.starts.append behind).trimLeft_eq, ended, List.append_assoc,
    List.singleton_append, trimRight_append_cons solid, none]

/-- Behind `Found:`, blanks and a name with its colon stands the value. -/
theorem afterProperty?_eq_some_iff :
    afterProperty? note = some text ↔
      ∃ gap name, (∀ character ∈ gap, isBlank character = true) ∧ name ≠ [] ∧
        (∀ character ∈ name, isWordOrDash character = true) ∧
          note = "Found:".toList ++ (gap ++ (name ++ ':' :: text)) := by
  have colon : isWordOrDash ':' = false := by decide
  constructor
  · intro found
    unfold afterProperty? at found
    split at found
    · cases found
    · rename_i rest lead
      dsimp only at found
      split at found
      · cases found
      · rename_i named
        split at found
        · rename_i value behind
          cases found
          refine ⟨rest.takeWhile isBlank, (trimLeft rest).takeWhile isWordOrDash,
            List.all_eq_true.mp List.all_takeWhile, by simpa using named,
            List.all_eq_true.mp List.all_takeWhile, ?_⟩
          rw [← behind, List.takeWhile_append_dropWhile, trimLeft,
            List.takeWhile_append_dropWhile]
          exact dropLead?_eq_some.mp lead
        · cases found
  · rintro ⟨gap, name, gapBlank, named, word, rfl⟩
    have starts : StartsSolid name := by
      obtain ⟨first, others, rfl⟩ := List.exists_cons_of_ne_nil named
      exact ⟨first, others, rfl, isBlank_of_isWordOrDash (word first List.mem_cons_self)⟩
    have whole : (name ++ ':' :: text).takeWhile isWordOrDash = name := by
      rw [List.takeWhile_append_of_pos word, List.takeWhile_cons_of_neg (by simp [colon]),
        List.append_nil]
    have behind : (name ++ ':' :: text).dropWhile isWordOrDash = ':' :: text := by
      rw [List.dropWhile_append_of_pos word, List.dropWhile_cons_of_neg (by simp [colon])]
    rw [afterProperty?, dropLead?_eq_some.mpr rfl]
    dsimp only
    rw [(starts.append _).trimLeft_append gapBlank, whole, behind, if_neg (by simpa using named)]
    rfl

theorem isTrimmed_trim {line : List Char} (starts : StartsSolid line) (oneLine : '\n' ∉ line) :
    IsTrimmed (trim line) ∧
      ∃ behind, (∀ character ∈ behind, isBlank character = true) ∧ trim line ++ behind = line := by
  have trimmed : trim line = line.rdropWhile isBlank := by
    rw [trim, starts.trimLeft_eq, trimRight_eq_rdropWhile]
  obtain ⟨first, rest, spelled, solid⟩ := starts
  have begins : trim line = first :: trimRight rest := by
    rw [trimmed, spelled]
    exact trimRight_append_cons solid [] rest
  have filled : line.rdropWhile isBlank ≠ [] := by
    rw [← trimmed, begins]
    exact List.cons_ne_nil _ _
  refine ⟨⟨⟨first, _, begins, solid⟩, ?_, fun member => oneLine (mem_of_mem_trim member)⟩,
    line.rtakeWhile isBlank, fun _ => List.mem_rtakeWhile_imp, ?_⟩
  · refine ⟨(line.rdropWhile isBlank).dropLast, _, ?_,
      Bool.eq_false_iff.mpr (List.rdropWhile_last_not isBlank line filled)⟩
    rw [trimmed, List.dropLast_append_getLast]
  · rw [trimmed, List.rdropWhile_append_rtakeWhile]

/-- The value that is found in a note is the colour that it gives. -/
theorem inlineColour?_eq_some_iff (filled : colour ≠ []) :
    inlineColour? note = some colour ↔ GivesColour note colour := by
  constructor
  · intro found
    unfold inlineColour? at found
    split at found
    · cases found
    · rename_i rest property
      obtain ⟨gap, name, gapBlank, named, word, rfl⟩ := afterProperty?_eq_some_iff.mp property
      split at found
      · split at found
        · cases found
        · cases found
          exact absurd rfl filled
      · rename_i some
        cases found
        have starts := startsSolid_trimLeft some
        have oneLine : '\n' ∉ (trimLeft rest).takeWhile (· != '\n') :=
          fun member => by simpa using List.mem_takeWhile_imp member
        obtain ⟨trimmed, behind, behindBlank, parts⟩ :=
          isTrimmed_trim (startsSolid_firstLine starts) oneLine
        have whole : rest = rest.takeWhile isBlank ++
            (trim ((trimLeft rest).takeWhile (· != '\n')) ++
              (behind ++ (trimLeft rest).dropWhile (· != '\n'))) := by
          rw [← List.append_assoc _ behind, parts, List.takeWhile_append_dropWhile, trimLeft,
            List.takeWhile_append_dropWhile]
        have before : ∀ character ∈ rest.takeWhile isBlank, isBlank character = true :=
          List.all_eq_true.mp List.all_takeWhile
        have given := GivesColour.found gapBlank named word before trimmed behindBlank
          (fun member => oneLine (parts ▸ List.mem_append_right _ member))
          (dropWhile_line (trimLeft rest))
        rw [← whole] at given
        exact given
  · rintro @⟨gap, name, before, colour, behind, after, gapBlank, named, word, beforeBlank,
      trimmed, behindBlank, oneLine, ends⟩
    have starts : StartsSolid (colour ++ (behind ++ after)) := trimmed.starts.append _
    have alone : '\n' ∉ colour ++ behind := by simp [trimmed.oneLine, oneLine]
    have line := takeWhile_line alone ends
    rw [List.append_assoc] at line
    unfold inlineColour?
    rw [afterProperty?_eq_some_iff.mpr ⟨gap, name, gapBlank, named, word, rfl⟩]
    dsimp only
    rw [starts.trimLeft_append beforeBlank]
    obtain ⟨first, others, spelled, _⟩ := starts
    rw [spelled] at line ⊢
    show some (trim ((first :: others).takeWhile (· != '\n'))) = some colour
    rw [line, trimmed.trim_append behindBlank]

end Restyle.Suggestion
