import Restyle.Promotion
import Restyle.Proofs.Migration.Stylesheet
import Restyle.Proofs.Text.Trimming

/-!
# Sections of the stylesheet

Runs and promotions add sections to the end of the stylesheet.  Either trims the
text before it adds to it, and as every section ends in a closing brace, trimming
takes nothing but the line feed after the last one.
-/

namespace Restyle

open Text

/-- What is added to the stylesheet at once. -/
inductive Section where
  | tokens (declarations : List String)
  | utilities (blocks : List String)
  | promoted (name block : String)
  deriving DecidableEq

namespace Section

/-- The text of a section without the line feed at its end. -/
def text : Section → String
  | .tokens declarations =>
      "\n/* north migrate: tokens */\n@theme \x7b\n  " ++ "\n  ".intercalate declarations ++
        "\n\x7d"
  | .utilities blocks =>
      "\n/* north migrate: utilities */\n" ++ "\n\n".intercalate blocks
  | .promoted name block => "\n\n/* north promote: " ++ name ++ " */\n" ++ block

theorem text_tokens (declarations : List String) :
    (tokens declarations).text = "\n/* north migrate: tokens */\n@theme \x7b\n  " ++
      "\n  ".intercalate declarations ++ "\n\x7d" := by
  unfold text
  rfl

theorem text_utilities (blocks : List String) :
    (utilities blocks).text =
      "\n/* north migrate: utilities */\n" ++ "\n\n".intercalate blocks := by
  unfold text
  rfl

theorem text_promoted (name block : String) :
    (promoted name block).text = "\n\n/* north promote: " ++ name ++ " */\n" ++ block := by
  unfold text
  rfl

/-- Whether the text of a section ends in a closing brace. -/
def IsClosed (piece : Section) : Prop := ['\x7d'] <:+ piece.text.toList

end Section

/-- A stylesheet with sections at its end, if there are any. -/
def grown (start : String) (sections : List Section) : String :=
  if sections.isEmpty then start
  else Migration.trimEnd start ++ String.join (sections.map Section.text) ++ "\n"

/-- The sections of a run that declares tokens and utilities. -/
def sectionsOf (tokens utilities : List String) : List Section :=
  (if tokens.isEmpty then [] else [.tokens tokens]) ++
    (if utilities.isEmpty then [] else [.utilities utilities])

variable {start name pattern : String} {first second sections : List Section} {piece : Section}
  {tokens utilities : List String}

/-! ## Closed sections -/

theorem closed_tokens (declarations : List String) : (Section.tokens declarations).IsClosed := by
  have ending : "\n\x7d".toList = ['\n', '\x7d'] := rfl
  rw [Section.IsClosed, Section.text_tokens, String.toList_append, ending]
  exact List.suffix_append_of_suffix ⟨['\n'], rfl⟩

theorem closed_utilityBlock (name pattern : String) :
    ['\x7d'] <:+ (utilityBlock name pattern).toList := by
  have ending : ";\n\x7d".toList = [';', '\n', '\x7d'] := rfl
  rw [utilityBlock, String.toList_append, ending]
  exact List.suffix_append_of_suffix ⟨[';', '\n'], rfl⟩

theorem closed_promoted (label name pattern : String) :
    (Section.promoted label (utilityBlock name pattern)).IsClosed := by
  rw [Section.IsClosed, Section.text_promoted, String.toList_append]
  exact List.suffix_append_of_suffix (closed_utilityBlock name pattern)

theorem suffix_intercalate {ending between : List Char} {texts : List (List Char)}
    (some : texts ≠ []) (each : ∀ text ∈ texts, ending <:+ text) :
    ending <:+ between.intercalate texts := by
  induction texts with
  | nil => exact absurd rfl some
  | cons first texts induction =>
      obtain ⟨here, later⟩ := List.forall_mem_cons.mp each
      cases texts with
      | nil => simpa using here
      | cons second texts =>
          rw [List.intercalate_cons_cons]
          exact List.suffix_append_of_suffix (induction (List.cons_ne_nil _ _) later)

theorem closed_utilities {blocks : List String} (some : blocks ≠ [])
    (each : ∀ block ∈ blocks, ['\x7d'] <:+ block.toList) : (Section.utilities blocks).IsClosed := by
  rw [Section.IsClosed, Section.text_utilities, String.toList_append, String.toList_intercalate]
  apply List.suffix_append_of_suffix
  apply suffix_intercalate (by simpa using some)
  simpa using each

theorem closed_sectionsOf (each : ∀ block ∈ utilities, ['\x7d'] <:+ block.toList) :
    ∀ piece ∈ sectionsOf tokens utilities, piece.IsClosed := by
  unfold sectionsOf
  intro piece member
  rcases List.mem_append.mp member with early | late
  · split at early
    · cases early
    · rw [List.mem_singleton.mp early]
      exact closed_tokens tokens
  · split at late
    · cases late
    · rename_i some
      rw [List.mem_singleton.mp late]
      exact closed_utilities (by simpa using some) each

/-! ## Growing -/

theorem trimEnd_toList (text : String) : (Migration.trimEnd text).toList = trimRight text.toList :=
  String.toList_ofList

theorem grown_nil (start : String) : grown start [] = start := rfl

theorem grown_toList (some : sections ≠ []) :
    (grown start sections).toList =
      trimRight start.toList ++ sections.flatMap (·.text.toList) ++ ['\n'] := by
  rw [grown, if_neg (by simpa using some)]
  simp only [String.toList_append, trimEnd_toList, String.toList_join, List.flatMap_map]
  rfl

theorem closed_flatMap (some : sections ≠ []) (closed : ∀ piece ∈ sections, piece.IsClosed) :
    ['\x7d'] <:+ sections.flatMap (·.text.toList) := by
  induction sections with
  | nil => exact absurd rfl some
  | cons piece sections induction =>
      obtain ⟨here, later⟩ := List.forall_mem_cons.mp closed
      rw [List.flatMap_cons]
      by_cases last : sections = []
      · rw [last, List.flatMap_nil, List.append_nil]
        exact here
      · exact List.suffix_append_of_suffix (induction last later)

theorem trimRight_grown (some : sections ≠ []) (closed : ∀ piece ∈ sections, piece.IsClosed) :
    trimRight (grown start sections).toList =
      trimRight start.toList ++ sections.flatMap (·.text.toList) := by
  obtain ⟨lead, ends⟩ := closed_flatMap some closed
  rw [grown_toList some, ← ends, ← List.append_assoc, List.append_assoc _ ['\x7d']]
  exact trimRight_append_cons (by decide) _ ['\n']

/-- What is added later stands behind what was added before. -/
theorem grown_grown (closed : ∀ piece ∈ first, piece.IsClosed) :
    grown (grown start first) second = grown start (first ++ second) := by
  by_cases noneLater : second = []
  · rw [noneLater, List.append_nil, grown_nil]
  by_cases noneBefore : first = []
  · rw [noneBefore, List.nil_append, grown_nil]
  apply String.toList_inj.mp
  rw [grown_toList noneLater, trimRight_grown noneBefore closed,
    grown_toList (List.append_ne_nil_of_left_ne_nil noneBefore _), List.flatMap_append]
  simp only [List.append_assoc]

/-! ## What runs and promotions write -/

theorem grown_one (start : String) (piece : Section) :
    grown start [piece] = Migration.trimEnd start ++ piece.text ++ "\n" := by
  rw [grown, if_neg (by simp), List.map_singleton, String.join_cons, String.join_nil,
    String.append_empty]

theorem withTokens_eq_grown (old : String) (tokens : List String) :
    Migration.withTokens old tokens = grown old (sectionsOf tokens []) := by
  unfold Migration.withTokens sectionsOf
  split
  · rfl
  · rw [List.isEmpty_nil, if_pos rfl, List.append_nil, grown_one, Section.text_tokens]
    simp only [String.append_assoc]
    rfl

theorem withUtilities_eq_grown (old : String) (utilities : List String) :
    Migration.withUtilities old utilities = grown old (sectionsOf [] utilities) := by
  unfold Migration.withUtilities sectionsOf
  split
  · rfl
  · rw [List.isEmpty_nil, if_pos rfl, List.nil_append, grown_one, Section.text_utilities]
    simp only [String.append_assoc]

theorem sectionsOf_append (tokens utilities : List String) :
    sectionsOf tokens [] ++ sectionsOf [] utilities = sectionsOf tokens utilities := by
  simp [sectionsOf]

/-- A run adds a section of its tokens and one of its utilities, each if there are
any. -/
theorem restyled_eq_grown (old : String) (tokens utilities : List String) :
    Migration.restyled old tokens utilities = grown old (sectionsOf tokens utilities) := by
  rw [Migration.restyled, withUtilities_eq_grown, withTokens_eq_grown,
    grown_grown (closed_sectionsOf (by simp)), sectionsOf_append]

theorem grown_sectionsOf (old : String) (tokens utilities : List String) :
    grown old (sectionsOf tokens utilities) =
      if tokens = [] ∧ utilities = [] then old
      else Migration.trimEnd old ++ (if tokens = [] then "" else (Section.tokens tokens).text) ++
        (if utilities = [] then "" else (Section.utilities utilities).text) ++ "\n" := by
  rw [grown]
  cases tokens <;> cases utilities <;>
    simp [sectionsOf, String.append_assoc, String.join_cons, String.join_nil]

theorem appended_eq_grown (old name block : String) :
    Promotion.appended old name block = grown old [.promoted name block] := by
  rw [grown_one, Section.text_promoted, Promotion.appended]
  simp only [Migration.trimEnd, String.append_assoc]

end Restyle
