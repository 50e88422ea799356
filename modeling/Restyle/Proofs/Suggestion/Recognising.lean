import Restyle.Proofs.Computation
import Restyle.Proofs.Suggestion.Lengths
import Restyle.Proofs.Text.Expressions

/-!
# Classes that are recognised

A palette class, a numeric spacing and an arbitrary class are spelled from their parts.
Each is recognised in just the classes that are spelled so, with one final line feed or
without, and has the same parts as the expression of its kind finds.  The parts of a
class are known from its spelling.
-/

namespace Restyle.Suggestion

open Text

variable {className text taken rest property number value : List Char}
  {groups : List (List Char)} {test : Char → Bool}

/-! ## Spellings -/

/-- Whether a class is spelled as a text, with one final line feed or without. -/
def IsSpelled (className text : List Char) : Prop :=
  className = text ∨ className = text ++ ['\n']

theorem isSpelled_iff :
    IsSpelled className text ↔ ∃ rest, className = text ++ rest ∧ (rest = [] ∨ rest = ['\n']) := by
  constructor
  · rintro (rfl | rfl)
    · exact ⟨[], (List.append_nil _).symm, Or.inl rfl⟩
    · exact ⟨['\n'], rfl, Or.inr rfl⟩
  · rintro ⟨_, rfl, rfl | rfl⟩
    · exact Or.inl (List.append_nil _)
    · exact Or.inr rfl

theorem dropFinalFeed_eq_iff (solid : text.getLast? ≠ some '\n') :
    dropFinalFeed className = text ↔ IsSpelled className text := by
  rw [dropFinalFeed, IsSpelled]
  split
  · rename_i last
    obtain ⟨start, rfl⟩ := List.getLast?_eq_some_iff.mp last
    rw [List.dropLast_concat, List.append_left_inj]
    refine ⟨Or.inr, fun spelled => spelled.resolve_left ?_⟩
    rintro rfl
    exact solid last
  · rename_i other
    refine ⟨Or.inl, fun spelled => spelled.resolve_right ?_⟩
    rintro rfl
    exact other List.getLast?_concat

theorem allDecimal_iff : allDecimal text = true ↔ IsRunOf isDecimal text := by
  rw [allDecimal, Bool.and_eq_true, List.all_eq_true]
  constructor
  · rintro ⟨filled, passes⟩
    exact ⟨by simpa using filled, passes⟩
  · intro run
    exact ⟨by simpa using run.filled, run.passes⟩

theorem ofList_mem_iff {words : List String} :
    String.ofList text ∈ words ↔ text ∈ words.map String.toList := by
  rw [List.mem_map]
  constructor
  · intro member
    exact ⟨_, member, String.toList_ofList⟩
  · rintro ⟨word, member, rfl⟩
    rwa [String.ofList_toList]

/-! ## Palette classes -/

/-- The opacity at the end of a palette class. -/
def opacitySuffix : Option (List Char) → List Char
  | some opacity => '/' :: opacity
  | none => []

/-- Whether the parts of a palette class are of the kinds that they have to be of. -/
structure PaletteClass.IsProper (palette : PaletteClass) : Prop where
  part : palette.part ∈ colouredParts.map String.toList
  colour : IsRunOf isWord palette.colour
  shade : IsRunOf isDecimal palette.shade
  opacity : ∀ opacity ∈ palette.opacity, IsRunOf isDecimal opacity

namespace PaletteClass

variable {palette : PaletteClass}

theorem written_eq (palette : PaletteClass) :
    palette.written = palette.part ++ '-' :: (palette.colour ++ '-' ::
      (palette.shade ++ opacitySuffix palette.opacity)) := by
  unfold written opacitySuffix
  cases palette.opacity <;> simp

theorem IsProper.solid (proper : palette.IsProper) : palette.written.getLast? ≠ some '\n' := by
  have feed : isDecimal '\n' = false := by decide
  obtain ⟨part, colour, shade, opacity⟩ := palette
  cases opacity with
  | none =>
      have ends := proper.shade.getLast?_ne feed (part ++ '-' :: (colour ++ ['-']))
      simpa [written] using ends
  | some opacity =>
      have ends := (proper.opacity opacity rfl).getLast?_ne feed
        (part ++ '-' :: (colour ++ '-' :: (shade ++ ['/'])))
      simpa [written] using ends

end PaletteClass

theorem isRunOf_part {part : List Char} (listed : part ∈ colouredParts.map String.toList) :
    IsRunOf (· != '-') part := by
  have plain : ∀ part ∈ colouredParts, part.toList ≠ [] ∧
      (part.toList.all (· != '-')) = true := by decide
  obtain ⟨name, among, rfl⟩ := List.mem_map.mp listed
  exact ⟨(plain name among).1, List.all_eq_true.mp (plain name among).2⟩

theorem readShade?_eq_some_iff {palette : PaletteClass} {part colour : List Char} :
    readShade? part colour text = some palette ↔
      (palette.part = part ∧ palette.colour = colour) ∧ IsRunOf isDecimal palette.shade ∧
        (∀ opacity ∈ palette.opacity, IsRunOf isDecimal opacity) ∧
          text = palette.shade ++ opacitySuffix palette.opacity := by
  constructor
  · intro read
    unfold readShade? at read
    dsimp only at read
    split at read
    case isTrue => cases read
    rename_i filled
    have shade := IsRunOf.of_takeWhile (by simpa using filled)
    have whole := (List.takeWhile_append_dropWhile (p := isDecimal) (l := text)).symm
    split at read
    · rename_i behind
      cases read
      rw [behind] at whole
      exact ⟨⟨rfl, rfl⟩, shade, by simp, whole⟩
    · rename_i opacity behind
      split at read
      case isFalse => cases read
      rename_i decimal
      cases read
      rw [behind] at whole
      refine ⟨⟨rfl, rfl⟩, shade, ?_, whole⟩
      rintro _ ⟨⟩
      exact allDecimal_iff.mp decimal
    · cases read
  · obtain ⟨_, _, shade, opacity⟩ := palette
    rintro ⟨⟨rfl, rfl⟩, run, decimal, rfl⟩
    have stops : ∀ character ∈ (opacitySuffix opacity).head?, isDecimal character = false := by
      cases opacity with
      | none => simp [opacitySuffix]
      | some opacity =>
          rintro _ ⟨⟩
          decide
    obtain ⟨taken, left⟩ := run.span _ stops
    unfold readShade?
    dsimp only at taken left ⊢
    rw [taken, left, if_neg (by simpa using run.filled)]
    cases opacity with
    | none => rfl
    | some opacity => exact if_pos (allDecimal_iff.mpr (decimal opacity rfl))

theorem readPalette?_eq_some_iff {palette : PaletteClass} :
    readPalette? className = some palette ↔
      palette.IsProper ∧ IsSpelled className palette.written := by
  have dash : isWord '-' = false := by decide
  constructor
  · intro read
    unfold readPalette? at read
    dsimp only at read
    split at read
    case isFalse => cases read
    rename_i listed
    split at read
    case h_2 => cases read
    rename_i afterPart behindPart
    split at read
    case isTrue => cases read
    rename_i filled
    split at read
    case h_2 => cases read
    rename_i afterColour behindColour
    obtain ⟨⟨part, colour⟩, shade, opacity, spelled⟩ := readShade?_eq_some_iff.mp read
    have proper : palette.IsProper := by
      refine ⟨?_, ?_, shade, opacity⟩
      · rw [part]
        exact ofList_mem_iff.mp (List.contains_iff_mem.mp listed)
      · rw [colour]
        exact IsRunOf.of_takeWhile (by simpa using filled)
    refine ⟨proper, (dropFinalFeed_eq_iff proper.solid).mp ?_⟩
    rw [palette.written_eq, part, colour, ← spelled, ← behindColour,
      List.takeWhile_append_dropWhile, ← behindPart, List.takeWhile_append_dropWhile]
  · rintro ⟨proper, spelled⟩
    have text := (dropFinalFeed_eq_iff proper.solid).mpr spelled
    rw [palette.written_eq] at text
    obtain ⟨takenPart, leftPart⟩ := (isRunOf_part proper.part).span
      ('-' :: (palette.colour ++ '-' :: (palette.shade ++ opacitySuffix palette.opacity)))
      (by simp)
    obtain ⟨takenColour, leftColour⟩ := proper.colour.span
      ('-' :: (palette.shade ++ opacitySuffix palette.opacity)) (by simp [dash])
    have listed := List.contains_iff_mem.mpr (ofList_mem_iff.mpr proper.part)
    unfold readPalette?
    rw [text]
    dsimp only
    rw [takenPart, leftPart, if_pos listed]
    refine (if_neg ?_).trans ?_
    · rw [takenColour]
      simpa using proper.colour.filled
    · rw [takenColour, leftColour]
      exact readShade?_eq_some_iff.mpr ⟨⟨rfl, rfl⟩, proper.shade, proper.opacity, rfl⟩

/-- The parts of a palette class are known from its spelling. -/
theorem PaletteClass.IsProper.unique {palette other : PaletteClass} (proper : palette.IsProper)
    (spelled : IsSpelled className palette.written) (otherProper : other.IsProper)
    (otherSpelled : IsSpelled className other.written) : palette = other :=
  Option.some.inj ((readPalette?_eq_some_iff.mpr ⟨proper, spelled⟩).symm.trans
    (readPalette?_eq_some_iff.mpr ⟨otherProper, otherSpelled⟩))

/-- The opacity of a palette class. -/
def opacityExpression : Expression :=
  .either (.join (.literal ['/']) (.field isDecimal)) (.literal [])

def paletteExpression : Expression :=
  .join (.group (.anyOf (colouredParts.map String.toList))) (.join (.literal ['-'])
    (.join (.field isWord) (.join (.literal ['-'])
      (.join (.field isDecimal) (.join opacityExpression .ending)))))

/-- The parts of a palette class in their order. -/
def PaletteClass.parts (palette : PaletteClass) : List (List Char) :=
  palette.part :: palette.colour :: palette.shade :: palette.opacity.toList

theorem opacityExpression_fits :
    opacityExpression.Fits taken groups rest ↔
      ∃ opacity : Option (List Char), (∀ digits ∈ opacity, IsRunOf isDecimal digits) ∧
        taken = opacitySuffix opacity ∧ groups = opacity.toList := by
  rw [opacityExpression, Expression.Fits, Expression.join_literal_fits, Expression.literal_fits]
  constructor
  · rintro (⟨digits, rfl, fits⟩ | ⟨rfl, rfl⟩)
    · obtain ⟨run, rfl⟩ := Expression.field_fits.mp fits
      refine ⟨some digits, ?_, rfl, rfl⟩
      rintro _ ⟨⟩
      exact run
    · exact ⟨none, by simp, rfl, rfl⟩
  · rintro ⟨_ | digits, run, rfl, rfl⟩
    · exact Or.inr ⟨rfl, rfl⟩
    · exact Or.inl ⟨digits, rfl, Expression.field_fits.mpr ⟨run digits rfl, rfl⟩⟩

theorem paletteExpression_fits :
    paletteExpression.Fits taken groups rest ↔
      (∃ palette : PaletteClass, palette.IsProper ∧ taken = palette.written ∧
        groups = palette.parts) ∧ (rest = [] ∨ rest = ['\n']) := by
  simp only [paletteExpression, Expression.join_choice_fits, Expression.join_literal_fits,
    Expression.join_field_fits, Expression.join_ending_fits, opacityExpression_fits]
  constructor
  · intro fits
    obtain ⟨part, _, _, rfl, rfl, listed, _, rfl, colour, _, _, rfl, rfl, colourRun, _, rfl,
      shade, _, _, rfl, rfl, shadeRun, ⟨opacity, opacityRun, rfl, rfl⟩, ends⟩ := fits
    exact ⟨⟨⟨part, colour, shade, opacity⟩, ⟨listed, colourRun, shadeRun, opacityRun⟩,
      (PaletteClass.written_eq ⟨part, colour, shade, opacity⟩).symm, rfl⟩, ends⟩
  · intro parts
    obtain ⟨⟨palette, proper, rfl, rfl⟩, ends⟩ := parts
    exact ⟨palette.part, _, _, palette.written_eq, rfl, proper.part, _, rfl,
      palette.colour, _, _, rfl, rfl, proper.colour, _, rfl,
      palette.shade, _, _, rfl, rfl, proper.shade, ⟨palette.opacity, proper.opacity, rfl, rfl⟩,
      ends⟩

theorem readPalette?_eq_match? (className : List Char) :
    paletteExpression.match? className = (readPalette? className).map PaletteClass.parts := by
  apply Expression.match?_eq_map
  intro groups
  simp only [paletteExpression_fits, readPalette?_eq_some_iff, isSpelled_iff]
  constructor
  · rintro ⟨_, rest, rfl, ⟨palette, proper, rfl, rfl⟩, ends⟩
    exact ⟨palette, ⟨proper, rest, rfl, ends⟩, rfl⟩
  · rintro ⟨palette, ⟨proper, rest, rfl, ends⟩, rfl⟩
    exact ⟨_, rest, rfl, ⟨palette, proper, rfl, rfl⟩, ends⟩

/-- A palette class refers to the semantic name of its hue. -/
theorem semanticToken_of_proper {palette : PaletteClass} (proper : palette.IsProper)
    (spelled : IsSpelled className palette.written) :
    semanticToken className = palette.part ++ "-(--".toList ++
      semanticName (palette.colour ++ '-' :: palette.shade) ++
        ')' :: opacitySuffix palette.opacity := by
  rw [semanticToken, readPalette?_eq_some_iff.mpr ⟨proper, spelled⟩]
  rfl

theorem semanticToken_variable_iff :
    "var(--".toList <+: semanticToken className ↔
      ¬ ∃ palette : PaletteClass, palette.IsProper ∧ IsSpelled className palette.written := by
  have other : ∀ part ∈ colouredParts, part.toList ≠ [] ∧ part.toList.head? ≠ some 'v' := by decide
  constructor
  · rintro ⟨rest, starts⟩ ⟨palette, proper, spelled⟩
    rw [semanticToken_of_proper proper spelled] at starts
    obtain ⟨part, listed, same⟩ := List.mem_map.mp proper.part
    obtain ⟨filled, apart⟩ := other part listed
    have first := congrArg List.head? starts
    rw [← same, List.append_assoc, List.append_assoc, List.head?_append_of_ne_nil _ filled] at first
    exact apart first.symm
  · intro missing
    rw [semanticToken]
    cases read : readPalette? className with
    | none => exact ⟨variableName className ++ [')'], by simp⟩
    | some palette => exact absurd ⟨palette, readPalette?_eq_some_iff.mp read⟩ missing

/-! ## Numeric spacings -/

/-- Whether a class is the spacing of a property with a number. -/
structure IsSpacing (property number className : List Char) : Prop where
  listed : property ∈ spacingProperties.map String.toList
  decimal : IsRunOf isDecimal number
  spelled : IsSpelled className (property ++ '-' :: number)

/-- A text is cut at its last dash in one way. -/
theorem eq_of_last_dash {other digits : List Char} (plain : '-' ∉ number) (also : '-' ∉ digits)
    (same : property ++ '-' :: number = other ++ '-' :: digits) :
    property = other ∧ number = digits := by
  -- Of two cuts at a dash the first leaves the dash of the other in what is behind it.
  have equal : ∀ {between number digits : List Char}, '-' ∉ number →
      '-' :: number = between ++ '-' :: digits → between = [] ∧ number = digits := by
    intro between number digits plain cut
    cases between with
    | nil => exact ⟨rfl, (List.cons.inj cut).2⟩
    | cons first between =>
        obtain ⟨_, rfl⟩ := List.cons.inj cut
        exact absurd (List.mem_append_right _ List.mem_cons_self) plain
  rcases List.append_eq_append_iff.mp same with ⟨between, rfl, cut⟩ | ⟨between, rfl, cut⟩
  · obtain ⟨rfl, rfl⟩ := equal plain cut
    exact ⟨(List.append_nil _).symm, rfl⟩
  · obtain ⟨rfl, rfl⟩ := equal also cut
    exact ⟨List.append_nil _, rfl⟩

theorem numberAfter?_eq_some_iff :
    numberAfter? property text = some number ↔
      IsRunOf isDecimal number ∧ text = property ++ '-' :: number := by
  have spelled : ∀ rest, dropLead? (property ++ ['-']) text = some rest ↔
      text = property ++ '-' :: rest := by
    intro rest
    rw [dropLead?_eq_some, List.append_assoc, List.singleton_append]
  rw [numberAfter?]
  cases lead : dropLead? (property ++ ['-']) text with
  | none =>
      constructor
      · intro read
        cases read
      · intro parts
        rw [(spelled number).mpr parts.2] at lead
        cases lead
  | some rest =>
      obtain rfl := (spelled rest).mp lead
      dsimp only
      rw [List.append_cancel_left_eq, List.cons_inj_right, ← allDecimal_iff]
      split
      · rename_i decimal
        rw [Option.some_inj]
        constructor
        · rintro rfl
          exact ⟨decimal, rfl⟩
        · exact And.right
      · rename_i other
        constructor
        · intro read
          cases read
        · rintro ⟨decimal, rfl⟩
          exact absurd decimal other

theorem spacing_text_iff (decimal : IsRunOf isDecimal number) :
    dropFinalFeed className = property ++ '-' :: number ↔
      IsSpelled className (property ++ '-' :: number) := by
  have feed : isDecimal '\n' = false := by decide
  apply dropFinalFeed_eq_iff
  simpa using decimal.getLast?_ne feed (property ++ ['-'])

theorem IsSpacing.unique {other digits : List Char} (spacing : IsSpacing property number className)
    (also : IsSpacing other digits className) : property = other ∧ number = digits := by
  have dash : isDecimal '-' = false := by decide
  have text := (spacing_text_iff spacing.decimal).mpr spacing.spelled
  rw [(spacing_text_iff also.decimal).mpr also.spelled] at text
  exact eq_of_last_dash (spacing.decimal.not_mem dash) (also.decimal.not_mem dash) text.symm

theorem isSpacing_of_readSpacing? (read : readSpacing? className = some (property, number)) :
    IsSpacing property number className := by
  obtain ⟨name, listed, found⟩ := List.exists_of_findSome?_eq_some read
  obtain ⟨_, numbered, same⟩ := Option.map_eq_some_iff.mp found
  cases same
  obtain ⟨decimal, text⟩ := numberAfter?_eq_some_iff.mp numbered
  exact ⟨List.mem_map_of_mem listed, decimal, (spacing_text_iff decimal).mp text⟩

theorem readSpacing?_eq_some_iff :
    readSpacing? className = some (property, number) ↔ IsSpacing property number className := by
  refine ⟨isSpacing_of_readSpacing?, ?_⟩
  intro spacing
  cases read : readSpacing? className with
  | none =>
      obtain ⟨name, listed, rfl⟩ := List.mem_map.mp spacing.listed
      have missed := List.findSome?_eq_none_iff.mp read name listed
      have text := (spacing_text_iff spacing.decimal).mpr spacing.spelled
      rw [Option.map_eq_none_iff, numberAfter?_eq_some_iff.mpr ⟨spacing.decimal, text⟩] at missed
      cases missed
  | some parts =>
      obtain ⟨rfl, rfl⟩ := spacing.unique (isSpacing_of_readSpacing? read)
      rfl

def spacingExpression : Expression :=
  .join (.group (.anyOf (spacingProperties.map String.toList))) (.join (.literal ['-'])
    (.join (.field isDecimal) .ending))

theorem spacingExpression_fits :
    spacingExpression.Fits taken groups rest ↔
      ∃ property number, property ∈ spacingProperties.map String.toList ∧
        IsRunOf isDecimal number ∧ taken = property ++ '-' :: number ∧
          groups = [property, number] ∧ (rest = [] ∨ rest = ['\n']) := by
  simp only [spacingExpression, Expression.join_choice_fits, Expression.join_literal_fits,
    Expression.join_ending_fits, Expression.field_fits]
  constructor
  · intro fits
    obtain ⟨property, _, _, rfl, rfl, listed, number, rfl, ⟨decimal, rfl⟩, ends⟩ := fits
    exact ⟨property, number, listed, decimal, rfl, rfl, ends⟩
  · intro parts
    obtain ⟨property, number, listed, decimal, rfl, rfl, ends⟩ := parts
    exact ⟨property, _, _, rfl, rfl, listed, number, rfl, ⟨decimal, rfl⟩, ends⟩

theorem readSpacing?_eq_match? (className : List Char) :
    spacingExpression.match? className =
      (readSpacing? className).map fun parts => [parts.1, parts.2] := by
  apply Expression.match?_eq_map
  intro groups
  simp only [spacingExpression_fits, Prod.exists, readSpacing?_eq_some_iff]
  constructor
  · rintro ⟨_, rest, rfl, property, number, listed, decimal, rfl, rfl, ends⟩
    exact ⟨property, number, ⟨listed, decimal, isSpelled_iff.mpr ⟨rest, rfl, ends⟩⟩, rfl⟩
  · rintro ⟨property, number, ⟨listed, decimal, spelled⟩, rfl⟩
    obtain ⟨rest, rfl, ends⟩ := isSpelled_iff.mp spelled
    exact ⟨_, rest, rfl, property, number, listed, decimal, rfl, rfl, ends⟩

theorem spacingToken_of_isSpacing (spacing : IsSpacing property number className) :
    spacingToken className = property ++ "-(--spacing-".toList ++ spacingSize number ++ [')'] := by
  rw [spacingToken, readSpacing?_eq_some_iff.mpr spacing]

theorem spacingToken_ne_iff :
    spacingToken className ≠ className ↔
      ∃ property number, IsSpacing property number className := by
  constructor
  · intro rewritten
    cases read : readSpacing? className with
    | none =>
        rw [spacingToken, read] at rewritten
        exact absurd rfl rewritten
    | some parts => exact ⟨parts.1, parts.2, readSpacing?_eq_some_iff.mp read⟩
  · rintro ⟨property, number, spacing⟩ same
    obtain ⟨rest, spelled, _⟩ := isSpelled_iff.mp spacing.spelled
    obtain ⟨digit, digits, rfl⟩ := List.exists_cons_of_ne_nil spacing.decimal.filled
    rw [spacingToken_of_isSpacing spacing, spelled] at same
    have bracket : '(' = digit := (by simpa using same : '(' = digit ∧ _).1
    have decimal := spacing.decimal.passes digit List.mem_cons_self
    rw [← bracket] at decimal
    cases decimal

/-! ## Arbitrary classes -/

/-- Whether a class gives a property the value in its brackets. -/
structure IsArbitrary (property value className : List Char) : Prop where
  word : IsRunOf isWordOrDash property
  closed : IsRunOf (· != ']') value
  spelled : IsSpelled className (property ++ '-' :: '[' :: (value ++ [']']))

theorem isArbitrary_of_readArbitrary? (read : readArbitrary? className = some (property, value)) :
    IsArbitrary property value className := by
  have whole := (List.takeWhile_append_dropWhile (p := isWordOrDash) (l := className)).symm
  unfold readArbitrary? at read
  dsimp only at read
  split at read
  case h_2 => cases read
  rename_i inside opened
  have parts := (List.takeWhile_append_dropWhile (p := (· != ']')) (l := inside)).symm
  split at read
  case h_2 => cases read
  rename_i rest closing
  split at read
  case isFalse => cases read
  rename_i proper
  simp only [Bool.and_eq_true, Bool.or_eq_true, decide_eq_true_eq, Bool.not_eq_true',
    beq_iff_eq, List.isEmpty_iff] at proper
  obtain ⟨⟨⟨dash, long⟩, filled⟩, ends⟩ := proper
  cases read
  obtain ⟨property, lead⟩ := List.getLast?_eq_some_iff.mp dash
  have word : ∀ character ∈ className.takeWhile isWordOrDash, isWordOrDash character = true :=
    List.all_eq_true.mp List.all_takeWhile
  rw [lead] at word long whole ⊢
  rw [List.dropLast_concat]
  refine ⟨⟨?_, ?_⟩, IsRunOf.of_takeWhile (by simpa using filled), ?_⟩
  · rintro rfl
    simp at long
  · exact fun character member => word character (List.mem_append_left _ member)
  · rw [opened, parts, closing] at whole
    exact isSpelled_iff.mpr ⟨rest, by simpa using whole, ends⟩

theorem readArbitrary?_eq_some_iff :
    readArbitrary? className = some (property, value) ↔ IsArbitrary property value className := by
  refine ⟨isArbitrary_of_readArbitrary?, ?_⟩
  intro arbitrary
  obtain ⟨rest, rfl, ends⟩ := isSpelled_iff.mp arbitrary.spelled
  have lead : IsRunOf isWordOrDash (property ++ ['-']) := by
    refine ⟨by simp, ?_⟩
    intro character member
    rcases List.mem_append.mp member with before | dash
    · exact arbitrary.word.passes character before
    · rw [List.mem_singleton.mp dash]
      decide
  have bracket : isWordOrDash '[' = false := by decide
  obtain ⟨takenLead, leftLead⟩ :=
    lead.span ('[' :: (value ++ ']' :: rest)) (by simp [bracket])
  obtain ⟨takenValue, leftValue⟩ := arbitrary.closed.span (']' :: rest) (by simp)
  have spelled : property ++ '-' :: '[' :: (value ++ [']']) ++ rest =
      property ++ ['-'] ++ '[' :: (value ++ ']' :: rest) := by simp
  unfold readArbitrary?
  dsimp only
  rw [spelled, takenLead, leftLead]
  split
  · rename_i same
    cases same
    rw [takenValue, leftValue]
    refine (if_pos ?_).trans ?_
    · have long := List.length_pos_iff.mpr arbitrary.word.filled
      rcases ends with rfl | rfl <;> simp [long, arbitrary.closed.filled]
    · rw [List.dropLast_concat]
  · rename_i other
    exact absurd rfl (other _)

def arbitraryExpression : Expression :=
  .join (.field isWordOrDash) (.join (.literal "-[".toList)
    (.join (.field (· != ']')) (.join (.literal [']']) .ending)))

theorem arbitraryExpression_fits :
    arbitraryExpression.Fits taken groups rest ↔
      ∃ property value, IsRunOf isWordOrDash property ∧ IsRunOf (· != ']') value ∧
        taken = property ++ '-' :: '[' :: (value ++ [']']) ∧ groups = [property, value] ∧
          (rest = [] ∨ rest = ['\n']) := by
  simp only [arbitraryExpression, Expression.join_field_fits, Expression.join_literal_fits,
    Expression.join_ending_fits, Expression.literal_fits]
  constructor
  · intro fits
    obtain ⟨property, _, _, rfl, rfl, word, _, rfl, value, _, _, rfl, rfl, closed,
      ⟨rfl, rfl⟩, ends⟩ := fits
    exact ⟨property, value, word, closed, rfl, rfl, ends⟩
  · intro parts
    obtain ⟨property, value, word, closed, rfl, rfl, ends⟩ := parts
    exact ⟨property, _, _, rfl, rfl, word, _, rfl, value, _, _, rfl, rfl, closed, ⟨rfl, rfl⟩, ends⟩

theorem readArbitrary?_eq_match? (className : List Char) :
    arbitraryExpression.match? className =
      (readArbitrary? className).map fun parts => [parts.1, parts.2] := by
  apply Expression.match?_eq_map
  intro groups
  simp only [arbitraryExpression_fits, Prod.exists, readArbitrary?_eq_some_iff]
  constructor
  · rintro ⟨_, rest, rfl, property, value, word, closed, rfl, rfl, ends⟩
    exact ⟨property, value, ⟨word, closed, isSpelled_iff.mpr ⟨rest, rfl, ends⟩⟩, rfl⟩
  · rintro ⟨property, value, ⟨word, closed, spelled⟩, rfl⟩
    obtain ⟨rest, rfl, ends⟩ := isSpelled_iff.mp spelled
    exact ⟨_, rest, rfl, property, value, word, closed, rfl, rfl, ends⟩

theorem namedStep_head {step : String} (named : namedStep? property value = some step) :
    step.toList.head? ≠ some '[' := by
  have plain : ∀ entry ∈ propertySteps, ∀ pair ∈ entry.2, pair.2.toList.head? ≠ some '[' := by
    decide +kernel
  obtain ⟨entry, among, listed⟩ := listed_of_named named
  exact plain entry among _ listed

theorem computedStep_eq_ok {result : List Char} (made : computedStep property value = .ok result) :
    ∃ step, result = property ++ '-' :: step ∧ step.head? ≠ some '[' := by
  have plain : ∀ step < 97, (toString (Int.ofNat step)).toList.head? ≠ some '[' := by
    decide +kernel
  have custom : ∃ step, property ++ "-(--spacing-custom)".toList = property ++ '-' :: step ∧
      step.head? ≠ some '[' := ⟨"(--spacing-custom)".toList, rfl, by decide⟩
  rw [computedStep] at made
  split at made
  · cases made
    exact custom
  · obtain ⟨step, _, chosen⟩ := bind_eq_ok_iff.mp made
    split at chosen
    · rename_i fits
      cases chosen
      obtain ⟨count, rfl⟩ := Int.eq_ofNat_of_zero_le fits.1.le
      exact ⟨_, rfl, plain count (by omega)⟩
    · cases chosen
      exact custom

/-- The suggestion for an arbitrary class keeps the property. -/
theorem scaleValue_eq_ok {result : List Char} (arbitrary : IsArbitrary property value className)
    (made : scaleValue className = .ok result) :
    ∃ step, result = property ++ '-' :: step ∧ step.head? ≠ some '[' := by
  rw [scaleValue, readArbitrary?_eq_some_iff.mpr arbitrary] at made
  dsimp only at made
  cases named : namedStep? property value with
  | none =>
      rw [named] at made
      exact computedStep_eq_ok made
  | some step =>
      rw [named] at made
      cases made
      exact ⟨step.toList, rfl, namedStep_head named⟩

theorem scaleValue_ne_iff :
    scaleValue className ≠ .ok className ↔
      ∃ property value, IsArbitrary property value className := by
  constructor
  · intro rewritten
    cases read : readArbitrary? className with
    | none =>
        rw [scaleValue, read] at rewritten
        exact absurd rfl rewritten
    | some parts => exact ⟨parts.1, parts.2, readArbitrary?_eq_some_iff.mp read⟩
  · rintro ⟨property, value, arbitrary⟩ same
    obtain ⟨rest, spelled, _⟩ := isSpelled_iff.mp arbitrary.spelled
    obtain ⟨step, kept, plain⟩ := scaleValue_eq_ok arbitrary same
    rw [spelled, List.append_assoc, List.append_cancel_left_eq] at kept
    cases kept
    exact plain rfl

/-! ## All three -/

/-- The classes of each kind are just those that are spelled from parts of that kind,
which are the parts that the expression of the kind finds.  What is suggested for them
keeps the property, and the opacity of a colour.  Spacings and arbitrary classes are not
left as they are, other classes are, and only a length beyond the finite numbers has no
suggestion. -/
theorem recognised_classes_exact (className : List Char) :
    (paletteExpression.match? className = (readPalette? className).map PaletteClass.parts ∧
      (¬ "var(--".toList <+: semanticToken className ↔
        ∃ palette : PaletteClass, palette.IsProper ∧ IsSpelled className palette.written) ∧
      ∀ palette : PaletteClass, palette.IsProper → IsSpelled className palette.written →
        (∀ other : PaletteClass, other.IsProper → IsSpelled className other.written →
          other = palette) ∧
        semanticToken className = palette.part ++ "-(--".toList ++
          semanticName (palette.colour ++ '-' :: palette.shade) ++
            ')' :: opacitySuffix palette.opacity) ∧
    (spacingExpression.match? className =
        (readSpacing? className).map (fun parts => [parts.1, parts.2]) ∧
      (spacingToken className ≠ className ↔
        ∃ property number, IsSpacing property number className) ∧
      ∀ property number, IsSpacing property number className →
        spacingToken className =
          property ++ "-(--spacing-".toList ++ spacingSize number ++ [')']) ∧
    (arbitraryExpression.match? className =
        (readArbitrary? className).map (fun parts => [parts.1, parts.2]) ∧
      (scaleValue className ≠ .ok className ↔
        ∃ property value, IsArbitrary property value className) ∧
      (∀ property value result, IsArbitrary property value className →
        scaleValue className = .ok result → property ++ ['-'] <+: result) ∧
      ((∃ result, scaleValue className = .ok result) ∨
        overflows className = true ∧ scaleValue className = .error .infiniteInteger)) := by
  refine ⟨⟨readPalette?_eq_match? className, ?_, ?_⟩, ⟨readSpacing?_eq_match? className,
    spacingToken_ne_iff, fun _ _ => spacingToken_of_isSpacing⟩,
    ⟨readArbitrary?_eq_match? className, scaleValue_ne_iff, ?_, ?_⟩⟩
  · rw [semanticToken_variable_iff, not_not]
  · intro palette proper spelled
    refine ⟨?_, semanticToken_of_proper proper spelled⟩
    intro other otherProper otherSpelled
    exact otherProper.unique otherSpelled proper spelled
  · intro property value result arbitrary made
    obtain ⟨step, rfl, _⟩ := scaleValue_eq_ok arbitrary made
    exact ⟨step, by simp⟩
  · by_cases large : overflows className = true
    · exact Or.inr ⟨large, scaleValue_of_overflows large⟩
    · exact Or.inl (exists_scaleValue large)

theorem recognised_classes_exact_feeds :
    semanticToken "ring-gray-500/\u0665\n".toList = "ring-(--muted-foreground)/\u0665".toList ∧
      spacingToken "space-x-4\n".toList = "space-x-(--spacing-md)".toList ∧
      ∃ result, scaleValue "m--[1[6px]\n".toList = .ok result ∧ "m--".toList <+: result := by
  refine ⟨?_, ?_, ?_⟩
  · obtain ⟨⟨_, _, found⟩, _⟩ := recognised_classes_exact "ring-gray-500/\u0665\n".toList
    obtain ⟨_, token⟩ := found
      ⟨"ring".toList, "gray".toList, "500".toList, some "\u0665".toList⟩
      ⟨by decide, ⟨by decide, List.all_eq_true.mp (by decide)⟩,
        ⟨by decide, List.all_eq_true.mp (by decide)⟩,
        by rintro _ ⟨⟩; exact ⟨by decide, List.all_eq_true.mp (by decide)⟩⟩
      (Or.inr (by decide))
    rw [token]
    decide
  · obtain ⟨_, ⟨_, _, found⟩, _⟩ := recognised_classes_exact "space-x-4\n".toList
    rw [found "space-x".toList "4".toList ⟨by decide, ⟨by decide, List.all_eq_true.mp (by decide)⟩,
      Or.inr (by decide)⟩]
    decide
  · obtain ⟨_, _, _, _, keeps, makes⟩ := recognised_classes_exact "m--[1[6px]\n".toList
    obtain ⟨result, made⟩ := makes.resolve_right fun large => absurd large.1 (by decide +kernel)
    refine ⟨result, made, keeps "m-".toList "1[6px".toList result ⟨?_, ?_, Or.inr (by decide)⟩ made⟩
    · exact ⟨by decide, List.all_eq_true.mp (by decide)⟩
    · exact ⟨by decide, List.all_eq_true.mp (by decide)⟩

end Restyle.Suggestion
