import Restyle.Proofs.Json.Forms

/-!
# Documents of files

A document written in lines holds no carriage return, so its file reads back
as it was written.  What the reader gives is tidy, so documents made of values
that were read can be written and read again.
-/

namespace Restyle

namespace Json

/-! ## Carriage returns -/

theorem return_not_mem_digits {digits : List Char} (decimal : ∀ digit ∈ digits, digit.isDigit = true) :
    '\r' ∉ digits := by
  intro member
  exact absurd (decimal _ member) (by decide)

theorem return_not_mem_unitEscape (unit : Nat) : '\r' ∉ unitEscape unit := by
  have digit : ∀ value < 16, '\r' ≠ Text.hexDigit value := by decide
  have bounded : ∀ value : Nat, value % 16 < 16 := fun value => Nat.mod_lt _ (by decide)
  simp only [unitEscape, hex_four, List.mem_cons, List.not_mem_nil, or_false, not_or]
  exact ⟨by decide, by decide, digit _ (bounded _), digit _ (bounded _), digit _ (bounded _),
    digit _ (bounded _)⟩

theorem return_not_mem_escapedAscii (character : Char) : '\r' ∉ escapedAscii character := by
  unfold escapedAscii
  cases short : shortEscape? character with
  | some escape =>
      dsimp only
      unfold shortEscape? at short
      repeat' split at short
      all_goals cases short
      all_goals decide
  | none =>
      dsimp only
      split
      · rename_i printable
        simp only [Bool.and_eq_true, decide_eq_true_eq] at printable
        rw [List.mem_singleton]
        rintro rfl
        exact absurd printable.1 (by decide)
      · unfold codeEscapes
        dsimp only
        split
        · exact return_not_mem_unitEscape _
        · rw [List.mem_append, not_or]
          exact ⟨return_not_mem_unitEscape _, return_not_mem_unitEscape _⟩

theorem return_not_mem_codesText (text : List Text.Code) : '\r' ∉ codesText escapedAscii text := by
  have code : ∀ code, '\r' ∉ codeText escapedAscii code := by
    intro code
    cases code with
    | character value => exact return_not_mem_escapedAscii value
    | surrogate offset => exact return_not_mem_unitEscape _
  simp only [codesText, List.cons_append, List.mem_cons, List.mem_append, List.mem_flatMap,
    List.not_mem_nil, or_false, not_or, not_exists, not_and]
  exact ⟨by decide, fun inside _ => code inside, by decide⟩

theorem return_not_mem_signText (negative : Bool) : '\r' ∉ signText negative := by
  cases negative <;> decide

theorem return_not_mem_numeral {numeral : Numeral} (isReal : numeral.IsReal) :
    '\r' ∉ numeral.text := by
  obtain ⟨digits, fraction, exponent⟩ := numeral
  have whole := return_not_mem_digits isReal.leading.decimal
  have part := return_not_mem_digits isReal.decimal
  have fractional : '\r' ∉ Numeral.fractionText fraction := by
    unfold Numeral.fractionText
    split
    · exact List.not_mem_nil
    · simpa using part
  have scaled : '\r' ∉ Numeral.exponentText exponent := by
    cases exponent with
    | none => exact List.not_mem_nil
    | some scale =>
        obtain ⟨negative, power⟩ := scale
        have digits := return_not_mem_digits (isReal.powerDigits negative power rfl).2
        cases negative <;> simpa [Numeral.exponentText] using digits
  simp only [Numeral.text, List.mem_append, not_or]
  exact ⟨whole, fractional, scaled⟩

theorem return_not_mem_realText (value : Binary64) : '\r' ∉ realText value := by
  cases value with
  | notANumber => decide
  | infinite negative => cases negative <;> decide
  | finite negative mantissa exponent =>
      have text : realText (.finite negative mantissa exponent) =
          signText negative ++ Binary64.decimalText (Binary64.shortest mantissa exponent).1
            (Binary64.shortest mantissa exponent).2 := by
        simp [realText, Binary64.text, signText]
      rw [text, List.mem_append, not_or]
      refine ⟨return_not_mem_signText negative, ?_⟩
      rcases Nat.eq_zero_or_pos (Binary64.shortest mantissa exponent).1 with zero | positive
      · rw [Binary64.decimalText, if_pos zero]
        decide
      · obtain ⟨numeral, isReal, written, _⟩ :=
          Binary64.decimalText_numeral (Binary64.shortest mantissa exponent).2 positive
        rw [written]
        exact return_not_mem_numeral isReal

theorem return_not_mem_newline (level : Nat) : '\r' ∉ newline level := by
  simp [newline, List.mem_replicate]

theorem return_not_mem_integerText (value : Int) : '\r' ∉ (toString value).toList := by
  rw [integerText_eq, List.mem_append, not_or]
  exact ⟨return_not_mem_signText _, return_not_mem_digits (isLeading_toDigits _).decimal⟩

mutual

theorem return_not_mem_linesText (level : Nat) : ∀ value, '\r' ∉ linesText level value
  | .null => by simp [linesText, scalarText]
  | .boolean value => by cases value <;> simp [linesText, scalarText]
  | .integer value => return_not_mem_integerText value
  | .real value => return_not_mem_realText value
  | .text value => return_not_mem_codesText _
  | .torn codes => return_not_mem_codesText codes
  | .array [] => by simp [linesText]
  | .array (item :: items) => by
      have inner := return_not_mem_linesItems (level + 1) (item :: items)
      simp [linesText, return_not_mem_newline, inner]
  | .object [] => by simp [linesText]
  | .object (field :: fields) => by
      have inner := return_not_mem_linesFields (level + 1) (field :: fields)
      simp [linesText, return_not_mem_newline, inner]

theorem return_not_mem_linesItems (level : Nat) : ∀ items, '\r' ∉ linesItems level items
  | [] => by simp [linesItems]
  | [item] => return_not_mem_linesText level item
  | item :: next :: items => by
      have first := return_not_mem_linesText level item
      have rest := return_not_mem_linesItems level (next :: items)
      simp [linesItems, return_not_mem_newline, first, rest]

theorem return_not_mem_linesFields (level : Nat) : ∀ fields, '\r' ∉ linesFields level fields
  | [] => by simp [linesFields]
  | [(name, value)] => by
      have first := return_not_mem_linesText level value
      have named := return_not_mem_codesText (Text.codesOf name.toList)
      simp [linesFields, quotedName, named, first]
  | (name, value) :: next :: fields => by
      have first := return_not_mem_linesText level value
      have rest := return_not_mem_linesFields level (next :: fields)
      have named := return_not_mem_codesText (Text.codesOf name.toList)
      simp [linesFields, quotedName, return_not_mem_newline, named, first, rest]

end

theorem return_not_mem_pretty (value : Json) : '\r' ∉ value.pretty.toList := by
  rw [pretty, String.toList_ofList]
  exact return_not_mem_linesText 0 value

/-! ## What the reader gives -/

theorem areTidy_iff {values : List Json} : AreTidy values ↔ ∀ value ∈ values, IsTidy value := by
  induction values with
  | nil => simp [AreTidy]
  | cons value values induction => simp [AreTidy, induction]

theorem haveTidyValues_iff {fields : List (String × Json)} :
    HaveTidyValues fields ↔ ∀ field ∈ fields, IsTidy field.2 := by
  induction fields with
  | nil => simp [HaveTidyValues]
  | cons field fields induction => simp [HaveTidyValues, induction]

theorem areLegible_iff {values : List Json} :
    AreLegible values ↔ ∀ value ∈ values, IsLegible value := by
  induction values with
  | nil => simp [AreLegible]
  | cons value values induction => simp [AreLegible, induction]

theorem haveLegible_iff {fields : List (String × Json)} :
    HaveLegible fields ↔ ∀ field ∈ fields, isPlainName field.1 = true ∧ IsLegible field.2 := by
  induction fields with
  | nil => simp [HaveLegible]
  | cons field fields induction =>
      obtain ⟨name, value⟩ := field
      simp [HaveLegible, induction]

theorem map_fst_setField (name : String) (value : Json) (fields : List (String × Json)) :
    (setField name value fields).map Prod.fst =
      if name ∈ fields.map Prod.fst then fields.map Prod.fst
      else fields.map Prod.fst ++ [name] := by
  induction fields with
  | nil => rfl
  | cons field fields induction =>
      obtain ⟨key, old⟩ := field
      rw [setField]
      by_cases found : key = name
      · rw [if_pos found]
        simp [found]
      · rw [if_neg found, List.map_cons, induction]
        by_cases later : name ∈ fields.map Prod.fst
        · simp [later]
        · simp [later, Ne.symm found]

theorem mem_setField {name : String} {value : Json} {fields : List (String × Json)}
    {field : String × Json} (member : field ∈ setField name value fields) :
    field.2 = value ∨ field ∈ fields := by
  induction fields with
  | nil =>
      obtain rfl := List.mem_singleton.mp member
      exact Or.inl rfl
  | cons other fields induction =>
      obtain ⟨key, old⟩ := other
      rw [setField] at member
      split at member
      · rcases List.mem_cons.mp member with rfl | later
        · exact Or.inl rfl
        · exact Or.inr (List.mem_cons_of_mem _ later)
      · rcases List.mem_cons.mp member with rfl | later
        · exact Or.inr List.mem_cons_self
        · exact (induction later).imp_right (List.mem_cons_of_mem _)

theorem AreNames.setField {name : String} (isName : IsName name) {fields : List (String × Json)}
    (areNames : AreNames (fields.map Prod.fst)) (value : Json) :
    AreNames ((setField name value fields).map Prod.fst) := by
  rw [map_fst_setField]
  split
  · exact areNames
  · rename_i fresh
    constructor
    · rw [List.nodup_append]
      refine ⟨areNames.distinct, by simp, ?_⟩
      rintro first member second single rfl
      exact fresh (List.mem_singleton.mp single ▸ member)
    · intro other member
      rcases List.mem_append.mp member with old | single
      · exact areNames.spelled other old
      · rwa [List.mem_singleton.mp single]

theorem isTidy_setField {name : String} (isName : IsName name) {value : Json}
    {fields : List (String × Json)} (valueTidy : IsTidy value) (tidy : IsTidy (.object fields)) :
    IsTidy (.object (setField name value fields)) := by
  rw [IsTidy, haveTidyValues_iff] at tidy ⊢
  refine ⟨tidy.1.setField isName value, ?_⟩
  intro field member
  rcases mem_setField member with same | old
  · rw [same]
    exact valueTidy
  · exact tidy.2 field old

theorem areNames_nil : AreNames [] := ⟨List.nodup_nil, fun _ member => absurd member List.not_mem_nil⟩

theorem isTidy_empty : IsTidy (.object []) := ⟨areNames_nil, trivial⟩

theorem isTidy_ofCodes {text : List Text.Code} (apart : Text.IsApart text) :
    IsTidy (ofCodes text) := by
  obtain ⟨_, _, made⟩ | ⟨isTorn, made⟩ := ofCodes_cases text
  · rw [made]
    trivial
  · rw [made]
    exact ⟨isTorn, apart⟩

theorem digitsValue_lt (digits : List Char) (decimal : ∀ digit ∈ digits, digit.isDigit = true) :
    digitsValue digits < 10 ^ digits.length := by
  induction digits using List.reverseRecOn with
  | nil => decide
  | append_singleton digits digit induction =>
      have last : digit.toNat - '0'.toNat < 10 := by
        have := decimal digit (by simp)
        simp only [Char.isDigit, Bool.and_eq_true, decide_eq_true_eq] at this
        have upper : digit.toNat ≤ 57 := this.2
        show digit.toNat - 48 < 10
        omega
      have first := induction fun digit member => decimal digit (List.mem_append_left _ member)
      rw [digitsValue_eq] at first ⊢
      rw [Nat.ofDigitChars_append, Nat.ofDigitChars_cons, Nat.ofDigitChars_nil,
        List.length_append, List.length_singleton, Nat.pow_succ]
      omega

theorem wholeDigits_decimal (input : List Char) :
    ∀ digit ∈ (wholeDigits input).1, digit.isDigit = true := by
  unfold wholeDigits
  split
  · simp
  · exact List.all_eq_true.mp List.all_takeWhile

theorem readNumber_tidy {input rest : List Char} {value : Json}
    (read : readNumber input = .ok (value, rest)) : IsTidy value := by
  unfold readNumber at read
  dsimp only at read
  split at read
  · cases read
  · split at read
    · split at read
      · cases read
      · rename_i short
        cases read
        rw [IsTidy]
        have small := digitsValue_lt _ (wholeDigits_decimal (takeMinus input).2)
        have bounded := Nat.pow_le_pow_right (by decide : 0 < 10) (Nat.not_lt.mp short)
        have size : ∀ negative magnitude, (Binary64.signed negative magnitude).natAbs = magnitude := by
          intro negative magnitude
          cases negative <;> simp [Binary64.signed]
        rw [size]
        exact Nat.lt_of_lt_of_le small bounded
    · cases read
      exact Binary64.canonical_ofDecimal _ _ _

theorem readWord?_tidy {input rest : List Char} {value : Json}
    (read : readWord? input wordValues = some (value, rest)) : IsTidy value := by
  have words : ∀ words : List (String × Json), (∀ word ∈ words, IsTidy word.2) →
      readWord? input words = some (value, rest) → IsTidy value := by
    intro words tidy found
    induction words with
    | nil => cases found
    | cons word words induction =>
        obtain ⟨word, meant⟩ := word
        rw [readWord?] at found
        split at found
        · cases found
          exact tidy _ List.mem_cons_self
        · exact induction (fun word member => tidy word (List.mem_cons_of_mem _ member)) found
  refine words _ ?_ read
  simp [wordValues, IsTidy, Binary64.Canonical]

private structure ReadsTidy (fuel : Nat) : Prop where
  value : ∀ input value rest, readValue fuel input = .ok (value, rest) → IsTidy value
  items : ∀ known input values rest, AreTidy known →
    readItems fuel known input = .ok (values, rest) → AreTidy values
  fields : ∀ known input fields rest, IsTidy (.object known) →
    readFields fuel known input = .ok (fields, rest) → IsTidy (.object fields)

private theorem ReadsTidy.readValue {fuel : Nat} (tidy : ReadsTidy fuel) {input rest : List Char}
    {value : Json} (read : readValue (fuel + 1) input = .ok (value, rest)) : IsTidy value := by
  rw [readValue.eq_def] at read
  dsimp only at read
  split at read
  · split at read
    · cases read
    · rename_i text
      cases read
      exact isTidy_ofCodes (textBody_apart text)
  · split at read
    · cases read
      trivial
    · split at read
      · cases read
      · rename_i inner
        cases read
        exact tidy.items [] _ _ _ trivial inner
  · split at read
    · cases read
      exact isTidy_empty
    · split at read
      · cases read
      · rename_i inner
        cases read
        exact tidy.fields [] _ _ _ isTidy_empty inner
  · split at read
    · rename_i word
      cases read
      exact readWord?_tidy word
    · exact readNumber_tidy read

private theorem ReadsTidy.readItems {fuel : Nat} (tidy : ReadsTidy fuel) {known values : List Json}
    {input rest : List Char} (before : AreTidy known)
    (read : readItems (fuel + 1) known input = .ok (values, rest)) : AreTidy values := by
  rw [Json.readItems] at read
  split at read
  · cases read
  · rename_i value after found
    have first := tidy.value _ _ _ found
    split at read
    · cases read
      rw [areTidy_iff]
      intro item member
      rcases List.mem_cons.mp (List.mem_reverse.mp member) with rfl | old
      · exact first
      · exact areTidy_iff.mp before item old
    · exact tidy.items (value :: known) _ _ _ ⟨first, before⟩ read
    · cases read

private theorem ReadsTidy.readFields {fuel : Nat} (tidy : ReadsTidy fuel)
    {known fields : List (String × Json)} {input rest : List Char}
    (before : IsTidy (.object known))
    (read : readFields (fuel + 1) known input = .ok (fields, rest)) : IsTidy (.object fields) := by
  rw [readFields.eq_def] at read
  dsimp only at read
  split at read
  · split at read
    · cases read
    · rename_i name _ text
      have isName : IsName (nameOf name) := ⟨name, textBody_apart text, rfl⟩
      split at read
      · split at read
        · cases read
        · rename_i value after found
          have more := isTidy_setField isName (tidy.value _ _ _ found) before
          split at read
          · cases read
            exact more
          · exact tidy.fields _ _ _ _ more read
          · cases read
      · cases read
  · cases read

/-- The readers give tidy values, whatever their fuel. -/
private theorem readsTidy (fuel : Nat) : ReadsTidy fuel := by
  induction fuel with
  | zero =>
      constructor
      · intro input value rest read
        cases read
      · intro known input values rest _ read
        cases read
      · intro known input fields rest _ read
        cases read
  | succ fuel induction =>
      exact ⟨fun _ _ _ => induction.readValue, fun _ _ _ _ => induction.readItems,
        fun _ _ _ _ => induction.readFields⟩

theorem read_tidy {input : String} {value : Json} (found : read input = .ok value) :
    IsTidy value := by
  unfold read at found
  cases document : readDocument input.toList with
  | error stop =>
      rw [document] at found
      cases found
  | ok given =>
      rw [document] at found
      cases found
      unfold readDocument at document
      split at document
      · cases document
      · split at document
        · cases document
        · rename_i inner
          split at document
          · cases document
            exact (readsTidy _).value _ _ _ inner
          · cases document

end Json

end Restyle
