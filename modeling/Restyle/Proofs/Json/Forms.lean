import Restyle.Proofs.Json.Keys
import Restyle.Proofs.Json.Reals
import Restyle.Proofs.Json.Texts

/-!
# The forms of a document

A value can be written in many ways, which differ in the gaps between the parts
and in the escapes of its texts.  `Writes` relates a value to all its forms,
and every form reads back as the value.  Both ways in which documents are
written here give forms.
-/

namespace Restyle

namespace Json

open Text

/-- Whether a name spells a text in which no surrogates pair. -/
def IsName (name : String) : Prop := ∃ text, IsApart text ∧ name = nameOf text

/-- Whether the fields of an object can have these names. -/
structure AreNames (names : List String) : Prop where
  distinct : names.Nodup
  spelled : ∀ name ∈ names, IsName name

mutual

/-- A value that the reader can give: its reals are canonical, its integers are
not too long, its surrogates do not pair, and no object has two fields of one
name. -/
def IsTidy : Json → Prop
  | .integer value => value.natAbs < 10 ^ digitLimit
  | .real value => value.Canonical
  | .torn codes => characters? codes = none ∧ IsApart codes
  | .array items => AreTidy items
  | .object fields => AreNames (fields.map Prod.fst) ∧ HaveTidyValues fields
  | _ => True

def AreTidy : List Json → Prop
  | [] => True
  | item :: items => IsTidy item ∧ AreTidy items

def HaveTidyValues : List (String × Json) → Prop
  | [] => True
  | field :: fields => IsTidy field.2 ∧ HaveTidyValues fields

end

/-- Whether a name spells a text without surrogates, and in its one way. -/
def isPlainName (name : String) : Bool :=
  (characters? (codesOf name.toList)).isSome && nameOf (codesOf name.toList) = name

mutual

/-- Whether a value can be told from its bytes: all reals of it are canonical, and no
lone surrogate stands in it. -/
def IsLegible : Json → Prop
  | .real value => value.Canonical
  | .torn _ => False
  | .array items => AreLegible items
  | .object fields => HaveLegible fields
  | _ => True

def AreLegible : List Json → Prop
  | [] => True
  | item :: items => IsLegible item ∧ AreLegible items

def HaveLegible : List (String × Json) → Prop
  | [] => True
  | (name, value) :: fields => (isPlainName name = true ∧ IsLegible value) ∧ HaveLegible fields

end

mutual

theorem IsLegible.encodable : ∀ {value : Json}, IsLegible value → value.isEncodable = true
  | .null, _ => rfl
  | .boolean _, _ => rfl
  | .integer _, _ => rfl
  | .real _, _ => rfl
  | .text _, _ => rfl
  | .array _, legible => AreLegible.encodable legible
  | .object _, legible => HaveLegible.encodable legible

theorem AreLegible.encodable : ∀ {items : List Json}, AreLegible items → areEncodable items = true
  | [], _ => rfl
  | _ :: _, legible => by
      rw [areEncodable, legible.1.encodable, AreLegible.encodable legible.2]
      rfl

theorem HaveLegible.encodable :
    ∀ {fields : List (String × Json)}, HaveLegible fields → haveEncodable fields = true
  | [], _ => rfl
  | (_, _) :: _, legible => by
      rw [haveEncodable, (Bool.and_eq_true_iff.mp legible.1.1).1, legible.1.2.encodable,
        HaveLegible.encodable legible.2]
      rfl

end

/-- Whether a value can be read back, and told from its bytes. -/
structure IsClean (value : Json) : Prop where
  tidy : IsTidy value
  legible : IsLegible value

theorem isClean_null : IsClean .null := ⟨trivial, trivial⟩

theorem isClean_text (value : String) : IsClean (.text value) := ⟨trivial, trivial⟩

theorem IsClean.orElse {value other : Json} (clean : value.IsClean) (fallback : other.IsClean) :
    (value.orElse other).IsClean := by
  unfold Json.orElse
  split
  · exact clean
  · exact fallback

theorem IsClean.settled {value : Json} (clean : value.IsClean) : value.settled.IsClean := by
  cases value with
  | torn codes => exact clean.legible.elim
  | _ => exact clean

theorem isName_plain {name : String} (plain : spellingMark ∉ name.toList) : IsName name :=
  ⟨codes name.toList, isApart_codes _, (nameOf_plain plain).symm⟩

theorem areNames_plain {names : List String}
    (plain : names.Nodup ∧ ∀ name ∈ names, spellingMark ∉ name.toList) : AreNames names :=
  ⟨plain.1, fun name member => isName_plain (plain.2 name member)⟩

theorem isPlainName_nameOf (text : List Char) : isPlainName (nameOf (codes text)) = true := by
  rw [isPlainName, codesOf_nameOf, characters?_codes]
  simp

theorem isName_of_isPlainName {name : String} (plain : isPlainName name = true) : IsName name := by
  simp only [isPlainName, Bool.and_eq_true, decide_eq_true_eq] at plain
  obtain ⟨characters, whole⟩ := Option.isSome_iff_exists.mp plain.1
  refine ⟨codesOf name.toList, ?_, plain.2.symm⟩
  rw [eq_codes_of_characters? whole]
  exact isApart_codes characters

/-- Characters that may stand between the parts of a document. -/
def IsGapText (gap : List Char) : Prop := ∀ character ∈ gap, isGap character = true

mutual

/-- The forms of a value. -/
inductive Writes (escape : Char → List Char) : Json → List Char → Prop where
  | null : Writes escape .null "null".toList
  | boolean (value : Bool) :
      Writes escape (.boolean value) (if value then "true".toList else "false".toList)
  | integer (value : Int) : Writes escape (.integer value) (toString value).toList
  | real (value : Binary64) : Writes escape (.real value) (realText value)
  | text (value : String) : Writes escape (.text value) (quotedText escape value)
  | torn (codes : List Code) : Writes escape (.torn codes) (codesText escape codes)
  | emptyArray : Writes escape (.array []) ['[', ']']
  | array {items : List Json} {gap text : List Char} (isGap : IsGapText gap)
      (inner : WritesItems escape items text) : Writes escape (.array items) ('[' :: (gap ++ text))
  | emptyObject : Writes escape (.object []) ['\x7b', '\x7d']
  | object {fields : List (String × Json)} {gap text : List Char} (isGap : IsGapText gap)
      (inner : WritesFields escape fields text) :
      Writes escape (.object fields) ('\x7b' :: (gap ++ text))

/-- The forms of the items of an array, up to the closing bracket. -/
inductive WritesItems (escape : Char → List Char) : List Json → List Char → Prop where
  | last {value : Json} {text gap : List Char} (first : Writes escape value text)
      (isGap : IsGapText gap) : WritesItems escape [value] (text ++ (gap ++ [']']))
  | more {value : Json} {values : List Json} {text gap later : List Char}
      (first : Writes escape value text) (isGap : IsGapText gap)
      (rest : WritesItems escape values later) :
      WritesItems escape (value :: values) (text ++ ',' :: (gap ++ later))

/-- The forms of the fields of an object, up to the closing brace. -/
inductive WritesFields (escape : Char → List Char) : List (String × Json) → List Char → Prop where
  | last {name : String} {value : Json} {text colon gap : List Char} (isColon : IsGapText colon)
      (first : Writes escape value text) (isGap : IsGapText gap) :
      WritesFields escape [(name, value)]
        (quotedName escape name ++ ':' :: (colon ++ (text ++ (gap ++ ['\x7d']))))
  | more {name : String} {value : Json} {fields : List (String × Json)}
      {text colon gap later : List Char} (isColon : IsGapText colon)
      (first : Writes escape value text) (isGap : IsGapText gap)
      (rest : WritesFields escape fields later) :
      WritesFields escape ((name, value) :: fields)
        (quotedName escape name ++ ':' :: (colon ++ (text ++ ',' :: (gap ++ later))))

end

variable {escape : Char → List Char}

theorem length_le_codesText (escapes : Escapes escape) (text : List Code) :
    text.length + 2 ≤ (codesText escape text).length := by
  have nonempty : ∀ code, 1 ≤ (codeText escape code).length := by
    intro code
    cases code with
    | character value =>
        have read := escapes [] value ['"'] (by simp)
        cases written : escape value with
        | nil =>
            rw [written] at read
            simp [textPiece] at read
        | cons first more => simp [codeText, written]
    | surrogate offset => simp [codeText, unitEscape]
  have grows : ∀ text : List Code, text.length ≤ (text.flatMap (codeText escape)).length := by
    intro text
    induction text with
    | nil => simp
    | cons code text induction =>
        have one := nonempty code
        simp only [List.flatMap_cons, List.length_append, List.length_cons]
        omega
  have inner := grows text
  simp only [codesText, List.length_append, List.length_cons, List.length_nil]
  omega

theorem IsName.apart {name : String} (isName : IsName name) : IsApart (codesOf name.toList) := by
  obtain ⟨text, apart, rfl⟩ := isName
  rwa [codesOf_nameOf]

theorem IsName.spelled {name : String} (isName : IsName name) :
    nameOf (codesOf name.toList) = name := by
  obtain ⟨text, _, rfl⟩ := isName
  rw [codesOf_nameOf]

theorem skipGaps_append {gap rest : List Char} (gaps : IsGapText gap) :
    skipGaps (gap ++ rest) = skipGaps rest :=
  List.dropWhile_append_of_pos gaps

def StartsValue (text : List Char) : Prop :=
  ∃ character rest, text = character :: rest ∧ isGap character = false ∧
    character ≠ ']' ∧ character ≠ '\x7d' ∧ character ≠ '\uFEFF'

theorem StartsValue.skipGaps {text rest : List Char} (starts : StartsValue text) :
    skipGaps (text ++ rest) = text ++ rest := by
  obtain ⟨character, later, rfl, noGap, _⟩ := starts
  simp [Json.skipGaps, noGap]

theorem StartsValue.append_ne_bracket {text : List Char} (starts : StartsValue text)
    (rest last : List Char) : text ++ rest ≠ ']' :: last := by
  obtain ⟨character, later, rfl, _, noBracket, _⟩ := starts
  rintro ⟨⟩
  exact noBracket rfl

theorem StartsValue.append_ne_brace {text : List Char} (starts : StartsValue text)
    (rest last : List Char) : text ++ rest ≠ '\x7d' :: last := by
  obtain ⟨character, later, rfl, _, _, noBrace, _⟩ := starts
  rintro ⟨⟩
  exact noBrace rfl

theorem readNumber_starts {input : List Char} {result : Json × List Char}
    (read : readNumber input = .ok result) :
    ∃ negative digit rest, input = signText negative ++ digit :: rest ∧ digit.isDigit = true := by
  have digits : ∀ unsigned, (wholeDigits unsigned).1.isEmpty = false →
      ∃ digit rest, unsigned = digit :: rest ∧ digit.isDigit = true := by
    intro unsigned filled
    unfold wholeDigits at filled
    split at filled
    · exact ⟨_, _, rfl, rfl⟩
    · cases unsigned with
      | nil => simp at filled
      | cons digit rest =>
          refine ⟨digit, rest, rfl, ?_⟩
          cases decimal : digit.isDigit with
          | true => rfl
          | false => simp [decimal] at filled
  unfold readNumber at read
  dsimp only at read
  cases filled : (wholeDigits (takeMinus input).2).1.isEmpty with
  | true => simp [filled] at read
  | false =>
      obtain ⟨digit, rest, unsigned, decimal⟩ := digits _ filled
      unfold takeMinus at unsigned
      split at unsigned
      · exact ⟨true, digit, rest, congrArg (List.cons '-') unsigned, decimal⟩
      · exact ⟨false, digit, rest, unsigned, decimal⟩

theorem readWord?_number (negative : Bool) {digit : Char} {rest : List Char}
    (decimal : digit.isDigit = true) :
    readWord? (signText negative ++ digit :: rest) wordValues = none := by
  have other : ∀ character : Char, character.isDigit = false → (character == digit) = false := by
    intro character none
    rw [beq_eq_false_iff_ne]
    rintro rfl
    rw [none] at decimal
    cases decimal
  cases negative <;>
    simp [signText, readWord?, wordValues, Text.dropLead?, other 'n' rfl, other 't' rfl, other 'f' rfl,
      other 'N' rfl, other 'I' rfl, other '-' rfl]

/-- A text that starts with no quote and no bracket is read as a word or a
number. -/
theorem readValue_plain {input : List Char} (fuel : Nat) (noQuote : input.head? ≠ some '"')
    (noBracket : input.head? ≠ some '[') (noBrace : input.head? ≠ some '\x7b') :
    readValue (fuel + 1) input =
      match readWord? input wordValues with
      | some (value, rest) => .ok (value, rest)
      | none => readNumber input := by
  unfold readValue
  split
  · exact absurd rfl noQuote
  · exact absurd rfl noBracket
  · exact absurd rfl noBrace
  · cases readWord? input wordValues with
    | none => rfl
    | some found => rfl

theorem readValue_number {input : List Char} {result : Json × List Char} (fuel : Nat)
    (read : readNumber input = .ok result) : readValue (fuel + 1) input = .ok result := by
  obtain ⟨negative, digit, rest, rfl, decimal⟩ := readNumber_starts read
  have other : ∀ character : Char, character.isDigit = false → character ≠ '-' →
      (signText negative ++ digit :: rest).head? ≠ some character := by
    intro character none notMinus first
    cases negative with
    | true => exact notMinus (Option.some.inj first).symm
    | false =>
        cases first
        rw [none] at decimal
        cases decimal
  rw [readValue_plain fuel (other _ rfl (by decide)) (other _ rfl (by decide))
    (other _ rfl (by decide)), readWord?_number negative decimal]
  exact read

theorem integerText_eq (value : Int) :
    (toString value).toList = signText (decide (value < 0)) ++ Nat.toDigits 10 value.natAbs := by
  cases value with
  | ofNat value => simp [signText, Int.repr, Nat.repr, toString]
  | negSucc value => simp [signText, Int.repr, Nat.repr, toString]

theorem readNumber_toString {value : Int} {rest : List Char}
    (short : value.natAbs < 10 ^ digitLimit) (closes : Closes rest) :
    readNumber ((toString value).toList ++ rest) = .ok (.integer value, rest) := by
  have length : (Nat.toDigits 10 value.natAbs).length ≤ digitLimit :=
    (Nat.length_toDigits_le_iff (by decide) (by decide)).mpr short
  rw [integerText_eq, List.append_assoc,
    readNumber_integer (isLeading_toDigits value.natAbs) closes length, digitsValue_toDigits]
  have signed : Binary64.signed (decide (value < 0)) value.natAbs = value := by
    unfold Binary64.signed
    by_cases negative : value < 0
    · rw [decide_eq_true negative, if_pos rfl]
      omega
    · rw [decide_eq_false negative, if_neg (by simp)]
      omega
  rw [signed]

theorem readNumber_startsValue {input : List Char} {result : Json × List Char}
    (read : readNumber input = .ok result) : StartsValue input := by
  obtain ⟨negative, digit, rest, rfl, decimal⟩ := readNumber_starts read
  have other : ∀ character : Char, character.isDigit = false → digit ≠ character := by
    rintro character none rfl
    rw [none] at decimal
    cases decimal
  cases negative with
  | true => exact ⟨'-', digit :: rest, rfl, by decide, by decide, by decide, by decide⟩
  | false =>
      refine ⟨digit, rest, rfl, ?_, other _ rfl, other _ rfl, other _ rfl⟩
      simp [isGap, other ' ' rfl, other '\t' rfl, other '\n' rfl, other '\r' rfl]

theorem closes_nil : Closes [] := by simp [Closes]

theorem closes_of_gap {gap rest : List Char} (gaps : IsGapText gap) (closes : Closes rest) :
    Closes (gap ++ rest) := by
  cases gap with
  | nil => exact closes
  | cons first more =>
      rintro _ ⟨⟩
      have gap := gaps first List.mem_cons_self
      simp only [isGap, Bool.or_eq_true, beq_iff_eq] at gap
      rcases gap with ((rfl | rfl) | rfl) | rfl <;> decide

/-- A form starts as a value does. -/
theorem Writes.startsValue {value : Json} {text : List Char} (written : Writes escape value text)
    (tidy : IsTidy value) : StartsValue text := by
  cases written with
  | null => exact ⟨_, _, rfl, by decide, by decide, by decide, by decide⟩
  | boolean value =>
      cases value <;> exact ⟨_, _, rfl, by decide, by decide, by decide, by decide⟩
  | integer value =>
      have read := readNumber_toString (by simpa [IsTidy] using tidy) closes_nil
      rw [List.append_nil] at read
      exact readNumber_startsValue read
  | real value =>
      cases value with
      | notANumber => exact ⟨_, _, rfl, by decide, by decide, by decide, by decide⟩
      | infinite negative =>
          cases negative <;> exact ⟨_, _, rfl, by decide, by decide, by decide, by decide⟩
      | finite negative mantissa exponent =>
          have canonical : Binary64.IsCanonical mantissa exponent := by
            simpa [IsTidy, Binary64.Canonical] using tidy
          have read : readNumber (realText (.finite negative mantissa exponent) ++ []) = _ :=
            readNumber_text canonical closes_nil
          rw [List.append_nil] at read
          exact readNumber_startsValue read
  | text value => exact ⟨_, _, rfl, by decide, by decide, by decide, by decide⟩
  | torn text => exact ⟨_, _, rfl, by decide, by decide, by decide, by decide⟩
  | emptyArray => exact ⟨_, _, rfl, by decide, by decide, by decide, by decide⟩
  | array => exact ⟨_, _, rfl, by decide, by decide, by decide, by decide⟩
  | emptyObject => exact ⟨_, _, rfl, by decide, by decide, by decide, by decide⟩
  | object => exact ⟨_, _, rfl, by decide, by decide, by decide, by decide⟩

theorem StartsValue.one_le {text : List Char} (starts : StartsValue text) : 1 ≤ text.length := by
  obtain ⟨_, _, rfl, _⟩ := starts
  simp

theorem readValue_realText {value : Binary64} {rest : List Char} (fuel : Nat)
    (canonical : value.Canonical) (closes : Closes rest) :
    readValue (fuel + 1) (realText value ++ rest) = .ok (.real value, rest) := by
  cases value with
  | notANumber =>
      exact readValue_plain fuel (by simp [realText]) (by simp [realText]) (by simp [realText])
  | infinite negative =>
      cases negative <;>
        exact readValue_plain fuel (by simp [realText]) (by simp [realText]) (by simp [realText])
  | finite negative mantissa exponent => exact readValue_number fuel (readNumber_text canonical closes)

theorem setField_of_not_mem {name : String} {value : Json} {fields : List (String × Json)}
    (fresh : name ∉ fields.map Prod.fst) : setField name value fields = fields ++ [(name, value)] := by
  induction fields with
  | nil => rfl
  | cons field fields induction =>
      obtain ⟨key, old⟩ := field
      simp only [List.map_cons, List.mem_cons, not_or] at fresh
      rw [setField, if_neg (Ne.symm fresh.1), induction fresh.2, List.cons_append]

theorem not_mem_of_nodup {name : String} {value : Json} {known fields : List (String × Json)}
    (distinct : ((known ++ (name, value) :: fields).map Prod.fst).Nodup) :
    name ∉ known.map Prod.fst := by
  rw [List.map_append, List.map_cons] at distinct
  intro member
  exact (List.nodup_append.mp distinct).2.2 name member name List.mem_cons_self rfl

theorem closes_mark {gap : List Char} {mark : Char} {rest : List Char} (gaps : IsGapText gap)
    (isMark : mark = ',' ∨ mark = ']' ∨ mark = '\x7d') : Closes (gap ++ mark :: rest) := by
  apply closes_of_gap gaps
  rintro _ ⟨⟩
  rcases isMark with rfl | rfl | rfl <;> decide

theorem closes_comma (rest : List Char) : Closes (',' :: rest) :=
  closes_mark (fun _ member => absurd member List.not_mem_nil) (Or.inl rfl)

theorem skipGaps_bracket {gap rest : List Char} (gaps : IsGapText gap) :
    skipGaps (gap ++ ']' :: rest) = ']' :: rest := by
  rw [skipGaps_append gaps]
  rfl

theorem skipGaps_brace {gap rest : List Char} (gaps : IsGapText gap) :
    skipGaps (gap ++ '\x7d' :: rest) = '\x7d' :: rest := by
  rw [skipGaps_append gaps]
  rfl

theorem skipGaps_comma (rest : List Char) : skipGaps (',' :: rest) = ',' :: rest := rfl

theorem skipGaps_colon (rest : List Char) : skipGaps (':' :: rest) = ':' :: rest := rfl

theorem WritesItems.startsValue {values : List Json} {text : List Char}
    (written : WritesItems escape values text) (tidy : AreTidy values) : StartsValue text := by
  cases written with
  | last first =>
      obtain ⟨character, rest, rfl, facts⟩ := first.startsValue tidy.1
      exact ⟨character, _, rfl, facts⟩
  | more first =>
      obtain ⟨character, rest, rfl, facts⟩ := first.startsValue tidy.1
      exact ⟨character, _, rfl, facts⟩

theorem WritesFields.startsValue {fields : List (String × Json)} {text : List Char}
    (written : WritesFields escape fields text) : StartsValue text := by
  cases written with
  | last => exact ⟨_, _, rfl, by decide, by decide, by decide, by decide⟩
  | more => exact ⟨_, _, rfl, by decide, by decide, by decide, by decide⟩

mutual

/-- Every form of a value reads back. -/
theorem Writes.reads (escapes : Escapes escape) {value : Json} {text rest : List Char} {fuel : Nat}
    (written : Writes escape value text) (tidy : IsTidy value) (closes : Closes rest)
    (enough : 2 * text.length ≤ fuel) : readValue fuel (text ++ rest) = .ok (value, rest) := by
  have long := (written.startsValue tidy).one_le
  obtain ⟨fuel, rfl⟩ : ∃ less, fuel = less + 1 := ⟨fuel - 1, by omega⟩
  cases written with
  | null => exact readValue_plain fuel (by simp) (by simp) (by simp)
  | boolean value => cases value <;> exact readValue_plain fuel (by simp) (by simp) (by simp)
  | integer value =>
      exact readValue_number fuel (readNumber_toString (by simpa [IsTidy] using tidy) closes)
  | real value => exact readValue_realText fuel (by simpa [IsTidy] using tidy) closes
  | text value =>
      have size := length_le_codesText escapes (codes value.toList)
      have read := readText_codes escapes (isApart_codes value.toList) rest
        (by rw [quotedText] at enough; omega : (codes value.toList).length < fuel)
      simp only [quotedText, codesText, List.cons_append, List.append_assoc, List.nil_append,
        readValue, read, ofCodes_codes, String.ofList_toList]
  | torn text =>
      have size := length_le_codesText escapes text
      rw [IsTidy] at tidy
      have read := readText_codes escapes tidy.2 rest (by omega : text.length < fuel)
      simp only [codesText, List.cons_append, List.append_assoc, List.nil_append, readValue, read,
        ofCodes_torn tidy.1]
  | emptyArray => simp [readValue, skipGaps, isGap]
  | emptyObject => simp [readValue, skipGaps, isGap]
  | @array items gap inside gaps inner =>
      rw [IsTidy] at tidy
      have size : 2 * inside.length + 1 ≤ fuel := by
        simp only [List.length_cons, List.length_append] at enough
        omega
      have starts := inner.startsValue tidy
      have read := inner.reads escapes [] rest tidy size
      simp only [List.cons_append, List.append_assoc, readValue, skipGaps_append gaps,
        starts.skipGaps]
      split
      · rename_i closed
        exact absurd closed (starts.append_ne_bracket rest _)
      · rw [read]
        rfl
  | @object fields gap inside gaps inner =>
      rw [IsTidy] at tidy
      have size : 2 * inside.length + 1 ≤ fuel := by
        simp only [List.length_cons, List.length_append] at enough
        omega
      have starts := inner.startsValue
      have read := inner.reads escapes [] rest tidy.2 tidy.1.spelled tidy.1.distinct size
      simp only [List.cons_append, List.append_assoc, readValue, skipGaps_append gaps,
        starts.skipGaps]
      split
      · rename_i closed
        exact absurd closed (starts.append_ne_brace rest _)
      · rw [read]
        rfl

theorem WritesItems.reads (escapes : Escapes escape) {values : List Json} {text : List Char}
    {fuel : Nat} (written : WritesItems escape values text) (known : List Json) (rest : List Char)
    (tidy : AreTidy values) (enough : 2 * text.length + 1 ≤ fuel) :
    readItems fuel known (text ++ rest) = .ok (known.reverse ++ values, rest) := by
  obtain ⟨fuel, rfl⟩ : ∃ less, fuel = less + 1 := ⟨fuel - 1, by omega⟩
  cases written with
  | @last value form gap first gaps =>
      have size : 2 * form.length ≤ fuel := by
        simp only [List.length_append] at enough
        omega
      have read := first.reads escapes tidy.1
        (closes_mark gaps (.inr (.inl rfl)) : Closes (gap ++ ']' :: rest)) size
      simp only [List.append_assoc, List.cons_append, List.nil_append, readItems, read,
        skipGaps_bracket gaps]
      simp
  | @more value values form gap later first gaps others =>
      have long := (first.startsValue tidy.1).one_le
      have size : 2 * form.length ≤ fuel ∧ 2 * later.length + 1 ≤ fuel := by
        simp only [List.length_append, List.length_cons] at enough
        omega
      have read := first.reads escapes tidy.1
        (closes_comma (gap ++ (later ++ rest))) size.1
      have remaining := others.reads escapes (value :: known) rest tidy.2 size.2
      simp only [List.append_assoc, List.cons_append, readItems, read, skipGaps_comma,
        skipGaps_append gaps, (others.startsValue tidy.2).skipGaps, remaining]
      simp

theorem WritesFields.reads (escapes : Escapes escape) {fields : List (String × Json)}
    {text : List Char} {fuel : Nat} (written : WritesFields escape fields text)
    (known : List (String × Json)) (rest : List Char) (tidy : HaveTidyValues fields)
    (spelled : ∀ name ∈ fields.map Prod.fst, IsName name)
    (distinct : ((known ++ fields).map Prod.fst).Nodup) (enough : 2 * text.length + 1 ≤ fuel) :
    readFields fuel known (text ++ rest) = .ok (known ++ fields, rest) := by
  obtain ⟨fuel, rfl⟩ : ∃ less, fuel = less + 1 := ⟨fuel - 1, by omega⟩
  cases written with
  | @last name value form colon gap colons first gaps =>
      have isName := spelled name List.mem_cons_self
      have long := length_le_codesText escapes (codesOf name.toList)
      have size : 2 * form.length ≤ fuel ∧ (codesOf name.toList).length < fuel := by
        simp only [quotedName, List.length_append, List.length_cons] at enough
        omega
      have fresh := not_mem_of_nodup distinct
      have named := readText_codes escapes isName.apart
        (':' :: (colon ++ (form ++ (gap ++ '\x7d' :: rest)))) size.2
      have read := first.reads escapes tidy.1
        (closes_mark gaps (.inr (.inr rfl)) : Closes (gap ++ '\x7d' :: rest)) size.1
      simp only [quotedName, codesText, List.append_assoc, List.cons_append, List.nil_append,
        readFields, named, skipGaps_colon, skipGaps_append colons,
        (first.startsValue tidy.1).skipGaps, read, skipGaps_brace gaps, isName.spelled,
        setField_of_not_mem fresh]
  | @more name value fields form colon gap later colons first gaps others =>
      have isName := spelled name List.mem_cons_self
      have long := length_le_codesText escapes (codesOf name.toList)
      have size : 2 * form.length ≤ fuel ∧ (codesOf name.toList).length < fuel ∧
          2 * later.length + 1 ≤ fuel := by
        simp only [quotedName, List.length_append, List.length_cons] at enough
        omega
      have fresh := not_mem_of_nodup distinct
      have named := readText_codes escapes isName.apart
        (':' :: (colon ++ (form ++ ',' :: (gap ++ (later ++ rest))))) size.2.1
      have read := first.reads escapes tidy.1
        (closes_comma (gap ++ (later ++ rest))) size.1
      have remaining := others.reads escapes (known ++ [(name, value)]) rest tidy.2
        (fun other member => spelled other (List.mem_cons_of_mem _ member))
        (by simpa using distinct) size.2.2
      simp only [quotedName, codesText, List.append_assoc, List.cons_append, List.nil_append,
        readFields, named, skipGaps_colon, skipGaps_append colons,
        (first.startsValue tidy.1).skipGaps, read, skipGaps_comma, skipGaps_append gaps,
        others.startsValue.skipGaps, isName.spelled, setField_of_not_mem fresh, remaining]

end

theorem isGapText_space : IsGapText [' '] := by simp [IsGapText, isGap]

theorem isGapText_newline (level : Nat) : IsGapText (newline level) := by
  intro character member
  rcases List.mem_cons.mp member with rfl | member
  · rfl
  · rw [List.eq_of_mem_replicate member]
    rfl

mutual

theorem linesText_writes (level : Nat) :
    ∀ value, Writes escapedAscii value (linesText level value)
  | .null => .null
  | .boolean value => .boolean value
  | .integer value => .integer value
  | .real value => .real value
  | .text value => .text value
  | .torn codes => .torn codes
  | .array [] => .emptyArray
  | .array (item :: items) => by
      have inner := linesItems_writes (level + 1) (isGapText_newline level) (item :: items) (by simp)
      have whole := Writes.array (isGapText_newline (level + 1)) inner
      simpa only [linesText, List.cons_append, List.append_assoc] using whole
  | .object [] => .emptyObject
  | .object (field :: fields) => by
      have inner := linesFields_writes (level + 1) (isGapText_newline level) (field :: fields) (by simp)
      have whole := Writes.object (isGapText_newline (level + 1)) inner
      simpa only [linesText, List.cons_append, List.append_assoc] using whole

theorem linesItems_writes (level : Nat) {gap : List Char} (gaps : IsGapText gap) :
    ∀ items, items ≠ [] →
      WritesItems escapedAscii items (linesItems level items ++ (gap ++ [']']))
  | [], filled => absurd rfl filled
  | [item], _ => .last (linesText_writes level item) gaps
  | item :: next :: items, _ => by
      have rest := linesItems_writes level gaps (next :: items) (by simp)
      have whole := WritesItems.more (linesText_writes level item) (isGapText_newline level) rest
      simpa only [linesItems, List.cons_append, List.append_assoc] using whole

theorem linesFields_writes (level : Nat) {gap : List Char} (gaps : IsGapText gap) :
    ∀ fields, fields ≠ [] →
      WritesFields escapedAscii fields (linesFields level fields ++ (gap ++ ['\x7d']))
  | [], filled => absurd rfl filled
  | [(name, value)], _ => by
      have whole : WritesFields escapedAscii [(name, value)] _ :=
        .last isGapText_space (linesText_writes level value) gaps
      simpa only [linesFields, List.cons_append, List.append_assoc, List.nil_append] using whole
  | (name, value) :: next :: fields, _ => by
      have rest := linesFields_writes level gaps (next :: fields) (by simp)
      have whole : WritesFields escapedAscii ((name, value) :: next :: fields) _ :=
        .more isGapText_space (linesText_writes level value) (isGapText_newline level) rest
      simpa only [linesFields, List.cons_append, List.append_assoc, List.nil_append] using whole

end

theorem Writes.read (escapes : Escapes escape) {value : Json} {text : List Char}
    (written : Writes escape value text) (tidy : IsTidy value) :
    read (String.ofList text) = .ok value := by
  have starts := written.startsValue tidy
  have back := written.reads escapes tidy closes_nil
    (by omega : 2 * text.length ≤ 2 * text.length + 2)
  have gapless : skipGaps (text ++ []) = _ := starts.skipGaps
  rw [List.append_nil] at back gapless
  obtain ⟨first, rest, same, _, _, _, noMark⟩ := starts
  unfold Json.read readDocument
  rw [String.toList_ofList, gapless, back, if_neg]
  · rfl
  · rw [same]
    exact fun mark => noMark (Option.some.inj mark)

theorem read_pretty {value : Json} (tidy : IsTidy value) : read value.pretty = .ok value :=
  (linesText_writes 0 value).read escapes_ascii tidy

end Json

end Restyle
