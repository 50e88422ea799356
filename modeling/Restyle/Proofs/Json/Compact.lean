import Restyle.Proofs.Json.Forms

/-!
# Compact documents tell values apart

The compact form of a value can be cut off the front of a text in one way only,
as long as the text goes on with a mark or ends there.  So two values with one
compact form are equal.  Integers may have any length here, and objects several
fields of one name.
-/

namespace Restyle

namespace Json

/-- Whether a text can follow a value: it is empty or starts with a mark. -/
def Follows (rest : List Char) : Prop :=
  ∀ character, rest.head? = some character →
    character = ',' ∨ character = ']' ∨ character = '\x7d'

theorem follows_mark {mark : Char} (rest : List Char)
    (isMark : mark = ',' ∨ mark = ']' ∨ mark = '\x7d') : Follows (mark :: rest) := by
  intro character first
  cases first
  exact isMark

theorem Follows.closes {rest : List Char} (follows : Follows rest) : Closes rest := by
  intro character first
  rcases follows character first with rfl | rfl | rfl <;> decide

variable {left right value : Json} {rest other : List Char}

/-! ## Scalars -/

theorem compactText_of_key (isKey : value.isKey = true) :
    compactText value = scalarText escapedControl value := by
  cases value with
  | array items => cases isKey
  | object fields => cases isKey
  | _ => rfl

theorem writes_of_key (isKey : value.isKey = true) :
    Writes escapedControl value (compactText value) := by
  rw [compactText_of_key isKey]
  cases value with
  | null => exact .null
  | boolean value => exact .boolean value
  | integer value => exact .integer value
  | real value => exact .real value
  | text value => exact .text value
  | torn codes => exact .torn codes
  | array items => cases isKey
  | object fields => cases isKey

theorem readValue_of_key (isKey : value.isKey = true) (other : value.kind ≠ .integer)
    (canonical : IsLegible value) (follows : Follows rest) {fuel : Nat}
    (enough : 2 * (compactText value).length ≤ fuel) :
    readValue fuel (compactText value ++ rest) = .ok (value, rest) := by
  apply (writes_of_key isKey).reads escapes_control _ follows.closes enough
  cases value with
  | integer value => exact absurd rfl other
  | real value => exact canonical
  | torn codes => exact canonical.elim
  | array items => cases isKey
  | object fields => cases isKey
  | _ => trivial

theorem integerText_first (number : Int) :
    ∃ negative digit later, (toString number).toList = signText negative ++ digit :: later ∧
      digit.isDigit = true := by
  have leading := isLeading_toDigits number.natAbs
  obtain ⟨digit, later, digits⟩ := List.exists_cons_of_ne_nil leading.nonempty
  refine ⟨decide (number < 0), digit, later, ?_, ?_⟩
  · rw [integerText_eq, digits]
  · apply leading.decimal
    rw [digits]
    exact List.mem_cons_self

/-- Where an integer stands nothing else is read. -/
theorem kind_of_integer {number : Int} {fuel : Nat} {last : List Char} (follows : Follows rest)
    (read : readValue fuel ((toString number).toList ++ rest) = .ok (value, last)) :
    value.kind = .integer := by
  cases fuel with
  | zero => cases read
  | succ fuel =>
      obtain ⟨negative, digit, later, text, decimal⟩ := integerText_first number
      have start : (toString number).toList ++ rest = signText negative ++ digit :: (later ++ rest) := by
        rw [text, List.append_assoc]
        rfl
      have noWord : readWord? ((toString number).toList ++ rest) wordValues = none := by
        rw [start]
        exact readWord?_number negative decimal
      have plain : ∀ mark, mark.isDigit = false → mark ≠ '-' →
          ((toString number).toList ++ rest).head? ≠ some mark := by
        intro mark noDigit noMinus first
        rw [start] at first
        cases negative with
        | true => exact noMinus (Option.some.inj first).symm
        | false =>
            rw [← Option.some.inj first, decimal] at noDigit
            cases noDigit
      rw [readValue_plain fuel (plain '"' rfl (by decide)) (plain '[' rfl (by decide))
        (plain '\x7b' rfl (by decide)), noWord] at read
      simp only at read
      rw [integerText_eq, List.append_assoc,
        readNumber_digits (isLeading_toDigits _) follows.closes] at read
      split at read <;> cases read
      rfl

theorem integerText_cancel {number second : Int} (follows : Follows rest)
    (others : Follows other)
    (same : (toString number).toList ++ rest = (toString second).toList ++ other) :
    number = second ∧ rest = other := by
  rw [integerText_eq, integerText_eq, List.append_assoc, List.append_assoc] at same
  have signs := congrArg takeMinus same
  rw [takeMinus_signText _ (isLeading_toDigits _), takeMinus_signText _ (isLeading_toDigits _),
    Prod.mk.injEq] at signs
  obtain ⟨sign, unsigned⟩ := signs
  have parts := congrArg wholeDigits unsigned
  rw [wholeDigits_append (isLeading_toDigits _) follows.closes.endsDigits,
    wholeDigits_append (isLeading_toDigits _) others.closes.endsDigits, Prod.mk.injEq] at parts
  obtain ⟨digits, tails⟩ := parts
  have sizes := congrArg digitsValue digits
  rw [digitsValue_toDigits, digitsValue_toDigits] at sizes
  have negatives : number < 0 ↔ second < 0 := by simpa using sign
  exact ⟨by omega, tails⟩

theorem key_cancel (leftKey : left.isKey = true) (rightKey : right.isKey = true)
    (leftLegible : IsLegible left) (rightLegible : IsLegible right)
    (follows : Follows rest) (others : Follows other)
    (same : compactText left ++ rest = compactText right ++ other) : left = right ∧ rest = other := by
  obtain ⟨fuel, leftFuel, rightFuel⟩ : ∃ fuel, 2 * (compactText left).length ≤ fuel ∧
      2 * (compactText right).length ≤ fuel := ⟨_, le_max_left _ _, le_max_right _ _⟩
  by_cases leftInteger : left.kind = .integer
  · obtain ⟨number, rfl⟩ : ∃ number, left = .integer number := by
      cases left <;> first | exact ⟨_, rfl⟩ | cases leftInteger
    by_cases rightInteger : right.kind = .integer
    · obtain ⟨second, rfl⟩ : ∃ second, right = .integer second := by
        cases right <;> first | exact ⟨_, rfl⟩ | cases rightInteger
      obtain ⟨rfl, tails⟩ := integerText_cancel follows others same
      exact ⟨rfl, tails⟩
    · have read := readValue_of_key rightKey rightInteger rightLegible others rightFuel
      rw [← same] at read
      exact absurd (kind_of_integer follows read) rightInteger
  · have read := readValue_of_key leftKey leftInteger leftLegible follows leftFuel
    by_cases rightInteger : right.kind = .integer
    · obtain ⟨second, rfl⟩ : ∃ second, right = .integer second := by
        cases right <;> first | exact ⟨_, rfl⟩ | cases rightInteger
      rw [same] at read
      exact absurd (kind_of_integer others read) leftInteger
    · rw [same, readValue_of_key rightKey rightInteger rightLegible others rightFuel] at read
      cases read
      exact ⟨rfl, rfl⟩

theorem quotedName_cancel {name second : String} (isName : IsName name) (another : IsName second)
    (same : quotedName escapedControl name ++ rest = quotedName escapedControl second ++ other) :
    name = second ∧ rest = other := by
  simp only [quotedName, codesText, List.cons_append, List.append_assoc, List.cons.injEq, true_and,
    List.nil_append] at same
  obtain ⟨fuel, enough, sufficient⟩ : ∃ fuel, (Text.codesOf name.toList).length < fuel ∧
      (Text.codesOf second.toList).length < fuel :=
    ⟨(Text.codesOf name.toList).length + (Text.codesOf second.toList).length + 1, by omega,
      by omega⟩
  have read := readText_codes escapes_control isName.apart rest enough
  rw [same, readText_codes escapes_control another.apart other sufficient] at read
  simp only [Except.ok.injEq, Prod.mk.injEq] at read
  refine ⟨?_, read.2.symm⟩
  rw [← isName.spelled, ← read.1, another.spelled]

/-! ## Nested values -/

/-- Whether a character opens or closes an array or an object. -/
def IsBracket (character : Char) : Prop :=
  character = '[' ∨ character = ']' ∨ character = '\x7b' ∨ character = '\x7d'

theorem numeral_first {negative : Bool} {digit : Char} {text later : List Char}
    (numeral : text = signText negative ++ digit :: later) (decimal : digit.isDigit = true) :
    ∃ first rest, text = first :: rest ∧ ¬ IsBracket first := by
  cases negative with
  | true => exact ⟨'-', digit :: later, numeral, by simp [IsBracket]⟩
  | false =>
      refine ⟨digit, later, numeral, ?_⟩
      rintro (rfl | rfl | rfl | rfl) <;> cases decimal

theorem scalar_first (isKey : value.isKey = true) (canonical : IsLegible value) :
    ∃ first later, compactText value = first :: later ∧ ¬ IsBracket first := by
  cases value with
  | null => exact ⟨'n', "ull".toList, rfl, by simp [IsBracket]⟩
  | boolean value =>
      cases value with
      | true => exact ⟨'t', "rue".toList, rfl, by simp [IsBracket]⟩
      | false => exact ⟨'f', "alse".toList, rfl, by simp [IsBracket]⟩
  | integer value =>
      obtain ⟨negative, digit, later, numeral, decimal⟩ := integerText_first value
      exact numeral_first numeral decimal
  | real value =>
      cases value with
      | notANumber => exact ⟨'N', "aN".toList, rfl, by simp [IsBracket]⟩
      | infinite negative =>
          cases negative with
          | true => exact ⟨'-', "Infinity".toList, rfl, by simp [IsBracket]⟩
          | false => exact ⟨'I', "nfinity".toList, rfl, by simp [IsBracket]⟩
      | finite negative mantissa exponent =>
          have read : readNumber ((Binary64.finite negative mantissa exponent).text.toList ++ []) =
              .ok (.real (.finite negative mantissa exponent), []) :=
            readNumber_text canonical closes_nil
          obtain ⟨sign, digit, later, numeral, decimal⟩ := readNumber_starts read
          rw [List.append_nil] at numeral
          exact numeral_first numeral decimal
  | text value => exact ⟨_, _, rfl, by simp [IsBracket]⟩
  | torn codes => exact canonical.elim
  | array items => cases isKey
  | object fields => cases isKey

/-- A scalar can be cut off the front of a text in one way only. -/
theorem scalar_cancel (leftKey : left.isKey = true) (leftLegible : IsLegible left)
    (rightLegible : IsLegible right) (follows : Follows rest) (others : Follows other)
    (same : compactText left ++ rest = compactText right ++ other) :
    left = right ∧ rest = other := by
  cases rightKey : right.isKey with
  | true => exact key_cancel leftKey rightKey leftLegible rightLegible follows others same
  | false =>
      obtain ⟨first, later, text, plain⟩ := scalar_first leftKey leftLegible
      rw [text] at same
      cases right with
      | array items => exact absurd (Or.inl (List.cons.inj same).1) plain
      | object fields => exact absurd (Or.inr (Or.inr (Or.inl (List.cons.inj same).1))) plain
      | _ => cases rightKey

theorem compactText_ne (canonical : IsLegible value) {mark : Char}
    (closing : mark = ']' ∨ mark = '\x7d') : compactText value ++ rest ≠ mark :: other := by
  intro same
  cases isKey : value.isKey with
  | true =>
      obtain ⟨first, later, text, plain⟩ := scalar_first isKey canonical
      rw [text, List.cons_append] at same
      apply plain
      rw [(List.cons.inj same).1]
      exact closing.elim (fun here => Or.inr (Or.inl here)) (fun here => Or.inr (Or.inr (Or.inr here)))
  | false =>
      cases value with
      | array items => rcases closing with rfl | rfl <;> cases (List.cons.inj same).1
      | object fields => rcases closing with rfl | rfl <;> cases (List.cons.inj same).1
      | _ => cases isKey

/-- The items after the first one. -/
def moreItems : List Json → List Char
  | [] => []
  | items => ',' :: compactItems items

def moreFields : List (String × Json) → List Char
  | [] => []
  | fields => ',' :: compactFields fields

theorem compactItems_cons (item : Json) (items : List Json) :
    compactItems (item :: items) = compactText item ++ moreItems items := by
  cases items with
  | nil => simp [compactItems, moreItems]
  | cons second items => simp [compactItems, moreItems]

theorem compactFields_cons (name : String) (value : Json) (fields : List (String × Json)) :
    compactFields ((name, value) :: fields) =
      quotedName escapedControl name ++ ':' :: (compactText value ++ moreFields fields) := by
  cases fields with
  | nil => simp [compactFields, moreFields]
  | cons second fields => simp [compactFields, moreFields]

theorem follows_moreItems (items : List Json) (rest : List Char) :
    Follows (moreItems items ++ ']' :: rest) := by
  cases items with
  | nil => exact follows_mark rest (by decide)
  | cons item items => exact follows_mark _ (by decide)

theorem follows_moreFields (fields : List (String × Json)) (rest : List Char) :
    Follows (moreFields fields ++ '\x7d' :: rest) := by
  cases fields with
  | nil => exact follows_mark rest (by decide)
  | cons field fields => exact follows_mark _ (by decide)

mutual

/-- A value can be cut off the front of a text in one way only. -/
theorem compactText_cancel : ∀ (left : Json) {right : Json} {rest other : List Char},
    IsLegible left → IsLegible right → Follows rest → Follows other →
      compactText left ++ rest = compactText right ++ other → left = right ∧ rest = other
  | .null, _, _, _, _, legible, follows, others, same =>
      scalar_cancel rfl trivial legible follows others same
  | .boolean _, _, _, _, _, legible, follows, others, same =>
      scalar_cancel rfl trivial legible follows others same
  | .integer _, _, _, _, _, legible, follows, others, same =>
      scalar_cancel rfl trivial legible follows others same
  | .real _, _, _, _, canonical, legible, follows, others, same =>
      scalar_cancel rfl canonical legible follows others same
  | .text _, _, _, _, _, legible, follows, others, same =>
      scalar_cancel rfl trivial legible follows others same
  | .torn _, _, _, _, legible, _, _, _, _ => legible.elim
  | .array items, right, rest, other, leftLegible, rightLegible, follows, others, same => by
      cases right with
      | array others =>
          simp only [compactText, List.cons_append, List.append_assoc, List.cons.injEq, true_and,
            List.nil_append] at same
          obtain ⟨rfl, tails⟩ := compactItems_cancel items leftLegible rightLegible same
          exact ⟨rfl, tails⟩
      | object fields => cases (List.cons.inj same).1
      | _ =>
          obtain ⟨equal, tails⟩ := scalar_cancel rfl rightLegible leftLegible others follows same.symm
          exact ⟨equal.symm, tails.symm⟩
  | .object fields, right, rest, other, leftLegible, rightLegible, follows, others, same => by
      cases right with
      | object others =>
          simp only [compactText, List.cons_append, List.append_assoc, List.cons.injEq, true_and,
            List.nil_append] at same
          obtain ⟨rfl, tails⟩ := compactFields_cancel fields leftLegible rightLegible same
          exact ⟨rfl, tails⟩
      | array items => cases (List.cons.inj same).1
      | _ =>
          obtain ⟨equal, tails⟩ := scalar_cancel rfl rightLegible leftLegible others follows same.symm
          exact ⟨equal.symm, tails.symm⟩

theorem compactItems_cancel : ∀ (items : List Json) {others : List Json} {rest other : List Char},
    AreLegible items → AreLegible others →
      compactItems items ++ ']' :: rest = compactItems others ++ ']' :: other →
        items = others ∧ rest = other
  | [], [], rest, other, _, _, same => ⟨rfl, (List.cons.inj same).2⟩
  | [], second :: others, rest, other, _, legible, same => by
      rw [compactItems_cons, List.append_assoc] at same
      exact absurd same.symm (compactText_ne legible.1 (Or.inl rfl))
  | item :: items, [], rest, other, legible, _, same => by
      rw [compactItems_cons, List.append_assoc] at same
      exact absurd same (compactText_ne legible.1 (Or.inl rfl))
  | item :: items, second :: others, rest, other, leftLegible, rightLegible, same => by
      rw [compactItems_cons, compactItems_cons, List.append_assoc, List.append_assoc] at same
      obtain ⟨rfl, tails⟩ := compactText_cancel item leftLegible.1 rightLegible.1
        (follows_moreItems items rest) (follows_moreItems others other) same
      cases items with
      | nil =>
          cases others with
          | nil => exact ⟨rfl, (List.cons.inj tails).2⟩
          | cons third others => cases (List.cons.inj tails).1
      | cons third items =>
          cases others with
          | nil => cases (List.cons.inj tails).1
          | cons fourth others =>
              obtain ⟨same, ends⟩ := compactItems_cancel (third :: items) leftLegible.2 rightLegible.2
                (List.cons.inj tails).2
              rw [same]
              exact ⟨rfl, ends⟩

theorem compactFields_cancel :
    ∀ (fields : List (String × Json)) {others : List (String × Json)} {rest other : List Char},
      HaveLegible fields → HaveLegible others →
        compactFields fields ++ '\x7d' :: rest = compactFields others ++ '\x7d' :: other →
          fields = others ∧ rest = other
  | [], [], rest, other, _, _, same => ⟨rfl, (List.cons.inj same).2⟩
  | [], (name, value) :: others, rest, other, _, legible, same => by
      rw [compactFields_cons] at same
      cases (List.cons.inj same).1
  | (name, value) :: fields, [], rest, other, legible, _, same => by
      rw [compactFields_cons] at same
      cases (List.cons.inj same).1
  | (name, value) :: fields, (second, found) :: others, rest, other, leftLegible, rightLegible,
      same => by
      rw [compactFields_cons, compactFields_cons, List.append_assoc, List.append_assoc] at same
      obtain ⟨rfl, afterName⟩ := quotedName_cancel (isName_of_isPlainName leftLegible.1.1)
        (isName_of_isPlainName rightLegible.1.1) same
      simp only [List.cons_append, List.cons.injEq, true_and, List.append_assoc] at afterName
      obtain ⟨rfl, tails⟩ := compactText_cancel value leftLegible.1.2 rightLegible.1.2
        (follows_moreFields fields rest) (follows_moreFields others other) afterName
      cases fields with
      | nil =>
          cases others with
          | nil => exact ⟨rfl, (List.cons.inj tails).2⟩
          | cons third others => cases (List.cons.inj tails).1
      | cons third fields =>
          cases others with
          | nil => cases (List.cons.inj tails).1
          | cons fourth others =>
              obtain ⟨same, ends⟩ := compactFields_cancel (third :: fields) leftLegible.2
                rightLegible.2 (List.cons.inj tails).2
              rw [same]
              exact ⟨rfl, ends⟩

end

theorem compactText_injective (leftLegible : IsLegible left)
    (rightLegible : IsLegible right) (same : compactText left = compactText right) :
    left = right := by
  have ends : Follows [] := by
    intro character first
    cases first
  refine (compactText_cancel left leftLegible rightLegible ends ends ?_).1
  rw [List.append_nil, List.append_nil, same]

end Json

end Restyle
