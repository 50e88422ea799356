import Restyle.Json.Printer
import Restyle.Json.Reader

/-!
# Numerals of documents read back

A numeral is read as far as it goes, so that what follows it must not continue
it.  Here a numeral is put together from its parts, a sign, the digits before
the point, those after it and an exponent, and each part is read back.
-/

namespace Restyle

/-- Whether a text does not continue a numeral. -/
def Closes (rest : List Char) : Prop :=
  ∀ character, rest.head? = some character →
    character.isDigit = false ∧ character ≠ '.' ∧ character ≠ 'e' ∧ character ≠ 'E'

/-- Whether a text does not continue a row of digits. -/
def EndsDigits (rest : List Char) : Prop :=
  ∀ character, rest.head? = some character → character.isDigit = false

theorem Closes.endsDigits {rest : List Char} (closes : Closes rest) : EndsDigits rest :=
  fun character first => (closes character first).1

/-- Digits as they stand before a point: a single zero, or digits that start
with none. -/
structure IsLeading (digits : List Char) : Prop where
  nonempty : digits ≠ []
  decimal : ∀ digit ∈ digits, digit.isDigit = true
  first : digits = ['0'] ∨ digits.head? ≠ some '0'

theorem digitsValue_eq (digits : List Char) : digitsValue digits = Nat.ofDigitChars 10 digits 0 := by
  unfold digitsValue Nat.ofDigitChars
  congr 1
  funext value digit
  rw [Nat.mul_comm]
  rfl

@[simp]
theorem digitsValue_toDigits (value : Nat) : digitsValue (Nat.toDigits 10 value) = value := by
  rw [digitsValue_eq, Nat.ofDigitChars_ten_toDigits]

theorem head?_toDigits_ne_zero {value : Nat} (positive : 0 < value) :
    (Nat.toDigits 10 value).head? ≠ some '0' := by
  induction value using Nat.strongRecOn with
  | ind value induction =>
      rw [Nat.toDigits_eq_if (by decide)]
      split
      · rename_i small
        have digits : ∀ digit < 10, 0 < digit → ([Nat.digitChar digit]).head? ≠ some '0' := by
          decide
        exact digits value small positive
      · rename_i large
        have shorter := induction (value / 10) (by omega) (by omega)
        cases digits : Nat.toDigits 10 (value / 10) with
        | nil => exact absurd digits Nat.toDigits_ne_nil
        | cons head tail =>
            rw [digits] at shorter
            exact shorter

theorem isLeading_toDigits (value : Nat) : IsLeading (Nat.toDigits 10 value) where
  nonempty := Nat.toDigits_ne_nil
  decimal := fun _ member => Nat.isDigit_of_mem_toDigits (by decide) (by decide) member
  first := by
    rcases Nat.eq_zero_or_pos value with rfl | positive
    · exact Or.inl (Nat.toDigits_zero 10)
    · exact Or.inr (head?_toDigits_ne_zero positive)

theorem takeWhile_digits {digits rest : List Char} (decimal : ∀ digit ∈ digits, digit.isDigit = true)
    (ends : EndsDigits rest) : (digits ++ rest).takeWhile Char.isDigit = digits := by
  rw [List.takeWhile_append_of_pos decimal]
  cases rest with
  | nil => simp
  | cons character rest => simp [ends character rfl]

theorem dropWhile_digits {digits rest : List Char} (decimal : ∀ digit ∈ digits, digit.isDigit = true)
    (ends : EndsDigits rest) : (digits ++ rest).dropWhile Char.isDigit = rest := by
  rw [List.dropWhile_append_of_pos decimal]
  cases rest with
  | nil => simp
  | cons character rest => simp [ends character rfl]

namespace Json

variable {digits fraction scale rest : List Char}

theorem wholeDigits_append (leading : IsLeading digits) (ends : EndsDigits rest) :
    wholeDigits (digits ++ rest) = (digits, rest) := by
  rcases leading.first with rfl | first
  · rfl
  · have general : wholeDigits (digits ++ rest) =
        ((digits ++ rest).takeWhile Char.isDigit, (digits ++ rest).dropWhile Char.isDigit) := by
      unfold wholeDigits
      split
      · rename_i later whole
        obtain ⟨head, tail, rfl⟩ := List.exists_cons_of_ne_nil leading.nonempty
        cases whole
        exact absurd rfl first
      · rfl
    rw [general, takeWhile_digits leading.decimal ends, dropWhile_digits leading.decimal ends]

theorem fractionDigits_append (nonempty : fraction ≠ [])
    (decimal : ∀ digit ∈ fraction, digit.isDigit = true) (ends : EndsDigits rest) :
    fractionDigits ('.' :: (fraction ++ rest)) = (fraction, rest) := by
  simp only [fractionDigits, takeWhile_digits decimal ends, dropWhile_digits decimal ends]
  rw [if_neg (by simpa using nonempty)]

theorem fractionDigits_none (other : rest.head? ≠ some '.') : fractionDigits rest = ([], rest) := by
  unfold fractionDigits
  split
  · simp at other
  · rfl

theorem exponentPart_append (negative : Bool) (nonempty : scale ≠ [])
    (decimal : ∀ digit ∈ scale, digit.isDigit = true) (ends : EndsDigits rest) :
    exponentPart ('e' :: (if negative then '-' else '+') :: (scale ++ rest)) =
      (some (Binary64.signed negative (digitsValue scale)), rest) := by
  have filled : scale.isEmpty = false := by simpa using nonempty
  cases negative <;>
    simp [exponentPart, takeSign, takeWhile_digits decimal ends, dropWhile_digits decimal ends,
      filled]

theorem exponentPart_none (small : rest.head? ≠ some 'e') (large : rest.head? ≠ some 'E') :
    exponentPart rest = (none, rest) := by
  unfold exponentPart
  split
  · rename_i mark later
    have neither : (mark == 'e' || mark == 'E') = false := by
      simp only [List.head?_cons, ne_eq, Option.some.injEq] at small large
      simp [small, large]
    rw [neither]
    simp
  · rfl

/-- A sign before digits. -/
def signText (negative : Bool) : List Char := if negative then ['-'] else []

theorem takeMinus_signText (negative : Bool) (leading : IsLeading digits) :
    takeMinus (signText negative ++ (digits ++ rest)) = (negative, digits ++ rest) := by
  cases negative with
  | true => rfl
  | false =>
      obtain ⟨head, tail, rfl⟩ := List.exists_cons_of_ne_nil leading.nonempty
      have decimal := leading.decimal head List.mem_cons_self
      simp only [signText, Bool.false_eq_true, if_false, List.nil_append, List.cons_append]
      unfold takeMinus
      split
      · rename_i later whole
        cases whole
        exact absurd decimal (by decide)
      · rfl

/-- What digits alone are read as. -/
theorem readNumber_digits {negative : Bool} (leading : IsLeading digits) (closes : Closes rest) :
    readNumber (signText negative ++ (digits ++ rest)) =
      if digitLimit < digits.length then .error (.tooLong digits.length)
      else .ok (.integer (Binary64.signed negative (digitsValue digits)), rest) := by
  have filled : digits.isEmpty = false := by simpa using leading.nonempty
  have noFraction : fractionDigits rest = ([], rest) :=
    fractionDigits_none fun point => (closes '.' point).2.1 rfl
  have noExponent : exponentPart rest = (none, rest) :=
    exponentPart_none (fun mark => (closes 'e' mark).2.2.1 rfl)
      (fun mark => (closes 'E' mark).2.2.2 rfl)
  unfold readNumber
  simp only [takeMinus_signText negative leading, wholeDigits_append leading closes.endsDigits,
    filled, noFraction, noExponent, List.isEmpty_nil, Option.isNone_none, Bool.and_self, if_true,
    if_false, Bool.false_eq_true]

theorem readNumber_integer {negative : Bool} (leading : IsLeading digits) (closes : Closes rest)
    (short : digits.length ≤ digitLimit) :
    readNumber (signText negative ++ (digits ++ rest)) =
      .ok (.integer (Binary64.signed negative (digitsValue digits)), rest) := by
  rw [readNumber_digits leading closes, if_neg (Nat.not_lt.mpr short)]

/-- The parts of a numeral: the digits before the point and after it, and the
exponent with its sign. -/
structure Numeral where
  digits : List Char
  fraction : List Char := []
  exponent : Option (Bool × List Char) := none

namespace Numeral

/-- The digits after the point, with the point. -/
def fractionText (fraction : List Char) : List Char :=
  if fraction.isEmpty then [] else '.' :: fraction

def exponentText : Option (Bool × List Char) → List Char
  | none => []
  | some (negative, power) => 'e' :: (if negative then '-' else '+') :: power

def text (numeral : Numeral) : List Char :=
  numeral.digits ++ (fractionText numeral.fraction ++ exponentText numeral.exponent)

/-- All digits of a numeral as one number. -/
def mantissa (numeral : Numeral) : Nat := digitsValue (numeral.digits ++ numeral.fraction)

/-- The power of ten that the mantissa counts. -/
def power (numeral : Numeral) : Int :=
  (numeral.exponent.map fun part => Binary64.signed part.1 (digitsValue part.2)).getD 0 -
    numeral.fraction.length

/-- Whether the parts are those of a numeral that is no integer. -/
structure IsReal (numeral : Numeral) : Prop where
  leading : IsLeading numeral.digits
  decimal : ∀ digit ∈ numeral.fraction, digit.isDigit = true
  powerDigits : ∀ sign power, numeral.exponent = some (sign, power) →
    power ≠ [] ∧ ∀ digit ∈ power, digit.isDigit = true
  marked : numeral.fraction ≠ [] ∨ numeral.exponent.isSome = true

end Numeral

open Numeral in
/-- A numeral with a point or an exponent reads as the number nearest to the
decimal it stands for. -/
theorem readNumber_numeral {negative : Bool} {numeral : Numeral} (isReal : numeral.IsReal)
    (closes : Closes rest) :
    readNumber (signText negative ++ (numeral.text ++ rest)) =
      .ok (.real (Binary64.ofDecimal negative numeral.mantissa numeral.power), rest) := by
  obtain ⟨digits, fraction, exponent⟩ := numeral
  obtain ⟨leading, decimal, powerDigits, marked⟩ := isReal
  dsimp only at leading decimal powerDigits marked
  have filled : digits.isEmpty = false := by simpa using leading.nonempty
  have endsExponent : EndsDigits (exponentText exponent ++ rest) := by
    cases exponent with
    | none => exact closes.endsDigits
    | some part =>
        intro character first
        cases first
        decide
  have exponentRead : exponentPart (exponentText exponent ++ rest) =
      (exponent.map fun part => Binary64.signed part.1 (digitsValue part.2), rest) := by
    cases exponent with
    | none =>
        exact exponentPart_none (fun mark => (closes 'e' mark).2.2.1 rfl)
          (fun mark => (closes 'E' mark).2.2.2 rfl)
    | some part =>
        obtain ⟨sign, power⟩ := part
        obtain ⟨nonempty, decimal⟩ := powerDigits sign power rfl
        exact exponentPart_append sign nonempty decimal closes.endsDigits
  have fractionRead : EndsDigits (fractionText fraction ++ (exponentText exponent ++ rest)) ∧
      fractionDigits (fractionText fraction ++ (exponentText exponent ++ rest)) =
        (fraction, exponentText exponent ++ rest) := by
    cases fraction with
    | nil =>
        refine ⟨endsExponent, fractionDigits_none ?_⟩
        cases exponent with
        | none => exact fun point => (closes '.' point).2.1 rfl
        | some part => exact fun point => by cases point
    | cons first later =>
        refine ⟨?_, fractionDigits_append (by simp) decimal endsExponent⟩
        intro character head
        cases head
        decide
  have real : (fraction.isEmpty && (exponent.map fun part =>
      Binary64.signed part.1 (digitsValue part.2)).isNone) = false := by
    rcases marked with nonempty | present
    · have : fraction.isEmpty = false := by simpa using nonempty
      simp [this]
    · cases exponent with
      | none => cases present
      | some part => simp
  unfold readNumber
  simp only [Numeral.text, List.append_assoc, takeMinus_signText negative leading,
    wholeDigits_append leading fractionRead.1, filled, fractionRead.2, exponentRead, real,
    if_false, Bool.false_eq_true]
  rfl

end Json

end Restyle
