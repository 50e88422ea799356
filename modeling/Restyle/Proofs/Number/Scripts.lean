import Mathlib.Data.List.Basic
import Restyle.Proofs.Json.Numerals
import Restyle.Proofs.Text.Trimming

/-!
# Numbers in the digits of any script

A digit of any script is read as the ASCII digit of its value.  So a number of
such digits, with a point among them or without, is read as the decimal that its
digits name.
-/

namespace Restyle

open Text

/-- The value of decimal digits of any script. -/
def digitsWorth (digits : List Char) : Nat :=
  digits.foldl (fun worth digit => worth * 10 + (digitValue? digit).getD 0) 0

variable {digit : Char} {digits part text : List Char}

/-! ## Single digits -/

theorem exists_ofNat_of_isDigit (isDigit : digit.isDigit = true) :
    ∃ value < 10, digit = Char.ofNat (0x30 + value) ∧ digit.toNat = 0x30 + value := by
  simp only [Char.isDigit, Bool.and_eq_true, decide_eq_true_eq] at isDigit
  have lower : 48 ≤ digit.toNat := isDigit.1
  have upper : digit.toNat ≤ 57 := isDigit.2
  refine ⟨digit.toNat - 48, by omega, ?_, by omega⟩
  rw [Nat.add_sub_cancel' lower, Char.ofNat_toNat]

/-- What the reader of numbers asks of an ASCII digit. -/
theorem digit_facts : ∀ value < 10,
    (Char.ofNat (0x30 + value)).isDigit = true ∧ (Char.ofNat (0x30 + value)).toNat - 0x30 = value ∧
      isPlainBlank (Char.ofNat (0x30 + value)) = false ∧
      Char.ofNat (0x30 + value) ∉ ['_', '-', '+'] ∧
      (Char.ofNat (0x30 + value)).toLower ∉ ['i', 'n'] := by decide

theorem isBlank_of_run {start : Nat} (zero : start ∈ digitZeros) (least : start ≤ digit.toNat)
    (most : digit.toNat < start + 10) : isBlank digit = false := by
  have apart : ∀ start ∈ digitZeros, ∀ range ∈ blankRanges,
      start + 10 ≤ range.1 ∨ range.2 < start := by decide +kernel
  apply inRanges_eq_false
  intro range member
  have gap := apart start zero range member
  omega

/-- A digit of any script is read as the ASCII digit of its value. -/
theorem exists_plainNumeral (decimal : isDecimal digit = true) :
    ∃ value < 10, digitValue? digit = some value ∧
      plainNumeral digit = Char.ofNat (0x30 + value) := by
  obtain ⟨value, found⟩ := Option.isSome_iff_exists.mp decimal
  unfold plainNumeral
  rw [found]
  unfold digitValue? at found
  split at found
  · split at found
    · rename_i isDigit
      obtain ⟨value, small, spelled, code⟩ := exists_ofNat_of_isDigit isDigit
      cases found
      refine ⟨value, small, congrArg some (by omega), ?_⟩
      rw [if_pos (by omega), spelled]
    · cases found
  · rename_i beyond
    obtain ⟨start, run, rfl⟩ := Option.map_eq_some_iff.mp found
    have within := List.find?_some run
    rw [Bool.and_eq_true, decide_eq_true_eq, decide_eq_true_eq] at within
    refine ⟨digit.toNat - start, by omega, rfl, ?_⟩
    rw [if_neg (by omega), isBlank_of_run (List.mem_of_find?_eq_some run) within.1 within.2]
    rfl

theorem isDigit_plainNumeral (decimal : isDecimal digit = true) :
    (plainNumeral digit).isDigit = true := by
  obtain ⟨value, small, _, plain⟩ := exists_plainNumeral decimal
  rw [plain]
  exact (digit_facts value small).1

theorem isDigit_plain (decimal : ∀ digit ∈ digits, isDecimal digit = true) :
    ∀ digit ∈ digits.map plainNumeral, digit.isDigit = true := by
  rintro _ member
  obtain ⟨digit, given, rfl⟩ := List.mem_map.mp member
  exact isDigit_plainNumeral (decimal digit given)

theorem digitsValue_plain (decimal : ∀ digit ∈ digits, isDecimal digit = true) :
    digitsValue (digits.map plainNumeral) = digitsWorth digits := by
  unfold digitsValue digitsWorth
  rw [List.foldl_map]
  apply List.foldl_ext
  intro worth digit member
  obtain ⟨value, small, found, plain⟩ := exists_plainNumeral (decimal digit member)
  rw [found, plain, (digit_facts value small).2.1]
  rfl

/-! ## Digits with a point -/

/-- Whether a text starts with an ASCII digit and has nothing but such digits and
points. -/
structure IsPointed (text : List Char) : Prop where
  first : ∃ digit rest, text = digit :: rest ∧ digit.isDigit = true
  plain : ∀ character ∈ text, character.isDigit = true ∨ character = '.'

namespace IsPointed

theorem spared (pointed : IsPointed text) :
    ∀ character ∈ text, isPlainBlank character = false ∧ character ≠ '_' := by
  intro character member
  rcases pointed.plain character member with isDigit | rfl
  · obtain ⟨value, small, rfl, _⟩ := exists_ofNat_of_isDigit isDigit
    obtain ⟨_, _, solid, unsigned, _⟩ := digit_facts value small
    exact ⟨solid, fun same => unsigned (by simp [same])⟩
  · decide

theorem takeSign_eq (pointed : IsPointed text) : takeSign text = (false, text) := by
  obtain ⟨digit, rest, rfl, isDigit⟩ := pointed.first
  obtain ⟨value, small, rfl, _⟩ := exists_ofNat_of_isDigit isDigit
  obtain ⟨_, _, _, unsigned, _⟩ := digit_facts value small
  unfold takeSign
  split
  · rename_i same
    exact absurd (List.cons.inj same).1 (fun same => unsigned (by simp [same]))
  · rename_i same
    exact absurd (List.cons.inj same).1 (fun same => unsigned (by simp [same]))
  · rfl

theorem readNamed?_eq (pointed : IsPointed text) (negative : Bool) :
    readNamed? negative text = none := by
  obtain ⟨digit, rest, rfl, isDigit⟩ := pointed.first
  obtain ⟨value, small, rfl, _⟩ := exists_ofNat_of_isDigit isDigit
  obtain ⟨_, _, _, _, unnamed⟩ := digit_facts value small
  have other : ∀ (name : String) (letter : Char), letter ∈ ['i', 'n'] →
      name.toList.head? = some letter →
        String.ofList ((Char.ofNat (0x30 + value) :: rest).map Char.toLower) ≠ name := by
    rintro _ letter member leads rfl
    rw [String.toList_ofList, List.map_cons, List.head?_cons] at leads
    exact unnamed (Option.some.inj leads ▸ member)
  unfold readNamed?
  split
  · rename_i same
    exact absurd same (other _ 'i' (by simp) rfl)
  · rename_i same
    exact absurd same (other _ 'i' (by simp) rfl)
  · rename_i same
    exact absurd same (other _ 'n' (by simp) rfl)
  · rfl

end IsPointed

theorem dropWhile_of_none {test : Char → Bool}
    (none : ∀ character ∈ text, test character = false) : text.dropWhile test = text := by
  cases text with
  | nil => rfl
  | cons character text => simp [none character (by simp)]

theorem ungrouped?_of_spared {previous : Char} (before : previous ≠ '_')
    (spared : ∀ character ∈ text, character ≠ '_') : ungrouped? previous text = some text := by
  induction text generalizing previous with
  | nil => simp [ungrouped?, before]
  | cons character text induction =>
      obtain ⟨first, others⟩ := List.forall_mem_cons.mp spared
      rw [ungrouped?, induction first others]
      · simp [before]
      · exact first

theorem readReal?_of_pointed (pointed : IsPointed (text.map plainNumeral)) :
    readReal? text = readDecimal? false (text.map plainNumeral) := by
  have solid : ∀ character ∈ text.map plainNumeral, isPlainBlank character = false :=
    fun character member => (pointed.spared character member).1
  have trimmed : plainNumber text = text.map plainNumeral := by
    unfold plainNumber
    dsimp only
    rw [dropWhile_of_none solid, dropWhile_of_none, List.reverse_reverse]
    intro character member
    exact solid character (List.mem_reverse.mp member)
  have grouped := ungrouped?_of_spared (by decide : ' ' ≠ '_')
    (fun character member => (pointed.spared character member).2)
  unfold readReal?
  rw [trimmed, grouped]
  simp only [pointed.takeSign_eq, pointed.readNamed?_eq]

theorem readDecimal?_digits (negative : Bool) (nonempty : digits ≠ [])
    (decimal : ∀ digit ∈ digits, digit.isDigit = true) :
    readDecimal? negative digits = some (.ofDecimal negative (digitsValue digits) 0) := by
  have ends : EndsDigits [] := nofun
  have whole := takeWhile_digits decimal ends
  have rest := dropWhile_digits decimal ends
  rw [List.append_nil] at whole rest
  have filled : digits.isEmpty = false := by simpa using nonempty
  simp [readDecimal?, whole, rest, filled, readExponent?]

theorem readDecimal?_point (negative : Bool) (nonempty : digits ≠ [])
    (decimal : ∀ digit ∈ digits, digit.isDigit = true)
    (fraction : ∀ digit ∈ part, digit.isDigit = true) :
    readDecimal? negative (digits ++ '.' :: part) =
      some (.ofDecimal negative (digitsValue (digits ++ part)) (-part.length)) := by
  have point : EndsDigits ('.' :: part) := by
    rintro _ ⟨⟩
    decide
  have ends : EndsDigits [] := nofun
  have whole := takeWhile_digits decimal point
  have afterWhole := dropWhile_digits decimal point
  have later := takeWhile_digits fraction ends
  have rest := dropWhile_digits fraction ends
  rw [List.append_nil] at later rest
  have filled : digits.isEmpty = false := by simpa using nonempty
  simp [readDecimal?, whole, afterWhole, later, rest, filled, readExponent?]

/-- Digits of any script are read as the decimal that they name. -/
theorem readReal?_digits (nonempty : digits ≠ [])
    (decimal : ∀ digit ∈ digits, isDecimal digit = true) :
    readReal? digits = some (.ofDecimal false (digitsWorth digits) 0) := by
  have plain := isDigit_plain decimal
  have present : digits.map plainNumeral ≠ [] := by simpa using nonempty
  have pointed : IsPointed (digits.map plainNumeral) := by
    obtain ⟨first, rest, spelled⟩ := List.exists_cons_of_ne_nil present
    exact ⟨⟨first, rest, spelled, plain first (by simp [spelled])⟩,
      fun character member => Or.inl (plain character member)⟩
  rw [readReal?_of_pointed pointed, readDecimal?_digits false present plain,
    digitsValue_plain decimal]

theorem readReal?_point (nonempty : digits ≠ [])
    (decimal : ∀ digit ∈ digits, isDecimal digit = true)
    (fraction : ∀ digit ∈ part, isDecimal digit = true) :
    readReal? (digits ++ '.' :: part) =
      some (.ofDecimal false (digitsWorth (digits ++ part)) (-part.length)) := by
  have plain := isDigit_plain decimal
  have later := isDigit_plain fraction
  have present : digits.map plainNumeral ≠ [] := by simpa using nonempty
  have spelled : (digits ++ '.' :: part).map plainNumeral =
      digits.map plainNumeral ++ '.' :: part.map plainNumeral := by
    rw [List.map_append, List.map_cons]
    rfl
  have pointed : IsPointed (digits.map plainNumeral ++ '.' :: part.map plainNumeral) := by
    obtain ⟨first, rest, given⟩ := List.exists_cons_of_ne_nil present
    refine ⟨⟨first, rest ++ '.' :: part.map plainNumeral, ?_, plain first (by simp [given])⟩, ?_⟩
    · rw [given, List.cons_append]
    · intro character member
      rcases List.mem_append.mp member with before | after
      · exact Or.inl (plain character before)
      · rcases List.mem_cons.mp after with rfl | after
        · exact Or.inr rfl
        · exact Or.inl (later character after)
  rw [readReal?_of_pointed (spelled ▸ pointed), spelled,
    readDecimal?_point false present plain later, ← List.map_append, digitsValue_plain,
    List.length_map]
  intro digit member
  exact (List.mem_append.mp member).elim (decimal digit) (fraction digit)

end Restyle
