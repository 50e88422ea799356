import Mathlib.Data.List.TakeWhile
import Restyle.Proofs.Number.Overflow
import Restyle.Proofs.Number.Scripts
import Restyle.Suggestion.Lengths

/-!
# Lengths beyond the finite numbers

The number of a length is taken four times or divided by four before it is rounded
to a step.  So a length has a step unless its number, or four times its number for
the units that are taken four times, is beyond the finite numbers.  That is
decided by the digits of the length alone.
-/

namespace Restyle.Suggestion

open Text Binary64

/-! ## The step of a number -/

/-- What the number of a length is multiplied with. -/
def LengthUnit.multiple : LengthUnit → Nat
  | .pixel => 1
  | .root => 4
  | .relative => 4

theorem four_eq : Binary64.ofInt 4 = .finite false (2 ^ 52) (-50) := by decide +kernel

theorem half_eq : Binary64.ofDecimal false 5 (-1) = .finite false (2 ^ 52) (-53) := by
  decide +kernel

theorem roundHalfUp_infinite : roundHalfUp (.infinite false) = .error .infiniteInteger := by
  rw [roundHalfUp, half_eq]
  rfl

theorem exists_roundHalfUp {mantissa : Nat} {exponent : Int}
    (canonical : IsCanonical mantissa exponent) :
    ∃ step, roundHalfUp (.finite false mantissa exponent) = .ok step := by
  have small : ((2 ^ 52 : Nat) : ℚ) * 2 ^ (-53 : Int) < 2 ^ (greatestExponent - 1) := by
    have whole : (1 : ℚ) ≤ 2 ^ (greatestExponent - 1) := one_le_zpow₀ (by norm_num) (by decide)
    exact lt_of_lt_of_le (by norm_num) whole
  obtain ⟨_, _, sum, _⟩ := isRounded_add.finite
    ((add_lt_add_right small _).trans_le (canonical.add_le_edge canonical.exponent_le))
  rw [roundHalfUp, half_eq, sum]
  exact ⟨_, rfl⟩

/-! ## Numbers in units of four -/

variable {value : ℚ} {number : Binary64} {mantissa : Nat} {exponent : Int}

theorem isRounded_mul_four :
    IsRounded false (4 * (mantissa * 2 ^ exponent))
      ((Binary64.finite false mantissa exponent).mul (.ofInt 4)) := by
  have exact := @isRounded_mul mantissa (2 ^ 52) exponent (-50) false false
  have four : ((2 ^ 52 : Nat) : ℚ) * 2 ^ (-50 : Int) = 4 := by norm_num
  rw [four, mul_comm] at exact
  rw [four_eq]
  exact exact

/-- Taking a number four times leads beyond the finite numbers exactly when taking
the rational four times does. -/
theorem beyond_four_iff (canonical : IsCanonical mantissa exponent)
    (has : HasExponent value exponent) :
    edge greatestExponent ≤ 4 * (mantissa * 2 ^ exponent) ↔ edge greatestExponent ≤ 4 * value := by
  -- Two exponents below the greatest the rational and the number that it rounds to
  -- are still beyond the same edges.
  have quarter : edge greatestExponent = 4 * edge 969 := (four_mul_edge 969).symm
  rw [quarter, mul_le_mul_iff_right₀ (by norm_num), mul_le_mul_iff_right₀ (by norm_num)]
  exact has.edge_le_iff canonical (by decide) (by decide)

theorem mul_four_of_beyond (rounded : IsRounded false value number)
    (beyond : edge greatestExponent ≤ 4 * value) :
    number.mul (.ofInt 4) = .infinite false := by
  by_cases large : edge greatestExponent ≤ value
  · rw [rounded.infinite large, four_eq]
    rfl
  · obtain ⟨mantissa, exponent, rfl, canonical, has⟩ := rounded.finite (not_le.mp large)
    exact isRounded_mul_four.infinite ((beyond_four_iff canonical has).mpr beyond)

theorem exists_mul_four (rounded : IsRounded false value number) (nonnegative : 0 ≤ value)
    (within : 4 * value < edge greatestExponent) :
    ∃ product power, number.mul (.ofInt 4) = .finite false product power ∧
      IsCanonical product power := by
  obtain ⟨mantissa, exponent, rfl, canonical, has⟩ := rounded.finite (by linarith)
  have below := not_le.mp (mt (beyond_four_iff canonical has).mp (not_le.mpr within))
  obtain ⟨product, power, same, known, _⟩ := isRounded_mul_four.finite below
  exact ⟨product, power, same, known⟩

theorem exists_div_four (canonical : IsCanonical mantissa exponent) :
    ∃ quotient power,
      (Binary64.finite false mantissa exponent).div (.ofInt 4) = .finite false quotient power ∧
        IsCanonical quotient power := by
  have exact := @isRounded_div mantissa (2 ^ 52) exponent (-50) false false (by decide)
  have four : ((2 ^ 52 : Nat) : ℚ) * 2 ^ (-50 : Int) = 4 := by norm_num
  rw [four] at exact
  have less : (mantissa : ℚ) * 2 ^ exponent / 4 < edge greatestExponent :=
    (div_le_self (by positivity) (by norm_num)).trans_lt
      (canonical.lt_edge canonical.exponent_le)
  obtain ⟨quotient, power, same, known, _⟩ := exact.finite less
  rw [four_eq]
  exact ⟨quotient, power, same, known⟩

/-- A length beyond the finite numbers has no step. -/
theorem lengthStep_of_beyond {unit : LengthUnit} (rounded : IsRounded false value number)
    (beyond : edge greatestExponent ≤ unit.multiple * value) :
    lengthStep number unit = .error .infiniteInteger := by
  cases unit with
  | pixel =>
      have infinite := rounded.infinite (by simpa [LengthUnit.multiple] using beyond)
      rw [lengthStep, infinite, four_eq]
      exact roundHalfUp_infinite
  | _ =>
      rw [lengthStep, mul_four_of_beyond rounded beyond]
      exact roundHalfUp_infinite

theorem exists_lengthStep {unit : LengthUnit} (rounded : IsRounded false value number)
    (nonnegative : 0 ≤ value) (within : unit.multiple * value < edge greatestExponent) :
    ∃ step, lengthStep number unit = .ok step := by
  cases unit with
  | pixel =>
      obtain ⟨mantissa, exponent, rfl, canonical, _⟩ :=
        rounded.finite (by simpa [LengthUnit.multiple] using within)
      obtain ⟨_, _, quotient, finite⟩ := exists_div_four canonical
      rw [lengthStep, quotient]
      exact exists_roundHalfUp finite
  | _ =>
      obtain ⟨_, _, product, finite⟩ := exists_mul_four rounded nonnegative within
      rw [lengthStep, product]
      exact exists_roundHalfUp finite

/-! ## The number of a length -/

/-- The digits of a number behind its point. -/
def decimalPlaces (number : List Char) : List Char := (number.dropWhile isDecimal).drop 1

/-- The rational that a number names. -/
def numberWorth (number : List Char) : ℚ :=
  digitsWorth (number.filter isDecimal) / 10 ^ (decimalPlaces number).length

theorem exists_of_readLength {value text : List Char} {unit : LengthUnit}
    (read : readLength? value = some (text, unit)) :
    ∃ whole, whole ≠ [] ∧ (∀ digit ∈ whole, isDecimal digit = true) ∧
      (text = whole ∨
        ∃ part, (∀ digit ∈ part, isDecimal digit = true) ∧ text = whole ++ '.' :: part) := by
  have decimal : ∀ text : List Char, ∀ digit ∈ text.takeWhile isDecimal, isDecimal digit = true :=
    fun text => List.all_eq_true.mp List.all_takeWhile
  unfold readLength? at read
  dsimp only at read
  split at read
  · cases read
  · rename_i filled
    refine ⟨_, by simpa using filled, decimal _, ?_⟩
    obtain ⟨_, _, same⟩ := Option.map_eq_some_iff.mp read
    obtain ⟨rfl, _⟩ := Prod.mk.inj same
    split
    · split
      · exact Or.inl rfl
      · exact Or.inr ⟨_, decimal _, rfl⟩
    · exact Or.inl rfl

theorem isRounded_of_readLength {value text : List Char} {unit : LengthUnit}
    (read : readLength? value = some (text, unit)) :
    ∃ number, readReal? text = some number ∧ IsRounded false (numberWorth text) number := by
  obtain ⟨whole, nonempty, decimal, rfl | ⟨part, fraction, rfl⟩⟩ := exists_of_readLength read
  · refine ⟨_, readReal?_digits nonempty decimal, ?_⟩
    have worth : numberWorth text = digitsWorth text * 10 ^ (0 : Int) := by
      rw [numberWorth, decimalPlaces, List.filter_eq_self.mpr decimal,
        List.dropWhile_eq_nil_iff.mpr decimal]
      simp
    rw [worth]
    exact isRounded_ofDecimal false _ _
  · refine ⟨_, readReal?_point nonempty decimal fraction, ?_⟩
    have worth : numberWorth (whole ++ '.' :: part) =
        digitsWorth (whole ++ part) * 10 ^ (-(part.length : Int)) := by
      have mark : isDecimal '.' = false := by decide
      rw [numberWorth, decimalPlaces, List.filter_append, List.filter_eq_self.mpr decimal,
        List.filter_cons_of_neg (by simp [mark]), List.filter_eq_self.mpr fraction,
        List.dropWhile_append_of_pos decimal, List.dropWhile_cons_of_neg (by simp [mark]),
        List.drop_one, List.tail_cons, zpow_neg, zpow_natCast, div_eq_mul_inv]
    rw [worth]
    exact isRounded_ofDecimal false _ _

/-! ## Classes without a suggestion -/

/-- The least integer that is beyond the finite numbers. -/
def overflowLimit : Nat := (2 ^ 54 - 1) * 2 ^ 970

/-- Whether the number of a length is so large that there is no step for it. -/
def lengthOverflows (value : List Char) : Bool :=
  match readLength? value with
  | none => false
  | some (text, unit) =>
      overflowLimit * 10 ^ (decimalPlaces text).length ≤
        unit.multiple * digitsWorth (text.filter isDecimal)

/-- Whether the length of an arbitrary class is so large. -/
def overflows (className : List Char) : Bool :=
  match readArbitrary? className with
  | none => false
  | some (_, value) => lengthOverflows value

theorem edge_greatest : edge greatestExponent = overflowLimit := by
  have unit : (2 : ℚ) ^ greatestExponent = 2 * 2 ^ 970 := by
    rw [← pow_succ']
    exact zpow_natCast 2 971
  rw [edge, overflowLimit, unit, Nat.cast_mul, Nat.cast_pow, Nat.cast_ofNat]
  generalize (2 : ℚ) ^ 970 = power
  norm_num
  ring

theorem lengthOverflows_iff {value text : List Char} {unit : LengthUnit}
    (read : readLength? value = some (text, unit)) :
    lengthOverflows value = true ↔ edge greatestExponent ≤ unit.multiple * numberWorth text := by
  rw [lengthOverflows, read, edge_greatest, numberWorth, ← mul_div_assoc,
    le_div_iff₀ (by positivity)]
  dsimp only
  rw [decide_eq_true_eq]
  exact_mod_cast Iff.rfl

theorem listed_of_named {property value : List Char} {step : String}
    (named : namedStep? property value = some step) :
    ∃ entry ∈ propertySteps, (String.ofList value, step) ∈ entry.2 := by
  obtain ⟨steps, listed, found⟩ := Option.bind_eq_some_iff.mp named
  obtain ⟨_, _, entries, _⟩ := List.lookup_eq_some_iff.mp listed
  obtain ⟨_, _, pairs, _⟩ := List.lookup_eq_some_iff.mp found
  exact ⟨(String.ofList property, steps), by simp [entries], by simp [pairs]⟩

/-- No value with a step of its own is such a length. -/
theorem lengthOverflows_of_named {property value : List Char} {step : String}
    (named : namedStep? property value = some step) : lengthOverflows value = false := by
  have moderate : ∀ entry ∈ propertySteps, ∀ pair ∈ entry.2,
      lengthOverflows pair.1.toList = false := by decide +kernel
  obtain ⟨entry, among, listed⟩ := listed_of_named named
  have small := moderate entry among _ listed
  rwa [String.toList_ofList] at small

theorem computedStep_of_overflows (property : List Char) {value : List Char}
    (large : lengthOverflows value = true) :
    computedStep property value = .error .infiniteInteger := by
  cases read : readLength? value with
  | none =>
      rw [lengthOverflows, read] at large
      cases large
  | some length =>
      obtain ⟨text, unit⟩ := length
      obtain ⟨number, known, rounded⟩ := isRounded_of_readLength read
      have beyond := (lengthOverflows_iff read).mp large
      unfold computedStep
      rw [read]
      dsimp only
      rw [known, Option.getD_some, lengthStep_of_beyond rounded beyond]
      rfl

theorem exists_computedStep (property : List Char) {value : List Char}
    (small : ¬ lengthOverflows value = true) :
    ∃ suggestion, computedStep property value = .ok suggestion := by
  unfold computedStep
  cases read : readLength? value with
  | none => exact ⟨_, rfl⟩
  | some length =>
      obtain ⟨text, unit⟩ := length
      obtain ⟨number, known, rounded⟩ := isRounded_of_readLength read
      have within := not_le.mp (mt (lengthOverflows_iff read).mpr small)
      have nonnegative : 0 ≤ numberWorth text := by
        unfold numberWorth
        positivity
      obtain ⟨step, made⟩ := exists_lengthStep rounded nonnegative within
      dsimp only
      rw [known, Option.getD_some, made]
      by_cases fits : 0 < step ∧ step ≤ 96
      · exact ⟨_, if_pos fits⟩
      · exact ⟨_, if_neg fits⟩

/-- A suggestion for an arbitrary class fails when its length is beyond the finite
numbers. -/
theorem scaleValue_of_overflows {className : List Char} (large : overflows className = true) :
    scaleValue className = .error .infiniteInteger := by
  rw [overflows] at large
  rw [scaleValue]
  cases read : readArbitrary? className with
  | none =>
      rw [read] at large
      cases large
  | some arbitrary =>
      have long : lengthOverflows arbitrary.2 = true := by
        rw [read] at large
        exact large
      dsimp only
      cases named : namedStep? arbitrary.1 arbitrary.2 with
      | none => exact computedStep_of_overflows arbitrary.1 long
      | some step =>
          rw [lengthOverflows_of_named named] at long
          cases long

theorem exists_scaleValue {className : List Char} (small : ¬ overflows className = true) :
    ∃ suggestion, scaleValue className = .ok suggestion := by
  rw [overflows] at small
  rw [scaleValue]
  cases read : readArbitrary? className with
  | none => exact ⟨_, rfl⟩
  | some arbitrary =>
      rw [read] at small
      dsimp only
      cases named : namedStep? arbitrary.1 arbitrary.2 with
      | none => exact exists_computedStep arbitrary.1 small
      | some step => exact ⟨_, rfl⟩

end Restyle.Suggestion
