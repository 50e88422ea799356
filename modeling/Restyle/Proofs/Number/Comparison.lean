import Restyle.Proofs.Json.Keys

/-!
# Comparing numbers

Finite numbers compare as the rationals that they stand for, so what is at least
one number is at least every lesser one.
-/

namespace Restyle.Binary64

theorem lt_finite_iff {left right : Bool} {leftMantissa rightMantissa : Nat}
    {leftExponent rightExponent : Int} :
    lt (.finite left leftMantissa leftExponent) (.finite right rightMantissa rightExponent) = true ↔
      worth left leftMantissa leftExponent < worth right rightMantissa rightExponent := by
  have leftPositive : (0 : ℚ) < (ratio leftMantissa leftExponent).2 :=
    Nat.cast_pos.mpr (ratio_positive _ _)
  have rightPositive : (0 : ℚ) < (ratio rightMantissa rightExponent).2 :=
    Nat.cast_pos.mpr (ratio_positive _ _)
  have negated : ∀ magnitude : Nat, signed (!right) magnitude = -signed right magnitude := by
    intro magnitude
    cases right <;> simp [signed]
  simp only [lt, exactSum, decide_eq_true_eq, negated, worth]
  rw [div_lt_div_iff₀ leftPositive rightPositive, ← @Int.cast_lt ℚ]
  push_cast
  rw [neg_mul, ← sub_eq_add_neg, sub_neg]

theorem le_finite_iff {left right : Bool} {leftMantissa rightMantissa : Nat}
    {leftExponent rightExponent : Int} :
    le (.finite left leftMantissa leftExponent) (.finite right rightMantissa rightExponent) = true ↔
      worth left leftMantissa leftExponent ≤ worth right rightMantissa rightExponent := by
  rw [le, Bool.or_eq_true, lt_finite_iff, eq_finite_iff]
  exact le_iff_lt_or_eq.symm

theorem le_trans {first second third : Binary64} (lower : first.le second = true)
    (upper : second.le third = true) : first.le third = true := by
  cases first with
  | notANumber => cases lower
  | infinite negative =>
      cases second with
      | notANumber => cases lower
      | infinite other => cases third <;> cases negative <;> cases other <;> simp_all [le, lt, eq]
      | finite => cases third <;> cases negative <;> simp_all [le, lt, eq]
  | finite =>
      cases second with
      | notANumber => cases lower
      | infinite other => cases third <;> cases other <;> simp_all [le, lt, eq]
      | finite =>
          cases third with
          | notANumber => cases upper
          | infinite other => simpa [le, lt, eq] using upper
          | finite => exact le_finite_iff.mpr ((le_finite_iff.mp lower).trans (le_finite_iff.mp upper))

end Restyle.Binary64
