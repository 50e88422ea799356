import Restyle.Proofs.Number.Decimals

/-!
# Numbers beyond the finite ones

The exponent that a rational rounds to is above a given one exactly when the
rational is at least `Binary64.edge`, the middle between the greatest number of
the given exponent and the next number.  So rounding gives an infinite number
exactly from the edge of the greatest exponent on.
-/

namespace Restyle.Binary64

variable {negative : Bool} {value : ℚ} {number : Binary64}

/-- The middle between the greatest number of an exponent and the next number. -/
def edge (exponent : Int) : ℚ := (2 ^ 53 - 1 / 2) * 2 ^ exponent

theorem four_mul_edge (exponent : Int) : 4 * edge exponent = edge (exponent + 2) := by
  rw [edge, edge, zpow_add₀ (by norm_num)]
  ring

theorem edge_positive (exponent : Int) : 0 < edge exponent :=
  mul_pos (by norm_num) (by positivity)

theorem edge_mono {lower upper : Int} (ordered : lower ≤ upper) : edge lower ≤ edge upper :=
  mul_le_mul_of_nonneg_left (zpow_le_zpow_right₀ (by norm_num) ordered) (by norm_num)

/-- A rational has reached an exponent when it is beyond the edges of all below. -/
theorem edge_le_of_lt {exponent bits : Int} (less : exponent < bits) (has : HasBits value bits) :
    edge exponent ≤ value := by
  have apart : (2 : ℚ) ^ (exponent + 1) ≤ 2 ^ bits := zpow_le_zpow_right₀ (by norm_num) less
  rw [zpow_add₀ (by norm_num), zpow_one] at apart
  have lower := (le_div_iff₀ (by positivity)).mp has.1
  have positive : (0 : ℚ) < 2 ^ exponent := by positivity
  unfold edge
  nlinarith

theorem lt_edge_of_lt {exponent bits : Int} (less : bits < exponent)
    (short : value < 2 ^ 53 * 2 ^ bits) : value < edge exponent := by
  have apart : (2 : ℚ) ^ (bits + 1) ≤ 2 ^ exponent := zpow_le_zpow_right₀ (by norm_num) less
  rw [zpow_add₀ (by norm_num), zpow_one] at apart
  have positive : (0 : ℚ) < 2 ^ exponent := by positivity
  unfold edge
  nlinarith

/-- Whether an exponent is above another exactly when a rational is at least the
edge of the other. -/
def HasExponent (value : ℚ) (exponent : Int) : Prop :=
  ∀ bound, leastExponent ≤ bound → bound ≤ greatestExponent →
    (bound < exponent ↔ edge bound ≤ value)

/-- Whether a number has the sign and the exponent that a rational rounds to. -/
structure IsRounded (negative : Bool) (value : ℚ) (number : Binary64) : Prop where
  canonical : number.Canonical
  reaches : ∃ mantissa exponent, HasExponent value exponent ∧
    number = if greatestExponent < exponent then .infinite negative
      else .finite negative mantissa exponent

theorem isRounded_zeroOf (negative : Bool) (small : value < edge leastExponent) :
    IsRounded negative value (zeroOf negative) := by
  refine ⟨canonical_zeroOf negative, 0, leastExponent, fun bound least _ => ?_, rfl⟩
  have below := edge_mono least
  exact iff_of_false (by omega) (not_le.mpr (by linarith))

/-- Rounding carries over to the next exponent exactly from the edge on. -/
theorem carries_iff {numerator denominator : Nat} {exponent : Int} (positive : 0 < denominator)
    (short : (numerator : ℚ) / denominator < 2 ^ 53 * 2 ^ exponent) :
    roundQuotient (scaled numerator denominator exponent).1
        (scaled numerator denominator exponent).2 = Nat.pow 2 53 ↔
      edge exponent ≤ (numerator : ℚ) / denominator := by
  obtain ⟨scaledPositive, scaledValue⟩ := scaled_eq numerator positive exponent
  rw [edge, ← le_div_iff₀ (by positivity), Nat.pow_eq]
  constructor
  · intro carry
    obtain ⟨_, upper⟩ := @roundQuotient_near (scaled numerator denominator exponent).1 _
      scaledPositive
    rw [scaledValue, carry] at upper
    push_cast at upper
    linarith
  · intro reached
    refine roundQuotient_of_value scaledPositive scaledValue ?_ ?_ ?_
    · push_cast
      exact reached
    · have bound := (div_lt_iff₀ (by positivity)).mpr short
      push_cast
      linarith
    · intro odd
      norm_num at odd

theorem isRounded_ofRatio (negative : Bool) (numerator : Nat) {denominator : Nat}
    (positive : 0 < denominator) :
    IsRounded negative ((numerator : ℚ) / denominator)
      (ofRatio negative numerator denominator) := by
  refine ⟨canonical_ofRatio negative numerator positive, ?_⟩
  rcases Nat.eq_zero_or_pos numerator with rfl | above
  · rw [ofRatio, if_pos rfl, Nat.cast_zero, zero_div]
    exact (isRounded_zeroOf negative (edge_positive leastExponent)).reaches
  · obtain ⟨bits, has, found⟩ := exponentOf_eq above positive
    generalize chosen : exponentOf numerator denominator = exponent at found
    have short : (numerator : ℚ) / denominator < 2 ^ 53 * 2 ^ exponent := by
      have power : (2 : ℚ) ^ bits ≤ 2 ^ exponent :=
        zpow_le_zpow_right₀ (by norm_num) (found ▸ le_max_left _ _)
      have bound := (div_lt_iff₀ (by positivity)).mp has.2
      nlinarith
    have lower : ∀ bound, leastExponent ≤ bound → bound < exponent →
        edge bound ≤ (numerator : ℚ) / denominator := by
      intro bound least less
      have same : exponent = bits := by omega
      exact edge_le_of_lt (same ▸ less) has
    -- The exponents below are passed, those above are not reached, and at the exponent
    -- itself it is the carry that decides.
    by_cases carry : roundQuotient (scaled numerator denominator exponent).1
        (scaled numerator denominator exponent).2 = Nat.pow 2 53
    · refine ⟨_, exponent + 1, fun bound least _ => ?_, ofRatio_of_carry above chosen carry⟩
      rcases lt_trichotomy bound exponent with less | rfl | more
      · exact iff_of_true (by omega) (lower bound least less)
      · exact iff_of_true (by omega) ((carries_iff positive short).mp carry)
      · exact iff_of_false (by omega) (not_le.mpr (lt_edge_of_lt more short))
    · refine ⟨_, exponent, fun bound least _ => ?_, ofRatio_of_round above chosen rfl carry⟩
      rcases lt_trichotomy bound exponent with less | rfl | more
      · exact iff_of_true less (lower bound least less)
      · exact iff_of_false (lt_irrefl _) (mt (carries_iff positive short).mpr carry)
      · exact iff_of_false (by omega) (not_le.mpr (lt_edge_of_lt more short))

theorem edge_greatest_le : edge greatestExponent ≤ 10 ^ (309 : Int) := by
  have powers : (2 : ℚ) ^ 53 * 2 ^ 971 ≤ 10 ^ 309 := by
    exact_mod_cast (by decide +kernel : 2 ^ 53 * 2 ^ 971 ≤ 10 ^ 309)
  have positive : (0 : ℚ) < 2 ^ 971 := by positivity
  have power : (2 : ℚ) ^ greatestExponent = 2 ^ 971 := zpow_natCast 2 971
  have limit : (10 : ℚ) ^ (309 : Int) = 10 ^ 309 := zpow_natCast 10 309
  rw [edge, power, limit]
  generalize (2 : ℚ) ^ 971 = unit at positive powers ⊢
  generalize (10 : ℚ) ^ 309 = ceiling at powers ⊢
  linarith

theorem lt_edge_least : (10 : ℚ) ^ (-330 : Int) < edge leastExponent := by
  have powers : (2 : ℚ) ^ 1074 ≤ 10 ^ 330 := by
    exact_mod_cast (by decide +kernel : 2 ^ 1074 ≤ 10 ^ 330)
  have power : (2 : ℚ) ^ leastExponent = (2 ^ 1074)⁻¹ := by
    rw [leastExponent, zpow_neg]
    exact congrArg _ (zpow_natCast 2 1074)
  have limit : (10 : ℚ) ^ (-330 : Int) = (10 ^ 330)⁻¹ := by
    rw [zpow_neg]
    exact congrArg _ (zpow_natCast 10 330)
  have ordered : ((10 : ℚ) ^ 330)⁻¹ ≤ (2 ^ 1074)⁻¹ := inv_anti₀ (by positivity) powers
  have positive : (0 : ℚ) < (2 ^ 1074)⁻¹ := by positivity
  rw [edge, power, limit]
  generalize ((2 : ℚ) ^ 1074)⁻¹ = unit at positive ordered ⊢
  generalize ((10 : ℚ) ^ 330)⁻¹ = floor at ordered ⊢
  linarith

theorem isRounded_ofDecimal (negative : Bool) (digits : Nat) (power : Int) :
    IsRounded negative ((digits : ℚ) * 10 ^ power) (ofDecimal negative digits power) := by
  unfold ofDecimal
  split
  · rename_i none
    rw [none, Nat.cast_zero, zero_mul]
    exact isRounded_zeroOf negative (edge_positive leastExponent)
  · rename_i some
    obtain ⟨atLeast, below⟩ := decimal_between power (Nat.pos_of_ne_zero some)
    dsimp only
    split
    · rename_i large
      refine ⟨trivial, 0, greatestExponent + 1, fun bound _ most => ?_, ?_⟩
      · have ordered : (10 : ℚ) ^ (309 : Int) ≤ 10 ^ (power + decimalLength digits - 1) :=
          zpow_le_zpow_right₀ (by norm_num) (by omega)
        exact iff_of_true (by omega)
          ((edge_mono most).trans (edge_greatest_le.trans (ordered.trans atLeast)))
      · rw [if_pos (by omega)]
    · split
      · rename_i small
        have ordered : (10 : ℚ) ^ (power + decimalLength digits) ≤ 10 ^ (-330 : Int) :=
          zpow_le_zpow_right₀ (by norm_num) (by omega)
        exact isRounded_zeroOf negative (below.trans_le (ordered.trans lt_edge_least.le))
      · split
        · rename_i fractional
          obtain ⟨size, rfl⟩ : ∃ size : Nat, power = -(size : Int) := ⟨power.natAbs, by omega⟩
          have same : (digits : ℚ) * 10 ^ (-(size : Int)) = digits / ((10 ^ size : Nat) : ℚ) := by
            rw [zpow_neg, zpow_natCast]
            push_cast
            rfl
          rw [same, Int.natAbs_neg, Int.natAbs_natCast, Nat.pow_eq]
          exact isRounded_ofRatio negative digits (by positivity)
        · rename_i whole
          obtain ⟨size, rfl⟩ : ∃ size : Nat, power = (size : Int) := ⟨power.natAbs, by omega⟩
          have same : (digits : ℚ) * 10 ^ (size : Int) =
              ((digits * 10 ^ size : Nat) : ℚ) / ((1 : Nat) : ℚ) := by
            rw [zpow_natCast]
            push_cast
            ring
          rw [same, Int.natAbs_natCast, Nat.pow_eq]
          exact isRounded_ofRatio negative _ (by decide)

theorem IsRounded.infinite (rounded : IsRounded negative value number)
    (beyond : edge greatestExponent ≤ value) : number = .infinite negative := by
  obtain ⟨_, mantissa, exponent, has, rfl⟩ := rounded
  rw [if_pos ((has greatestExponent (by decide) le_rfl).mpr beyond)]

theorem IsRounded.finite (rounded : IsRounded negative value number)
    (within : value < edge greatestExponent) :
    ∃ mantissa exponent, number = .finite negative mantissa exponent ∧
      IsCanonical mantissa exponent ∧ HasExponent value exponent := by
  obtain ⟨canonical, mantissa, exponent, has, rfl⟩ := rounded
  rw [if_neg (mt (has greatestExponent (by decide) le_rfl).mp (not_le.mpr within))] at canonical ⊢
  exact ⟨mantissa, exponent, rfl, canonical, has⟩

/-! ## Exact results that are rounded -/

variable {leftMantissa rightMantissa : Nat} {leftExponent rightExponent : Int}

theorem isRounded_mul (left right : Bool) :
    IsRounded (left != right)
      (leftMantissa * 2 ^ leftExponent * (rightMantissa * 2 ^ rightExponent))
      (mul (.finite left leftMantissa leftExponent)
        (.finite right rightMantissa rightExponent)) := by
  obtain ⟨leftPositive, leftValue⟩ := ratio_eq leftMantissa leftExponent
  obtain ⟨rightPositive, rightValue⟩ := ratio_eq rightMantissa rightExponent
  have exact := isRounded_ofRatio (left != right)
    ((ratio leftMantissa leftExponent).1 * (ratio rightMantissa rightExponent).1)
    (Nat.mul_pos leftPositive rightPositive)
  rw [Nat.cast_mul, Nat.cast_mul, mul_div_mul_comm, leftValue, rightValue] at exact
  exact exact

theorem isRounded_div (left right : Bool) (divides : 0 < rightMantissa) :
    IsRounded (left != right)
      (leftMantissa * 2 ^ leftExponent / (rightMantissa * 2 ^ rightExponent))
      (div (.finite left leftMantissa leftExponent)
        (.finite right rightMantissa rightExponent)) := by
  obtain ⟨leftPositive, leftValue⟩ := ratio_eq leftMantissa leftExponent
  obtain ⟨_, rightValue⟩ := ratio_eq rightMantissa rightExponent
  have above : 0 < (ratio rightMantissa rightExponent).1 := by
    by_contra zero
    have none : (ratio rightMantissa rightExponent).1 = 0 := by omega
    rw [none, Nat.cast_zero, zero_div] at rightValue
    have product : (0 : ℚ) < rightMantissa * 2 ^ rightExponent := by positivity
    linarith
  have exact := isRounded_ofRatio (left != right)
    ((ratio leftMantissa leftExponent).1 * (ratio rightMantissa rightExponent).2)
    (Nat.mul_pos leftPositive above)
  rw [Nat.cast_mul, Nat.cast_mul, ← div_div_div_eq, leftValue, rightValue] at exact
  rw [div, if_neg divides.ne']
  exact exact

theorem isRounded_add :
    IsRounded false (leftMantissa * 2 ^ leftExponent + rightMantissa * 2 ^ rightExponent)
      (add (.finite false leftMantissa leftExponent)
        (.finite false rightMantissa rightExponent)) := by
  obtain ⟨leftPositive, leftValue⟩ := ratio_eq leftMantissa leftExponent
  obtain ⟨rightPositive, rightValue⟩ := ratio_eq rightMantissa rightExponent
  have sum : exactSum (false, leftMantissa, leftExponent) (false, rightMantissa, rightExponent) =
      ((((ratio leftMantissa leftExponent).1 * (ratio rightMantissa rightExponent).2 +
          (ratio leftMantissa leftExponent).2 * (ratio rightMantissa rightExponent).1 : Nat) : Int),
        (ratio leftMantissa leftExponent).2 * (ratio rightMantissa rightExponent).2) := by
    simp only [exactSum, signed, Bool.false_eq_true, if_false]
    push_cast
    rw [mul_comm ((ratio rightMantissa rightExponent).1 : Int)]
  have exact := isRounded_ofRatio false
    ((ratio leftMantissa leftExponent).1 * (ratio rightMantissa rightExponent).2 +
      (ratio leftMantissa leftExponent).2 * (ratio rightMantissa rightExponent).1)
    (Nat.mul_pos leftPositive rightPositive)
  rw [Nat.cast_mul, Nat.cast_add, Nat.cast_mul, Nat.cast_mul,
    ← div_add_div _ _ (Nat.cast_ne_zero.mpr leftPositive.ne')
      (Nat.cast_ne_zero.mpr rightPositive.ne'), leftValue, rightValue] at exact
  simp only [add, sum]
  generalize (ratio leftMantissa leftExponent).1 * (ratio rightMantissa rightExponent).2 +
    (ratio leftMantissa leftExponent).2 * (ratio rightMantissa rightExponent).1 = total at exact ⊢
  rw [Int.natAbs_natCast, decide_eq_false (Int.not_lt.mpr (Int.natCast_nonneg total))]
  split
  · rename_i none
    rw [ofRatio, if_pos (Int.natCast_eq_zero.mp none)] at exact
    exact exact
  · exact exact

/-! ## Finite numbers and the edges -/

variable {mantissa : Nat} {exponent most : Int}

theorem IsCanonical.exponent_le (canonical : IsCanonical mantissa exponent) :
    exponent ≤ greatestExponent := by
  rcases canonical with ⟨_, rfl⟩ | ⟨_, _, _, most⟩
  · decide
  · exact most

/-- A number with at most a given exponent is below its edge by half a unit of the
last place. -/
theorem IsCanonical.add_le_edge (canonical : IsCanonical mantissa exponent)
    (ordered : exponent ≤ most) :
    (mantissa : ℚ) * 2 ^ exponent + 2 ^ (most - 1) ≤ edge most := by
  have bounded : mantissa + 1 ≤ 2 ^ 53 := by
    rcases canonical with ⟨small, _⟩ | ⟨_, small, _⟩ <;> omega
  have real : (mantissa : ℚ) + 1 ≤ 2 ^ 53 := by exact_mod_cast bounded
  have power : (2 : ℚ) ^ exponent ≤ 2 ^ most := zpow_le_zpow_right₀ (by norm_num) ordered
  have positive : (0 : ℚ) < 2 ^ exponent := by positivity
  rw [edge, zpow_sub₀ (by norm_num), zpow_one]
  nlinarith

theorem IsCanonical.lt_edge (canonical : IsCanonical mantissa exponent)
    (ordered : exponent ≤ most) : (mantissa : ℚ) * 2 ^ exponent < edge most :=
  (lt_add_of_pos_right _ (by positivity)).trans_le (canonical.add_le_edge ordered)

theorem IsCanonical.edge_le_iff (canonical : IsCanonical mantissa exponent)
    (least : leastExponent ≤ most) :
    edge most ≤ (mantissa : ℚ) * 2 ^ exponent ↔ most < exponent := by
  constructor
  · intro reached
    by_contra below
    exact not_lt.mpr reached (canonical.lt_edge (not_lt.mp below))
  · intro less
    rcases canonical with ⟨_, rfl⟩ | ⟨full, below, _⟩
    · omega
    · have positive : (0 : ℚ) < 2 ^ exponent := by positivity
      refine edge_le_of_lt less ⟨?_, ?_⟩
      · rw [mul_div_cancel_right₀ _ positive.ne']
        exact_mod_cast full
      · rw [mul_div_cancel_right₀ _ positive.ne']
        exact_mod_cast below

theorem HasExponent.edge_le_iff (has : HasExponent value exponent)
    (canonical : IsCanonical mantissa exponent) (least : leastExponent ≤ most)
    (greatest : most ≤ greatestExponent) :
    edge most ≤ (mantissa : ℚ) * 2 ^ exponent ↔ edge most ≤ value :=
  (canonical.edge_le_iff least).trans (has most least greatest)

end Restyle.Binary64
