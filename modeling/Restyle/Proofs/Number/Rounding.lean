import Mathlib.Algebra.Order.Field.Power
import Mathlib.Data.Nat.Cast.Order.Field
import Mathlib.Tactic.FieldSimp
import Mathlib.Tactic.Linarith
import Mathlib.Tactic.Positivity
import Mathlib.Tactic.Ring
import Restyle.Number.Decimal

/-!
# Rounding to binary numbers

The number that a rational rounds to is known from the interval it lies in.
`Binary64.ReadsAs` is that interval for a mantissa and an exponent, said in
rationals, and rounding a rational of the interval gives the number.
-/

namespace Restyle

/-- A quotient at most half a unit from a number, and from an odd number less,
rounds to it. -/
theorem roundQuotient_eq {numerator denominator value : Nat} (positive : 0 < denominator)
    (lower : 2 * (value * denominator) ≤ 2 * numerator + denominator)
    (upper : 2 * numerator ≤ 2 * (value * denominator) + denominator)
    (strict : value % 2 = 1 → 2 * (value * denominator) < 2 * numerator + denominator ∧
      2 * numerator < 2 * (value * denominator) + denominator) :
    roundQuotient numerator denominator = value := by
  have parts := Nat.div_add_mod numerator denominator
  have bound := Nat.mod_lt numerator positive
  rw [Nat.mul_comm] at parts
  have whole : numerator / denominator = value ∨ numerator / denominator + 1 = value := by
    have atMost : numerator / denominator ≤ value := by
      apply Nat.le_of_lt_succ
      rw [Nat.div_lt_iff_lt_mul positive, Nat.succ_mul]
      omega
    have atLeast : value ≤ numerator / denominator + 1 := by
      rw [← Nat.add_div_right _ positive, Nat.le_div_iff_mul_le positive]
      omega
    omega
  unfold roundQuotient
  dsimp only
  rcases whole with same | below
  · rw [same] at parts ⊢
    by_cases less : 2 * (numerator % denominator) < denominator
    · rw [if_pos less]
    · rw [if_neg less, if_neg (by omega)]
      have even : value % 2 = 0 := by
        by_contra odd
        have bounds := strict (by omega)
        omega
      rw [if_pos even]
  · have product : value * denominator = numerator / denominator * denominator + denominator := by
      rw [← below, Nat.succ_mul]
    rw [if_neg (by omega)]
    by_cases more : denominator < 2 * (numerator % denominator)
    · rw [if_pos more]
      exact below
    · rw [if_neg more]
      have even : value % 2 = 0 := by
        by_contra odd
        have bounds := strict (by omega)
        omega
      rw [if_neg (by omega)]
      exact below

namespace Binary64

/-- Scaling divides by the power of two. -/
theorem scaled_eq (numerator : Nat) {denominator : Nat} (positive : 0 < denominator)
    (exponent : Int) :
    0 < (scaled numerator denominator exponent).2 ∧
      ((scaled numerator denominator exponent).1 : ℚ) /
          (scaled numerator denominator exponent).2 =
        (numerator : ℚ) / denominator / (2 : ℚ) ^ exponent := by
  have nonzero : (denominator : ℚ) ≠ 0 := by exact_mod_cast positive.ne'
  unfold scaled
  by_cases negative : exponent < 0
  · rw [if_pos negative]
    refine ⟨positive, ?_⟩
    obtain ⟨size, rfl⟩ : ∃ size : Nat, exponent = -(size : Int) :=
      ⟨exponent.natAbs, by omega⟩
    simp only [Int.natAbs_neg, Int.natAbs_natCast, Nat.pow_eq, Nat.cast_mul, Nat.cast_pow,
      Nat.cast_ofNat, zpow_neg, zpow_natCast]
    field_simp
  · rw [if_neg negative]
    obtain ⟨size, rfl⟩ : ∃ size : Nat, exponent = (size : Int) := ⟨exponent.natAbs, by omega⟩
    simp only [Int.natAbs_natCast, Nat.pow_eq, Nat.cast_mul, Nat.cast_pow, Nat.cast_ofNat,
      zpow_natCast]
    refine ⟨Nat.mul_pos positive (by positivity), ?_⟩
    field_simp

/-- The bits of a quotient up to one. -/
theorem quotient_between {numerator denominator : Nat} (above : 0 < numerator)
    (positive : 0 < denominator) :
    (2 : ℚ) ^ ((numerator.log2 : Int) - denominator.log2 - 1) < (numerator : ℚ) / denominator ∧
      (numerator : ℚ) / denominator < (2 : ℚ) ^ ((numerator.log2 : Int) - denominator.log2 + 1) := by
  have numeratorLow : ((2 : ℚ) ^ numerator.log2) ≤ numerator := by
    exact_mod_cast Nat.log2_self_le above.ne'
  have numeratorHigh : (numerator : ℚ) < (2 : ℚ) ^ (numerator.log2 + 1) := by
    exact_mod_cast Nat.lt_log2_self
  have denominatorLow : ((2 : ℚ) ^ denominator.log2) ≤ denominator := by
    exact_mod_cast Nat.log2_self_le positive.ne'
  have denominatorHigh : (denominator : ℚ) < (2 : ℚ) ^ (denominator.log2 + 1) := by
    exact_mod_cast Nat.lt_log2_self
  have denominatorPositive : (0 : ℚ) < denominator := by exact_mod_cast positive
  constructor
  · rw [lt_div_iff₀ denominatorPositive]
    calc (2 : ℚ) ^ ((numerator.log2 : Int) - denominator.log2 - 1) * denominator
        < (2 : ℚ) ^ ((numerator.log2 : Int) - denominator.log2 - 1) *
            (2 : ℚ) ^ (denominator.log2 + 1) :=
          mul_lt_mul_of_pos_left denominatorHigh (by positivity)
      _ = (2 : ℚ) ^ numerator.log2 := by
          rw [← zpow_natCast, ← zpow_natCast, ← zpow_add₀ (by norm_num)]
          congr 1
          push_cast
          ring
      _ ≤ numerator := numeratorLow
  · rw [div_lt_iff₀ denominatorPositive]
    calc (numerator : ℚ) < (2 : ℚ) ^ (numerator.log2 + 1) := numeratorHigh
      _ = (2 : ℚ) ^ ((numerator.log2 : Int) - denominator.log2 + 1) *
            (2 : ℚ) ^ denominator.log2 := by
          rw [← zpow_natCast, ← zpow_natCast, ← zpow_add₀ (by norm_num)]
          congr 1
          push_cast
          ring
      _ ≤ (2 : ℚ) ^ ((numerator.log2 : Int) - denominator.log2 + 1) * denominator :=
          mul_le_mul_of_nonneg_left denominatorLow (by positivity)

/-- A rational has 53 significant bits at an exponent. -/
def HasBits (value : ℚ) (exponent : Int) : Prop :=
  (2 : ℚ) ^ 52 ≤ value / (2 : ℚ) ^ exponent ∧ value / (2 : ℚ) ^ exponent < (2 : ℚ) ^ 53

theorem HasBits.unique {value : ℚ} {first second : Int} (one : HasBits value first)
    (other : HasBits value second) : first = second := by
  have step : ∀ {low high : Int}, HasBits value low → HasBits value high → high ≤ low := by
    intro low high lowBits highBits
    by_contra greater
    have doubled : (2 : ℚ) ^ high * 2 ^ 52 < 2 ^ low * 2 ^ 53 := by
      have lower := (le_div_iff₀ (by positivity)).mp highBits.1
      have upper := (div_lt_iff₀ (by positivity)).mp lowBits.2
      nlinarith
    have apart : (2 : ℚ) ^ (low + 1) ≤ (2 : ℚ) ^ high :=
      zpow_le_zpow_right₀ (by norm_num) (by omega)
    rw [zpow_add₀ (by norm_num), zpow_one] at apart
    nlinarith
  exact le_antisymm (step other one) (step one other)

theorem exponentOf_eq {numerator denominator : Nat} (above : 0 < numerator)
    (positive : 0 < denominator) :
    ∃ exponent, HasBits ((numerator : ℚ) / denominator) exponent ∧
      exponentOf numerator denominator = max exponent leastExponent := by
  obtain ⟨low, high⟩ := quotient_between above positive
  unfold exponentOf
  dsimp only
  generalize bits : (numerator.log2 : Int) - denominator.log2 - 52 = guess
  obtain ⟨scaledPositive, scaledValue⟩ := scaled_eq numerator positive guess
  have scaledReal : (0 : ℚ) < (scaled numerator denominator guess).2 := by
    exact_mod_cast scaledPositive
  have floor : (2 : ℚ) ^ 51 < (numerator : ℚ) / denominator / (2 : ℚ) ^ guess := by
    have total : ((51 : Nat) : Int) + guess = (numerator.log2 : Int) - denominator.log2 - 1 := by
      rw [← bits]
      push_cast
      ring
    rw [lt_div_iff₀ (by positivity), ← zpow_natCast, ← zpow_add₀ (by norm_num), total]
    exact low
  have ceiling : (numerator : ℚ) / denominator / (2 : ℚ) ^ guess < (2 : ℚ) ^ 53 := by
    have total : ((53 : Nat) : Int) + guess = (numerator.log2 : Int) - denominator.log2 + 1 := by
      rw [← bits]
      push_cast
      ring
    rw [div_lt_iff₀ (by positivity), ← zpow_natCast, ← zpow_add₀ (by norm_num), total]
    exact high
  have compared : (scaled numerator denominator guess).1 <
      (scaled numerator denominator guess).2 * Nat.pow 2 52 ↔
        (numerator : ℚ) / denominator / (2 : ℚ) ^ guess < (2 : ℚ) ^ 52 := by
    rw [← scaledValue, div_lt_iff₀ scaledReal, mul_comm]
    norm_cast
  by_cases short : (scaled numerator denominator guess).1 <
      (scaled numerator denominator guess).2 * Nat.pow 2 52
  · rw [if_pos short]
    refine ⟨guess - 1, ?_, rfl⟩
    have less := compared.mp short
    unfold HasBits
    have half : (numerator : ℚ) / denominator / (2 : ℚ) ^ (guess - 1) =
        (numerator : ℚ) / denominator / (2 : ℚ) ^ guess * 2 := by
      rw [zpow_sub₀ (by norm_num), zpow_one]
      field_simp
    rw [half]
    constructor
    · linarith
    · linarith
  · rw [if_neg short]
    refine ⟨guess, ⟨?_, ceiling⟩, rfl⟩
    by_contra less
    exact short (compared.mpr (not_le.mp less))

theorem roundQuotient_near {numerator denominator : Nat} (positive : 0 < denominator) :
    (numerator : ℚ) / denominator - 1 / 2 ≤ roundQuotient numerator denominator ∧
      (roundQuotient numerator denominator : ℚ) ≤ (numerator : ℚ) / denominator + 1 / 2 := by
  have real : (0 : ℚ) < denominator := by exact_mod_cast positive
  have parts := Nat.div_add_mod numerator denominator
  have bound := Nat.mod_lt numerator positive
  have close : 2 * numerator ≤ 2 * (denominator * roundQuotient numerator denominator) + denominator ∧
      2 * (denominator * roundQuotient numerator denominator) ≤ 2 * numerator + denominator := by
    unfold roundQuotient
    dsimp only
    split
    · omega
    · split
      · rw [Nat.mul_succ]
        omega
      · split
        · omega
        · rw [Nat.mul_succ]
          omega
  have lower : (2 : ℚ) * numerator ≤
      2 * (denominator * roundQuotient numerator denominator) + denominator := by
    exact_mod_cast close.1
  have upper : (2 : ℚ) * (denominator * roundQuotient numerator denominator) ≤
      2 * numerator + denominator := by
    exact_mod_cast close.2
  constructor
  · rw [sub_le_iff_le_add, div_le_iff₀ real]
    linarith
  · rw [← sub_le_iff_le_add, le_div_iff₀ real]
    linarith

theorem roundQuotient_of_value {numerator denominator target : Nat} {value : ℚ}
    (positive : 0 < denominator) (same : (numerator : ℚ) / denominator = value)
    (lower : (target : ℚ) - 1 / 2 ≤ value) (upper : value ≤ target + 1 / 2)
    (strict : target % 2 = 1 → (target : ℚ) - 1 / 2 < value ∧ value < target + 1 / 2) :
    roundQuotient numerator denominator = target := by
  have real : (0 : ℚ) < denominator := by exact_mod_cast positive
  have product : (numerator : ℚ) = value * denominator := by
    rw [← same]
    field_simp
  apply roundQuotient_eq positive
  · have bound : (2 : ℚ) * (target * denominator) ≤ 2 * numerator + denominator := by
      rw [product]
      nlinarith
    exact_mod_cast bound
  · have bound : (2 : ℚ) * numerator ≤ 2 * (target * denominator) + denominator := by
      rw [product]
      nlinarith
    exact_mod_cast bound
  · intro odd
    obtain ⟨below, above⟩ := strict odd
    constructor
    · have bound : (2 : ℚ) * (target * denominator) < 2 * numerator + denominator := by
        rw [product]
        nlinarith
      exact_mod_cast bound
    · have bound : (2 : ℚ) * numerator < 2 * (target * denominator) + denominator := by
        rw [product]
        nlinarith
      exact_mod_cast bound

/-- A mantissa and an exponent as rounding gives them: 53 bits, or fewer at the
least exponent. -/
def IsCanonical (mantissa : Nat) (exponent : Int) : Prop :=
  (mantissa < 2 ^ 52 ∧ exponent = leastExponent) ∨
    (2 ^ 52 ≤ mantissa ∧ mantissa < 2 ^ 53 ∧ leastExponent ≤ exponent ∧
      exponent ≤ greatestExponent)

/-- How far below a number the rationals reach that read as it, in units of its
last place: half of one, or a quarter where the places below are half as wide. -/
def reachBelow (mantissa : Nat) (exponent : Int) : ℚ :=
  if mantissa = 2 ^ 52 ∧ leastExponent < exponent then 1 / 4 else 1 / 2

/-- Whether a rational is nearest to a number; the ends of the interval go to the
even mantissa. -/
structure ReadsAs (mantissa : Nat) (exponent : Int) (value : ℚ) : Prop where
  lower : (mantissa : ℚ) - reachBelow mantissa exponent ≤ value / 2 ^ exponent
  upper : value / 2 ^ exponent ≤ mantissa + 1 / 2
  strict : mantissa % 2 = 1 →
    (mantissa : ℚ) - reachBelow mantissa exponent < value / 2 ^ exponent ∧
      value / 2 ^ exponent < mantissa + 1 / 2

theorem reachBelow_le (mantissa : Nat) (exponent : Int) : reachBelow mantissa exponent ≤ 1 / 2 := by
  unfold reachBelow
  split <;> norm_num

/-- The exponent of a rational below 53 bits is less. -/
theorem HasBits.lt {value : ℚ} {bits exponent : Int} (has : HasBits value bits)
    (short : value / 2 ^ exponent < 2 ^ 52) : bits < exponent := by
  by_contra atLeast
  have power : (2 : ℚ) ^ exponent ≤ 2 ^ bits := zpow_le_zpow_right₀ (by norm_num) (by omega)
  have lower := (le_div_iff₀ (by positivity)).mp has.1
  have upper := (div_lt_iff₀ (by positivity)).mp short
  nlinarith

theorem ofRatio_of_round {negative : Bool} {numerator denominator mantissa : Nat} {exponent : Int}
    (above : 0 < numerator) (found : exponentOf numerator denominator = exponent)
    (rounded : roundQuotient (scaled numerator denominator exponent).1
      (scaled numerator denominator exponent).2 = mantissa)
    (kept : mantissa ≠ Nat.pow 2 53) :
    ofRatio negative numerator denominator =
      if greatestExponent < exponent then .infinite negative
      else .finite negative mantissa exponent := by
  -- The exponent and the powers are kept closed, or the powers would be counted
  -- out.
  rw [ofRatio, found, if_neg above.ne']
  generalize Nat.pow 2 53 = limit at kept ⊢
  generalize Nat.pow 2 52 = half
  simp only [rounded, kept, if_false]

theorem ofRatio_of_carry {negative : Bool} {numerator denominator : Nat} {exponent : Int}
    (above : 0 < numerator) (found : exponentOf numerator denominator = exponent)
    (rounded : roundQuotient (scaled numerator denominator exponent).1
      (scaled numerator denominator exponent).2 = Nat.pow 2 53) :
    ofRatio negative numerator denominator =
      if greatestExponent < exponent + 1 then .infinite negative
      else .finite negative (Nat.pow 2 52) (exponent + 1) := by
  rw [ofRatio, found, if_neg above.ne']
  generalize Nat.pow 2 53 = limit at rounded ⊢
  generalize Nat.pow 2 52 = half
  simp only [rounded, if_true]

/-- Below a power of two a number that reads as it is at most a quarter away. -/
theorem ReadsAs.below_power {exponent : Int} {value : ℚ}
    (reads : ReadsAs (2 ^ 52) exponent value) (above : leastExponent < exponent) :
    (2 : ℚ) ^ 52 - 1 / 4 ≤ value / 2 ^ exponent := by
  have bound := reads.lower
  rw [reachBelow, if_pos ⟨rfl, above⟩] at bound
  exact_mod_cast bound

theorem div_zpow_pred (value : ℚ) (exponent : Int) :
    value / 2 ^ (exponent - 1) = value / 2 ^ exponent * 2 := by
  rw [zpow_sub₀ (by norm_num), zpow_one]
  field_simp

theorem IsCanonical.lt {mantissa : Nat} {exponent : Int}
    (canonical : IsCanonical mantissa exponent) : mantissa < 2 ^ 53 := by
  rcases canonical with ⟨small, _⟩ | ⟨_, bound, _⟩ <;> omega

theorem IsCanonical.inRange {mantissa : Nat} {exponent : Int}
    (canonical : IsCanonical mantissa exponent) :
    leastExponent ≤ exponent ∧ exponent ≤ greatestExponent := by
  rcases canonical with ⟨_, rfl⟩ | ⟨_, _, low, high⟩
  · decide
  · exact ⟨low, high⟩

section

variable {negative : Bool} {numerator denominator mantissa : Nat} {exponent : Int}

theorem ReadsAs.above (nonzero : 0 < mantissa)
    (reads : ReadsAs mantissa exponent ((numerator : ℚ) / denominator)) : 0 < numerator := by
  have reach := reachBelow_le mantissa exponent
  have least : (1 : ℚ) ≤ mantissa := by exact_mod_cast nonzero
  by_contra zero
  have none : numerator = 0 := by omega
  have lower := reads.lower
  rw [none] at lower
  norm_num at lower
  linarith

/-- A rational that has 53 bits at the exponent of the number, or any at the
least exponent, rounds to the number at once. -/
theorem ReadsAs.ofRatio_of_exponentOf (positive : 0 < denominator) (nonzero : 0 < mantissa)
    (canonical : IsCanonical mantissa exponent)
    (reads : ReadsAs mantissa exponent ((numerator : ℚ) / denominator))
    (found : exponentOf numerator denominator = exponent) :
    ofRatio negative numerator denominator = .finite negative mantissa exponent := by
  have reach := reachBelow_le mantissa exponent
  have narrow := canonical.lt
  obtain ⟨scaledPositive, scaledValue⟩ := scaled_eq numerator positive exponent
  have rounded : roundQuotient (scaled numerator denominator exponent).1
      (scaled numerator denominator exponent).2 = mantissa := by
    apply roundQuotient_of_value scaledPositive scaledValue
    · linarith [reads.lower]
    · exact reads.upper
    · intro odd
      obtain ⟨below, beyond⟩ := reads.strict odd
      exact ⟨by linarith, beyond⟩
  rw [ofRatio_of_round (reads.above nonzero) found rounded (by rw [Nat.pow_eq]; omega),
    if_neg (not_lt.mpr canonical.inRange.2)]

/-- Just below a power of two the bits are taken one exponent lower, and
rounding carries over to the power. -/
theorem ReadsAs.ofRatio_of_below (positive : 0 < denominator)
    (reads : ReadsAs (2 ^ 52) exponent ((numerator : ℚ) / denominator))
    (inRange : leastExponent < exponent ∧ exponent ≤ greatestExponent)
    (below : (numerator : ℚ) / denominator / 2 ^ exponent < 2 ^ 52)
    (found : exponentOf numerator denominator = exponent - 1) :
    ofRatio negative numerator denominator = .finite negative (2 ^ 52) exponent := by
  have near := reads.below_power inRange.1
  obtain ⟨scaledPositive, scaledValue⟩ := scaled_eq numerator positive (exponent - 1)
  rw [div_zpow_pred] at scaledValue
  have rounded : roundQuotient (scaled numerator denominator (exponent - 1)).1
      (scaled numerator denominator (exponent - 1)).2 = Nat.pow 2 53 := by
    rw [Nat.pow_eq]
    apply roundQuotient_of_value scaledPositive scaledValue
    · push_cast
      linarith
    · push_cast
      linarith
    · intro odd
      norm_num at odd
  rw [ofRatio_of_carry (reads.above (by norm_num)) found rounded, if_neg (by omega),
    Int.sub_add_cancel, Nat.pow_eq]

/-- The bits of a rational are taken at the exponent of the number that it reads
as, or just below a power of two. -/
theorem ReadsAs.exponentOf_eq_or (positive : 0 < denominator) (nonzero : 0 < mantissa)
    (canonical : IsCanonical mantissa exponent)
    (reads : ReadsAs mantissa exponent ((numerator : ℚ) / denominator)) :
    exponentOf numerator denominator = exponent ∨
      mantissa = 2 ^ 52 ∧ leastExponent < exponent ∧
        (numerator : ℚ) / denominator / 2 ^ exponent < 2 ^ 52 ∧
          exponentOf numerator denominator = exponent - 1 := by
  have reach := reachBelow_le mantissa exponent
  have inRange := canonical.inRange
  obtain ⟨bits, has, found⟩ := exponentOf_eq (reads.above nonzero) positive
  generalize (numerator : ℚ) / denominator = value at reads has ⊢
  by_cases wide : (2 : ℚ) ^ 52 ≤ value / 2 ^ exponent
  · have ceiling : (mantissa : ℚ) + 1 ≤ 2 ^ 53 := by exact_mod_cast canonical.lt
    have exact : bits = exponent := has.unique ⟨wide, by linarith [reads.upper]⟩
    rw [exact, max_eq_left inRange.1] at found
    exact Or.inl found
  · have narrow := not_le.mp wide
    have lower := has.lt narrow
    by_cases bottom : exponent = leastExponent
    · rw [max_eq_right (by omega), ← bottom] at found
      exact Or.inl found
    · have small : mantissa ≤ 2 ^ 52 := by
        have bound : (mantissa : ℚ) < 2 ^ 52 + 1 := by linarith [reads.lower]
        have whole : mantissa < 2 ^ 52 + 1 := by exact_mod_cast bound
        omega
      have power : mantissa = 2 ^ 52 := by
        rcases canonical with ⟨_, same⟩ | ⟨bound, _, _, _⟩
        · exact absurd same bottom
        · omega
      subst power
      have near := reads.below_power (by omega)
      have exact : bits = exponent - 1 := by
        refine has.unique ⟨?_, ?_⟩
        · rw [div_zpow_pred]
          linarith
        · rw [div_zpow_pred]
          linarith
      rw [exact, max_eq_left (by omega)] at found
      exact Or.inr ⟨rfl, by omega, narrow, found⟩

/-- A rational rounds to the number whose interval it lies in. -/
theorem ofRatio_eq (positive : 0 < denominator) (nonzero : 0 < mantissa)
    (canonical : IsCanonical mantissa exponent)
    (reads : ReadsAs mantissa exponent ((numerator : ℚ) / denominator)) :
    ofRatio negative numerator denominator = .finite negative mantissa exponent := by
  rcases reads.exponentOf_eq_or positive nonzero canonical with found | ⟨rfl, above, below, found⟩
  · exact reads.ofRatio_of_exponentOf positive nonzero canonical found
  · exact reads.ofRatio_of_below positive ⟨above, canonical.inRange.2⟩ below found

end

/-- A number as rounding gives it. -/
def Canonical : Binary64 → Prop
  | .finite _ mantissa exponent => IsCanonical mantissa exponent
  | _ => True

theorem canonical_zeroOf (negative : Bool) : (zeroOf negative).Canonical :=
  Or.inl ⟨by positivity, rfl⟩

theorem canonical_ofRatio (negative : Bool) (numerator : Nat) {denominator : Nat}
    (positive : 0 < denominator) : (ofRatio negative numerator denominator).Canonical := by
  rcases Nat.eq_zero_or_pos numerator with rfl | above
  · rw [ofRatio, if_pos rfl]
    exact canonical_zeroOf negative
  · obtain ⟨bits, has, found⟩ := exponentOf_eq above positive
    generalize chosen : exponentOf numerator denominator = exponent at found
    obtain ⟨scaledPositive, scaledValue⟩ := scaled_eq numerator positive exponent
    obtain ⟨lower, upper⟩ := @roundQuotient_near (scaled numerator denominator exponent).1 _
      scaledPositive
    rw [scaledValue] at lower upper
    generalize rounded : roundQuotient (scaled numerator denominator exponent).1
      (scaled numerator denominator exponent).2 = mantissa at lower upper
    generalize (numerator : ℚ) / denominator = value at has lower upper
    have atLeast : leastExponent ≤ exponent := found ▸ le_max_right _ _
    -- At the exponent of the bits the mantissa has them all; at the least
    -- exponent it may have fewer.
    have shape : mantissa ≤ 2 ^ 53 ∧ (2 ^ 52 ≤ mantissa ∨ exponent = leastExponent) := by
      by_cases inner : leastExponent ≤ bits
      · rw [max_eq_left inner] at found
        subst found
        have most : (mantissa : ℚ) < 2 ^ 53 + 1 := by linarith [has.2]
        have least : (2 : ℚ) ^ 52 < mantissa + 1 := by linarith [has.1]
        have mostWhole : mantissa < 2 ^ 53 + 1 := by exact_mod_cast most
        have leastWhole : 2 ^ 52 < mantissa + 1 := by exact_mod_cast least
        exact ⟨by omega, Or.inl (by omega)⟩
      · rw [max_eq_right (by omega)] at found
        have power : (2 : ℚ) ^ bits ≤ 2 ^ exponent :=
          zpow_le_zpow_right₀ (by norm_num) (by omega)
        have small : value / 2 ^ exponent < 2 ^ 53 := by
          have bound := (div_lt_iff₀ (by positivity)).mp has.2
          rw [div_lt_iff₀ (by positivity)]
          nlinarith
        have most : (mantissa : ℚ) < 2 ^ 53 + 1 := by linarith
        have mostWhole : mantissa < 2 ^ 53 + 1 := by exact_mod_cast most
        exact ⟨by omega, Or.inr found⟩
    by_cases carry : mantissa = Nat.pow 2 53
    · rw [ofRatio_of_carry above chosen (rounded.trans carry)]
      split
      · trivial
      · rename_i finite
        refine Or.inr ⟨by rw [Nat.pow_eq], by rw [Nat.pow_eq]; norm_num, by omega, by omega⟩
    · rw [ofRatio_of_round above chosen rounded carry]
      rw [Nat.pow_eq] at carry
      split
      · trivial
      · rename_i finite
        by_cases full : 2 ^ 52 ≤ mantissa
        · exact Or.inr ⟨full, by omega, atLeast, by omega⟩
        · exact Or.inl ⟨by omega, shape.2.resolve_left full⟩

end Binary64

end Restyle
