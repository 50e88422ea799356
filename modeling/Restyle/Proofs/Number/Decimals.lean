import Restyle.Proofs.Number.Rounding

/-!
# The shortest decimal reads back

The decimal that is chosen for a number lies in the interval of rationals that
round to the number: it was accepted for that, or it has seventeen digits, and
those are enough.
-/

namespace Restyle

theorem lt_pow_decimalLength (value : Nat) : value < 10 ^ decimalLength value :=
  (Nat.length_toDigits_le_iff (by decide) Nat.length_toDigits_pos).mp (Nat.le_refl _)

theorem pow_decimalLength_le {value : Nat} (positive : 0 < value) :
    10 ^ (decimalLength value - 1) ≤ value := by
  by_cases single : decimalLength value ≤ 1
  · have none : decimalLength value - 1 = 0 := by omega
    rw [none]
    exact positive
  · have longer : ¬ decimalLength value ≤ decimalLength value - 1 := by omega
    rw [decimalLength, Nat.length_toDigits_le_iff (by decide) (by rw [decimalLength] at single; omega)]
      at longer
    exact Nat.not_lt.mp longer

theorem decimalLength_pos (value : Nat) : 0 < decimalLength value := Nat.length_toDigits_pos

namespace Binary64

theorem ratio_eq (mantissa : Nat) (exponent : Int) :
    0 < (ratio mantissa exponent).2 ∧
      ((ratio mantissa exponent).1 : ℚ) / (ratio mantissa exponent).2 =
        mantissa * (2 : ℚ) ^ exponent := by
  unfold ratio
  by_cases negative : exponent < 0
  · rw [if_pos negative]
    obtain ⟨size, rfl⟩ : ∃ size : Nat, exponent = -(size : Int) :=
      ⟨exponent.natAbs, by omega⟩
    simp only [Int.natAbs_neg, Int.natAbs_natCast, Nat.pow_eq, Nat.cast_pow, Nat.cast_ofNat,
      zpow_neg, zpow_natCast]
    exact ⟨by positivity, by field_simp⟩
  · rw [if_neg negative]
    obtain ⟨size, rfl⟩ : ∃ size : Nat, exponent = (size : Int) := ⟨exponent.natAbs, by omega⟩
    simp only [Int.natAbs_natCast, Nat.pow_eq, Nat.cast_mul, Nat.cast_pow, Nat.cast_ofNat,
      zpow_natCast]
    exact ⟨by decide, by simp⟩

theorem timesTen_eq (numerator : Nat) {denominator : Nat} (positive : 0 < denominator)
    (power : Int) :
    0 < (timesTen numerator denominator power).2 ∧
      ((timesTen numerator denominator power).1 : ℚ) /
          (timesTen numerator denominator power).2 =
        (numerator : ℚ) / denominator * (10 : ℚ) ^ power := by
  have nonzero : (denominator : ℚ) ≠ 0 := by exact_mod_cast positive.ne'
  unfold timesTen
  by_cases negative : power < 0
  · rw [if_pos negative]
    obtain ⟨size, rfl⟩ : ∃ size : Nat, power = -(size : Int) := ⟨power.natAbs, by omega⟩
    simp only [Int.natAbs_neg, Int.natAbs_natCast, Nat.pow_eq, Nat.cast_mul, Nat.cast_pow,
      Nat.cast_ofNat, zpow_neg, zpow_natCast]
    exact ⟨Nat.mul_pos positive (by positivity), by field_simp⟩
  · rw [if_neg negative]
    obtain ⟨size, rfl⟩ : ∃ size : Nat, power = (size : Int) := ⟨power.natAbs, by omega⟩
    simp only [Int.natAbs_natCast, Nat.pow_eq, Nat.cast_mul, Nat.cast_pow, Nat.cast_ofNat,
      zpow_natCast]
    exact ⟨positive, by field_simp⟩

/-- A bound in quarters of the last place, compared with a decimal crosswise. -/
theorem quarters_le_iff (bound digits : Nat) (exponent power : Int) :
    (bound * (ratio 1 (exponent - 2)).1 * (timesTen digits 1 power).2 ≤
        (timesTen digits 1 power).1 * (ratio 1 (exponent - 2)).2 ↔
      (bound : ℚ) / 4 ≤ (digits : ℚ) * 10 ^ power / 2 ^ exponent) ∧
    ((timesTen digits 1 power).1 * (ratio 1 (exponent - 2)).2 ≤
        bound * (ratio 1 (exponent - 2)).1 * (timesTen digits 1 power).2 ↔
      (digits : ℚ) * 10 ^ power / 2 ^ exponent ≤ (bound : ℚ) / 4) := by
  obtain ⟨unitPositive, unit⟩ := ratio_eq 1 (exponent - 2)
  obtain ⟨pointPositive, point⟩ := timesTen_eq digits (by decide : 0 < 1) power
  generalize ratio 1 (exponent - 2) = unitRatio at *
  generalize timesTen digits 1 power = pointRatio at *
  have unitReal : (0 : ℚ) < unitRatio.2 := by exact_mod_cast unitPositive
  have pointReal : (0 : ℚ) < pointRatio.2 := by exact_mod_cast pointPositive
  have two : (0 : ℚ) < 2 ^ exponent := by positivity
  rw [Nat.cast_one, one_mul, zpow_sub₀ (by norm_num), div_eq_div_iff unitReal.ne' (by norm_num)]
    at unit
  rw [Nat.cast_one, div_one, div_eq_iff pointReal.ne'] at point
  have unitValue : (unitRatio.1 : ℚ) = 2 ^ exponent / 4 * unitRatio.2 := by
    norm_num at unit
    linarith
  have left : ((bound * unitRatio.1 * pointRatio.2 : Nat) : ℚ) =
      (bound : ℚ) / 4 * (2 ^ exponent * (unitRatio.2 * pointRatio.2)) := by
    push_cast
    rw [unitValue]
    ring
  have right : ((pointRatio.1 * unitRatio.2 : Nat) : ℚ) =
      (digits : ℚ) * 10 ^ power / 2 ^ exponent *
        (2 ^ exponent * (unitRatio.2 * pointRatio.2)) := by
    push_cast
    rw [point]
    field_simp
  have factor : (0 : ℚ) < 2 ^ exponent * (unitRatio.2 * pointRatio.2) := by positivity
  constructor
  · rw [← Nat.cast_le (α := ℚ), left, right, mul_le_mul_iff_left₀ factor]
  · rw [← Nat.cast_le (α := ℚ), left, right, mul_le_mul_iff_left₀ factor]

theorem readsAs_of_accepts {mantissa digits : Nat} {exponent power : Int} (nonzero : 0 < mantissa)
    (accepted : (readingInterval mantissa exponent).accepts digits power = true) :
    ReadsAs mantissa exponent ((digits : ℚ) * 10 ^ power) := by
  have low := (quarters_le_iff (readingInterval mantissa exponent).low digits exponent power).1
  have lowOpen := (quarters_le_iff (readingInterval mantissa exponent).low digits exponent power).2
  have high := (quarters_le_iff (readingInterval mantissa exponent).high digits exponent power).2
  have highOpen := (quarters_le_iff (readingInterval mantissa exponent).high digits exponent power).1
  have reach : ((readingInterval mantissa exponent).low : ℚ) / 4 =
      mantissa - reachBelow mantissa exponent := by
    have step : ∀ size : Nat, size ≤ 2 →
        ((4 * mantissa - size : Nat) : ℚ) / 4 = mantissa - size / 4 := by
      intro size small
      rw [Nat.cast_sub (by omega)]
      push_cast
      ring
    unfold reachBelow readingInterval
    dsimp only
    by_cases narrow : mantissa = 2 ^ 52 ∧ leastExponent < exponent
    · rw [if_pos (by simpa [Nat.pow_eq] using narrow), if_pos narrow, step 1 (by decide)]
      norm_num
    · rw [if_neg (by simpa [Nat.pow_eq] using narrow), if_neg narrow, step 2 (by decide)]
      norm_num
  have top : ((readingInterval mantissa exponent).high : ℚ) / 4 = mantissa + 1 / 2 := by
    simp only [readingInterval]
    push_cast
    ring
  have unit : (readingInterval mantissa exponent).exponent = exponent - 2 := rfl
  unfold ReadingInterval.accepts at accepted
  rw [unit] at accepted
  dsimp only at accepted
  rw [reach] at low lowOpen
  rw [top] at high highOpen
  by_cases even : mantissa % 2 = 0
  · have closed : (readingInterval mantissa exponent).closed = true := by
      simp [readingInterval, even]
    rw [if_pos closed, Bool.and_eq_true, decide_eq_true_eq, decide_eq_true_eq] at accepted
    exact ⟨low.mp accepted.1, high.mp accepted.2, fun odd => by omega⟩
  · have closed : ¬ (readingInterval mantissa exponent).closed = true := by
      simp [readingInterval, even]
    rw [if_neg closed, Bool.and_eq_true, decide_eq_true_eq, decide_eq_true_eq] at accepted
    refine ⟨low.mp accepted.1.le, high.mp accepted.2.le, fun _ => ⟨?_, ?_⟩⟩
    · exact not_le.mp fun bound => not_le.mpr accepted.1 (lowOpen.mpr bound)
    · exact not_le.mp fun bound => not_le.mpr accepted.2 (highOpen.mpr bound)

theorem headD_neighbours {numerator denominator : Nat} (power : Int) :
    (neighbours numerator denominator power).headD 0 =
      roundQuotient (timesTen numerator denominator (-power)).1
        (timesTen numerator denominator (-power)).2 := by
  unfold neighbours
  dsimp only
  split
  · rename_i below
    exact below.symm
  · rename_i above
    rw [List.headD_cons]
    unfold roundQuotient at above ⊢
    dsimp only at above ⊢
    grind

/-- The search ends with an accepted decimal, or rounds at its last power. -/
theorem shortestFrom_cases (interval : ReadingInterval) (numerator denominator : Nat) (point : Int)
    (count fuel : Nat) :
    interval.accepts (shortestFrom interval numerator denominator point count fuel).1
        (shortestFrom interval numerator denominator point count fuel).2 = true ∨
      shortestFrom interval numerator denominator point count fuel =
        ((neighbours numerator denominator (point - ((count + fuel : Nat) : Int))).headD 0,
          point - ((count + fuel : Nat) : Int)) := by
  induction fuel generalizing count with
  | zero => exact Or.inr rfl
  | succ fuel induction =>
      rw [shortestFrom]
      split
      · rename_i digits found
        have holds := List.find?_some found
        exact Or.inl holds
      · have total : count + (fuel + 1) = count + 1 + fuel := by omega
        rw [total]
        exact induction (count + 1)

theorem pow_pointPosition_le {numerator denominator : Nat} (above : 0 < numerator)
    (positive : 0 < denominator) :
    (10 : ℚ) ^ (pointPosition numerator denominator - 1) ≤ (numerator : ℚ) / denominator := by
  have denominatorReal : (0 : ℚ) < denominator := by exact_mod_cast positive
  have lead : ((10 : ℚ) ^ (decimalLength numerator - 1)) ≤ numerator := by
    exact_mod_cast pow_decimalLength_le above
  have size : (denominator : ℚ) ≤ 10 ^ decimalLength denominator := by
    exact_mod_cast (lt_pow_decimalLength denominator).le
  have digits := decimalLength_pos numerator
  unfold pointPosition
  dsimp only
  generalize guessed : (decimalLength numerator : Int) - decimalLength denominator = guess
  obtain ⟨scaledPositive, scaledValue⟩ := timesTen_eq numerator positive (-guess)
  have scaledReal : (0 : ℚ) < (timesTen numerator denominator (-guess)).2 := by
    exact_mod_cast scaledPositive
  split
  · have power : (10 : ℚ) ^ (guess - 1) * 10 ^ decimalLength denominator =
        10 ^ (decimalLength numerator - 1) := by
      rw [← zpow_natCast, ← zpow_natCast, ← zpow_add₀ (by norm_num), ← guessed]
      congr 1
      omega
    rw [le_div_iff₀ denominatorReal]
    calc (10 : ℚ) ^ (guess - 1) * denominator
        ≤ (10 : ℚ) ^ (guess - 1) * 10 ^ decimalLength denominator :=
          mul_le_mul_of_nonneg_left size (by positivity)
      _ = 10 ^ (decimalLength numerator - 1) := power
      _ ≤ numerator := lead
  · rename_i atLeast
    have least : (1 : ℚ) ≤ (numerator : ℚ) / denominator * 10 ^ (-guess) := by
      rw [← scaledValue, one_le_div scaledReal]
      exact_mod_cast Nat.not_lt.mp atLeast
    rw [add_sub_cancel_right]
    rw [zpow_neg, ← div_eq_mul_inv, one_le_div (by positivity)] at least
    exact least

/-- Seventeen digits are enough. -/
theorem readsAs_of_round {mantissa digits : Nat} {exponent power : Int}
    (canonical : IsCanonical mantissa exponent)
    (large : (10 : ℚ) ^ 16 ≤ mantissa * 2 ^ exponent / 10 ^ power)
    (lower : (mantissa : ℚ) * 2 ^ exponent / 10 ^ power - 1 / 2 ≤ digits)
    (upper : (digits : ℚ) ≤ mantissa * 2 ^ exponent / 10 ^ power + 1 / 2) :
    ReadsAs mantissa exponent ((digits : ℚ) * 10 ^ power) := by
  have bounded : (mantissa : ℚ) < 2 ^ 53 := by
    have bound : mantissa < 2 ^ 53 := by
      rcases canonical with ⟨small, _⟩ | ⟨_, small, _⟩ <;> omega
    exact_mod_cast bound
  -- Everything is measured in units of the last place; half a unit of the
  -- decimal is then less than half of one.
  obtain ⟨unit, positive, scaleDown, scaleUp⟩ : ∃ unit : ℚ, 0 < unit ∧
      (mantissa : ℚ) * 2 ^ exponent / 10 ^ power = mantissa / unit ∧
        (digits : ℚ) * 10 ^ power / 2 ^ exponent = digits * unit := by
    refine ⟨10 ^ power / 2 ^ exponent, by positivity, ?_, ?_⟩
    · field_simp
    · field_simp
  rw [scaleDown] at large lower upper
  have fine : unit * 10 ^ 16 ≤ mantissa := by
    rw [le_div_iff₀ positive] at large
    linarith
  have below : (mantissa : ℚ) - unit / 2 ≤ digits * unit := by
    rw [sub_le_iff_le_add, div_le_iff₀ positive] at lower
    linarith
  have beyond : (digits : ℚ) * unit ≤ mantissa + unit / 2 := by
    rw [← sub_le_iff_le_add, le_div_iff₀ positive] at upper
    linarith
  have reach : unit / 2 < reachBelow mantissa exponent := by
    unfold reachBelow
    split
    · rename_i narrow
      have power : (mantissa : ℚ) = 2 ^ 52 := by exact_mod_cast narrow.1
      rw [power] at fine
      norm_num at fine ⊢
      linarith
    · have limit : (2 : ℚ) ^ 53 < 10 ^ 16 := by norm_num
      linarith
  have half : unit / 2 < 1 / 2 := lt_of_lt_of_le reach (reachBelow_le mantissa exponent)
  refine ⟨?_, ?_, fun _ => ⟨?_, ?_⟩⟩
  all_goals rw [scaleUp]
  all_goals linarith

theorem shortest_reads {mantissa : Nat} {exponent : Int} (nonzero : 0 < mantissa)
    (canonical : IsCanonical mantissa exponent) :
    0 < (shortest mantissa exponent).1 ∧
      ReadsAs mantissa exponent
        (((shortest mantissa exponent).1 : ℚ) * 10 ^ (shortest mantissa exponent).2) := by
  obtain ⟨positive, value⟩ := ratio_eq mantissa exponent
  have above : 0 < (ratio mantissa exponent).1 := by
    by_contra zero
    have none : (ratio mantissa exponent).1 = 0 := by omega
    rw [none, Nat.cast_zero, zero_div] at value
    have product : (0 : ℚ) < mantissa * 2 ^ exponent := by positivity
    linarith
  have reads : ReadsAs mantissa exponent
      (((shortest mantissa exponent).1 : ℚ) * 10 ^ (shortest mantissa exponent).2) := by
    have unfolded : shortest mantissa exponent =
        shortestFrom (readingInterval mantissa exponent) (ratio mantissa exponent).1
          (ratio mantissa exponent).2
          (pointPosition (ratio mantissa exponent).1 (ratio mantissa exponent).2) 1 16 := by
      rw [shortest, if_neg nonzero.ne']
    rw [unfolded]
    rcases shortestFrom_cases (readingInterval mantissa exponent) (ratio mantissa exponent).1
      (ratio mantissa exponent).2
      (pointPosition (ratio mantissa exponent).1 (ratio mantissa exponent).2) 1 16 with
      accepted | rounded
    · exact readsAs_of_accepts nonzero accepted
    · have first := pow_pointPosition_le above positive
      rw [rounded, headD_neighbours]
      rw [value] at first
      generalize pointPosition (ratio mantissa exponent).1 (ratio mantissa exponent).2 = point
        at first ⊢
      generalize last : point - ((1 + 16 : Nat) : Int) = power
      obtain ⟨scaledPositive, scaledValue⟩ :=
        timesTen_eq (ratio mantissa exponent).1 positive (-power)
      rw [value, zpow_neg, ← div_eq_mul_inv] at scaledValue
      obtain ⟨lower, upper⟩ := @roundQuotient_near
        (timesTen (ratio mantissa exponent).1 (ratio mantissa exponent).2 (-power)).1 _
        scaledPositive
      rw [scaledValue] at lower upper
      refine readsAs_of_round canonical ?_ lower upper
      rw [le_div_iff₀ (by positivity), ← zpow_natCast, ← zpow_add₀ (by norm_num)]
      have total : ((16 : Nat) : Int) + power = point - 1 := by
        rw [← last]
        push_cast
        ring
      rw [total]
      exact first
  refine ⟨?_, reads⟩
  by_contra zero
  have none : (shortest mantissa exponent).1 = 0 := by omega
  have lower := reads.lower
  have reach := reachBelow_le mantissa exponent
  have least : (1 : ℚ) ≤ mantissa := by exact_mod_cast nonzero
  rw [none] at lower
  norm_num at lower
  linarith

theorem decimal_between {digits : Nat} (power : Int) (nonzero : 0 < digits) :
    (10 : ℚ) ^ (power + decimalLength digits - 1) ≤ digits * 10 ^ power ∧
      (digits : ℚ) * 10 ^ power < 10 ^ (power + decimalLength digits) := by
  have length := decimalLength_pos digits
  have lower : ((10 : ℚ) ^ (decimalLength digits - 1)) ≤ digits := by
    exact_mod_cast pow_decimalLength_le nonzero
  have upper : (digits : ℚ) < 10 ^ decimalLength digits := by
    exact_mod_cast lt_pow_decimalLength digits
  have ten : (0 : ℚ) < 10 ^ power := by positivity
  constructor
  · have split : (10 : ℚ) ^ (power + decimalLength digits - 1) =
        10 ^ (decimalLength digits - 1) * 10 ^ power := by
      rw [← zpow_natCast, ← zpow_add₀ (by norm_num)]
      congr 1
      omega
    rw [split]
    exact mul_le_mul_of_nonneg_right lower ten.le
  · have split : (10 : ℚ) ^ (power + decimalLength digits) =
        10 ^ decimalLength digits * 10 ^ power := by
      rw [← zpow_natCast, ← zpow_add₀ (by norm_num)]
      congr 1
      omega
    rw [split]
    exact mul_lt_mul_of_pos_right upper ten

theorem ReadsAs.range {mantissa : Nat} {exponent : Int} {value : ℚ} (nonzero : 0 < mantissa)
    (canonical : IsCanonical mantissa exponent) (reads : ReadsAs mantissa exponent value) :
    (10 : ℚ) ^ (-324 : Int) < value ∧ value < 10 ^ (309 : Int) := by
  have two : (0 : ℚ) < 2 ^ exponent := by positivity
  have least : (1 : ℚ) ≤ mantissa := by exact_mod_cast nonzero
  have most : (mantissa : ℚ) ≤ 2 ^ 53 - 1 := by
    have bound : mantissa < 2 ^ 53 := by
      rcases canonical with ⟨small, _⟩ | ⟨_, small, _⟩ <;> omega
    have whole : mantissa + 1 ≤ 2 ^ 53 := bound
    have real : (mantissa : ℚ) + 1 ≤ 2 ^ 53 := by exact_mod_cast whole
    linarith
  have inRange : leastExponent ≤ exponent ∧ exponent ≤ greatestExponent := by
    rcases canonical with ⟨_, rfl⟩ | ⟨_, _, low, high⟩
    · decide
    · exact ⟨low, high⟩
  have reach := reachBelow_le mantissa exponent
  have smallest : (2 : ℚ) ^ (-1074 : Int) ≤ 2 ^ exponent :=
    zpow_le_zpow_right₀ (by norm_num) inRange.1
  have greatest : (2 : ℚ) ^ exponent ≤ 2 ^ (971 : Int) :=
    zpow_le_zpow_right₀ (by norm_num) inRange.2
  constructor
  · have lower : 1 / 2 ≤ value / 2 ^ exponent := by linarith [reads.lower]
    rw [le_div_iff₀ two] at lower
    have gap : (10 : ℚ) ^ (-324 : Int) < 1 / 2 * 2 ^ (-1074 : Int) := by
      have powers : (2 : ℚ) ^ 1075 < 10 ^ 324 := by
        exact_mod_cast (by decide +kernel : 2 ^ 1075 < 10 ^ 324)
      have half : (1 : ℚ) / 2 * 2 ^ (-1074 : Int) = (2 ^ 1075)⁻¹ := by
        have power : (2 : ℚ) ^ (1074 : Int) = 2 ^ 1074 := zpow_natCast 2 1074
        rw [zpow_neg, ← inv_eq_one_div, ← mul_inv, power, ← pow_succ']
      rw [half, zpow_neg]
      exact inv_strictAnti₀ (by positivity) powers
    exact gap.trans_le ((mul_le_mul_of_nonneg_left smallest (by norm_num)).trans lower)
  · have upper : value / 2 ^ exponent ≤ 2 ^ 53 := by linarith [reads.upper]
    rw [div_le_iff₀ two] at upper
    have gap : (2 : ℚ) ^ 53 * 2 ^ (971 : Int) < 10 ^ (309 : Int) := by
      have powers : (2 : ℚ) ^ 53 * 2 ^ 971 < 10 ^ 309 := by
        exact_mod_cast (by decide +kernel : 2 ^ 53 * 2 ^ 971 < 10 ^ 309)
      exact powers
    exact (upper.trans (mul_le_mul_of_nonneg_left greatest (by norm_num))).trans_lt gap

/-- A decimal reads as the number whose interval it lies in. -/
theorem ofDecimal_eq {negative : Bool} {digits mantissa : Nat} {exponent power : Int}
    (nonzero : 0 < mantissa) (canonical : IsCanonical mantissa exponent)
    (reads : ReadsAs mantissa exponent ((digits : ℚ) * 10 ^ power)) :
    ofDecimal negative digits power = .finite negative mantissa exponent := by
  obtain ⟨low, high⟩ := reads.range nonzero canonical
  have present : 0 < digits := by
    by_contra zero
    have none : digits = 0 := by omega
    rw [none, Nat.cast_zero, zero_mul] at low
    have positive : (0 : ℚ) < 10 ^ (-324 : Int) := by positivity
    linarith
  obtain ⟨atLeast, below⟩ := decimal_between power present
  have notLarge : ¬ 310 < power + decimalLength digits := by
    intro large
    have power309 : (10 : ℚ) ^ (309 : Int) ≤ 10 ^ (power + decimalLength digits - 1) :=
      zpow_le_zpow_right₀ (by norm_num) (by omega)
    linarith
  have notSmall : ¬ power + decimalLength digits < -330 := by
    intro small
    have power324 : (10 : ℚ) ^ (power + decimalLength digits) ≤ 10 ^ (-324 : Int) :=
      zpow_le_zpow_right₀ (by norm_num) (by omega)
    linarith
  unfold ofDecimal
  rw [if_neg present.ne']
  dsimp only
  rw [if_neg notLarge, if_neg notSmall]
  by_cases fractional : power < 0
  · rw [if_pos fractional]
    obtain ⟨size, rfl⟩ : ∃ size : Nat, power = -(size : Int) := ⟨power.natAbs, by omega⟩
    rw [Int.natAbs_neg, Int.natAbs_natCast, Nat.pow_eq]
    refine ofRatio_eq (by positivity) nonzero canonical ?_
    have same : (digits : ℚ) / ((10 ^ size : Nat) : ℚ) = digits * 10 ^ (-(size : Int)) := by
      rw [zpow_neg, zpow_natCast]
      push_cast
      rfl
    rw [same]
    exact reads
  · rw [if_neg fractional]
    obtain ⟨size, rfl⟩ : ∃ size : Nat, power = (size : Int) := ⟨power.natAbs, by omega⟩
    rw [Int.natAbs_natCast, Nat.pow_eq]
    refine ofRatio_eq (by decide) nonzero canonical ?_
    have same : ((digits * 10 ^ size : Nat) : ℚ) / ((1 : Nat) : ℚ) = digits * 10 ^ (size : Int) := by
      rw [zpow_natCast]
      push_cast
      ring
    rw [same]
    exact reads

theorem canonical_ofDecimal (negative : Bool) (digits : Nat) (power : Int) :
    (ofDecimal negative digits power).Canonical := by
  unfold ofDecimal
  split
  · exact canonical_zeroOf negative
  · dsimp only
    split
    · trivial
    · split
      · exact canonical_zeroOf negative
      · split
        · exact canonical_ofRatio negative digits (by rw [Nat.pow_eq]; positivity)
        · exact canonical_ofRatio negative _ (by decide)

end Binary64

end Restyle
