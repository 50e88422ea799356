import Restyle.Proofs.Json.Numerals
import Restyle.Proofs.Number.Decimals

/-!
# Reals of documents read back

The text of a number is its shortest decimal, positional or with an exponent.
Taken apart into the parts of a numeral, it stands for that decimal, and so
reads back as the number.
-/

namespace Restyle

namespace Binary64

theorem dropZeros_eq (digits : List Char) :
    ∃ count, digits = List.replicate count '0' ++ dropZeros digits := by
  fun_induction dropZeros digits with
  | case1 digits induction =>
      obtain ⟨count, whole⟩ := induction
      exact ⟨count + 1, by rw [List.replicate_succ, List.cons_append, ← whole]⟩
  | case2 digits other => exact ⟨0, rfl⟩

/-- The digits of a number without the zeros at their end. -/
theorem significant_parts {value : Nat} (nonzero : 0 < value) :
    ∃ significant count, Nat.toDigits 10 value = significant ++ List.replicate count '0' ∧
      (dropZeros (Nat.toDigits 10 value).reverse).reverse = significant ∧
        significant ≠ [] ∧ significant.head? ≠ some '0' ∧
          (∀ digit ∈ significant, digit.isDigit = true) ∧
            digitsValue significant * 10 ^ count = value := by
  obtain ⟨count, whole⟩ := dropZeros_eq (Nat.toDigits 10 value).reverse
  have parts : Nat.toDigits 10 value =
      (dropZeros (Nat.toDigits 10 value).reverse).reverse ++ List.replicate count '0' := by
    have reversed := congrArg List.reverse whole
    rw [List.reverse_reverse, List.reverse_append, List.reverse_replicate] at reversed
    exact reversed
  generalize (dropZeros (Nat.toDigits 10 value).reverse).reverse = significant at parts
  have worth : digitsValue significant * 10 ^ count = value := by
    have total := digitsValue_toDigits value
    rw [parts, digitsValue_eq, Nat.ofDigitChars_append, Nat.ofDigitChars_replicate_zero] at total
    rw [digitsValue_eq, Nat.mul_comm]
    exact total
  refine ⟨significant, count, parts, rfl, ?_, ?_, ?_, worth⟩
  · rintro rfl
    simp only [digitsValue, List.foldl_nil, Nat.zero_mul] at worth
    omega
  · have leading := head?_toDigits_ne_zero nonzero
    rw [parts] at leading
    cases significant with
    | nil => simp
    | cons first later => exact leading
  · intro digit member
    apply (isLeading_toDigits value).decimal
    rw [parts]
    exact List.mem_append_left _ member

/-- Significant digits: the first is not zero. -/
structure IsSignificant (digits : List Char) : Prop where
  nonempty : digits ≠ []
  first : digits.head? ≠ some '0'
  decimal : ∀ digit ∈ digits, digit.isDigit = true

/-- Whether a numeral stands for significant digits with the point at a
position. -/
structure Places (significant : List Char) (position : Int) (numeral : Json.Numeral) : Prop where
  isReal : numeral.IsReal
  scaled : ∃ extra : Nat, numeral.mantissa = digitsValue significant * 10 ^ extra ∧
    numeral.power + extra = position - significant.length

variable {significant : List Char} {position : Int}

theorem digitsValue_zeros (count : Nat) (digits : List Char) :
    digitsValue (List.replicate count '0' ++ digits) = digitsValue digits := by
  rw [digitsValue_eq, digitsValue_eq, Nat.ofDigitChars_append, Nat.ofDigitChars_replicate_zero,
    Nat.mul_zero]

theorem digitsValue_append_zeros (digits : List Char) (count : Nat) :
    digitsValue (digits ++ List.replicate count '0') = digitsValue digits * 10 ^ count := by
  rw [digitsValue_eq, digitsValue_eq, Nat.ofDigitChars_append, Nat.ofDigitChars_replicate_zero,
    Nat.mul_comm]

theorem positional_small (digits : IsSignificant significant) (small : position ≤ 0) :
    ∃ numeral, Places significant position numeral ∧
      positional significant position = numeral.text := by
  refine ⟨⟨['0'], List.replicate position.natAbs '0' ++ significant, none⟩, ⟨⟨?_, ?_, ?_, ?_⟩, ?_⟩,
    ?_⟩
  · exact ⟨by simp, by simp, Or.inl rfl⟩
  · intro digit member
    rcases List.mem_append.mp member with zero | later
    · rw [List.eq_of_mem_replicate zero]
      decide
    · exact digits.decimal digit later
  · intro sign power absent
    cases absent
  · left
    simp [digits.nonempty]
  · refine ⟨0, ?_, ?_⟩
    · have zeros : ['0'] ++ (List.replicate position.natAbs '0' ++ significant) =
          List.replicate (position.natAbs + 1) '0' ++ significant := by
        rw [List.replicate_succ]
        rfl
      rw [Json.Numeral.mantissa, zeros, digitsValue_zeros, Nat.pow_zero, Nat.mul_one]
    · simp only [Json.Numeral.power, Option.map_none, Option.getD_none, List.length_append,
        List.length_replicate]
      omega
  · simp [positional, small, Json.Numeral.text, Json.Numeral.fractionText,
      Json.Numeral.exponentText, digits.nonempty]

theorem positional_whole {size : Nat} (digits : IsSignificant significant)
    (whole : significant.length ≤ size) :
    ∃ numeral, Places significant size numeral ∧ positional significant size = numeral.text := by
  have length : 0 < significant.length := List.length_pos_iff.mpr digits.nonempty
  have filled : size ≠ 0 := by omega
  have taken : significant.take size = significant := List.take_of_length_le whole
  have dropped : significant.drop size = [] := List.drop_of_length_le whole
  refine ⟨⟨significant ++ List.replicate (size - significant.length) '0', ['0'], none⟩,
    ⟨⟨?_, ?_, ?_, ?_⟩, ?_⟩, ?_⟩
  · refine ⟨by simp [digits.nonempty], ?_, Or.inr ?_⟩
    · intro digit member
      rcases List.mem_append.mp member with given | zero
      · exact digits.decimal digit given
      · rw [List.eq_of_mem_replicate zero]
        decide
    · obtain ⟨head, tail, rfl⟩ := List.exists_cons_of_ne_nil digits.nonempty
      exact digits.first
  · simp
  · intro sign power absent
    cases absent
  · left
    simp
  · refine ⟨size - significant.length + 1, ?_, ?_⟩
    · have zeros : significant ++ List.replicate (size - significant.length) '0' ++ ['0'] =
          significant ++ List.replicate (size - significant.length + 1) '0' := by
        rw [List.replicate_succ', List.append_assoc]
      rw [Json.Numeral.mantissa, zeros, digitsValue_append_zeros]
    · simp only [Json.Numeral.power, Option.map_none, Option.getD_none, List.length_singleton]
      omega
  · simp [positional, filled, taken, dropped, Json.Numeral.text, Json.Numeral.fractionText,
      Json.Numeral.exponentText]

theorem positional_parted {size : Nat} (digits : IsSignificant significant) (large : 0 < size)
    (parted : size < significant.length) :
    ∃ numeral, Places significant size numeral ∧ positional significant size = numeral.text := by
  have split := List.take_append_drop size significant
  have takenLength : (significant.take size).length = size := by
    rw [List.length_take]
    omega
  have droppedLength : (significant.drop size).length = significant.length - size :=
    List.length_drop
  have rest : significant.drop size ≠ [] := by
    intro empty
    rw [empty, List.length_nil] at droppedLength
    omega
  refine ⟨⟨significant.take size, significant.drop size, none⟩, ⟨⟨?_, ?_, ?_, ?_⟩, ?_⟩, ?_⟩
  · refine ⟨?_, ?_, Or.inr ?_⟩
    · intro empty
      dsimp only at empty
      rw [empty, List.length_nil] at takenLength
      omega
    · intro digit member
      exact digits.decimal digit (List.mem_of_mem_take member)
    · rw [List.head?_take, if_neg large.ne']
      exact digits.first
  · intro digit member
    exact digits.decimal digit (List.mem_of_mem_drop member)
  · intro sign power absent
    cases absent
  · exact Or.inl rest
  · refine ⟨0, ?_, ?_⟩
    · rw [Json.Numeral.mantissa, split, Nat.pow_zero, Nat.mul_one]
    · simp only [Json.Numeral.power, Option.map_none, Option.getD_none, droppedLength]
      omega
  · simp [positional, large.ne', takenLength, rest, Json.Numeral.text, Json.Numeral.fractionText,
      Json.Numeral.exponentText]

theorem positional_large (digits : IsSignificant significant) (large : 0 < position) :
    ∃ numeral, Places significant position numeral ∧
      positional significant position = numeral.text := by
  obtain ⟨size, rfl⟩ : ∃ size : Nat, position = size := ⟨position.toNat, by omega⟩
  by_cases whole : significant.length ≤ size
  · exact positional_whole digits whole
  · exact positional_parted digits (by omega) (by omega)

theorem digitsValue_padded (size : Nat) :
    digitsValue (if (Nat.toDigits 10 size).length < 2 then '0' :: Nat.toDigits 10 size
      else Nat.toDigits 10 size) = size := by
  split
  · have zero : '0' :: Nat.toDigits 10 size = List.replicate 1 '0' ++ Nat.toDigits 10 size := rfl
    rw [zero, digitsValue_zeros, digitsValue_toDigits]
  · exact digitsValue_toDigits size

theorem scientific_numeral (digits : IsSignificant significant) (exponent : Int) :
    ∃ numeral, Places significant (exponent + 1) numeral ∧
      scientific significant exponent = numeral.text := by
  obtain ⟨head, tail, rfl⟩ := List.exists_cons_of_ne_nil digits.nonempty
  have padded := digitsValue_padded exponent.natAbs
  have decimal : ∀ digit ∈ (if (Nat.toDigits 10 exponent.natAbs).length < 2 then
      '0' :: Nat.toDigits 10 exponent.natAbs else Nat.toDigits 10 exponent.natAbs),
      digit.isDigit = true := by
    intro digit member
    split at member
    · rcases List.mem_cons.mp member with rfl | later
      · decide
      · exact (isLeading_toDigits exponent.natAbs).decimal digit later
    · exact (isLeading_toDigits exponent.natAbs).decimal digit member
  have nonempty : (if (Nat.toDigits 10 exponent.natAbs).length < 2 then
      '0' :: Nat.toDigits 10 exponent.natAbs else Nat.toDigits 10 exponent.natAbs) ≠ [] := by
    split
    · simp
    · exact Nat.toDigits_ne_nil
  have unfolded : scientific (head :: tail) exponent =
      [head] ++ ((if tail.isEmpty then [] else '.' :: tail) ++
        'e' :: (if exponent < 0 then '-' else '+') ::
          (if (Nat.toDigits 10 exponent.natAbs).length < 2 then
            '0' :: Nat.toDigits 10 exponent.natAbs else Nat.toDigits 10 exponent.natAbs)) := by
    simp [scientific]
  rw [unfolded]
  generalize (if (Nat.toDigits 10 exponent.natAbs).length < 2 then
    '0' :: Nat.toDigits 10 exponent.natAbs else Nat.toDigits 10 exponent.natAbs) = size at *
  refine ⟨⟨[head], tail, some (decide (exponent < 0), size)⟩, ⟨⟨?_, ?_, ?_, ?_⟩, 0, ?_, ?_⟩, ?_⟩
  · refine ⟨by simp, ?_, Or.inr digits.first⟩
    intro digit member
    rw [List.mem_singleton.mp member]
    exact digits.decimal head List.mem_cons_self
  · intro digit member
    exact digits.decimal digit (List.mem_cons_of_mem _ member)
  · intro sign power present
    cases present
    exact ⟨nonempty, decimal⟩
  · exact Or.inr rfl
  · rw [Json.Numeral.mantissa, Nat.pow_zero, Nat.mul_one]
    rfl
  · have signed : Binary64.signed (decide (exponent < 0)) (digitsValue size) = exponent := by
      rw [padded]
      unfold Binary64.signed
      split
      · rename_i negative
        simp only [decide_eq_true_eq] at negative
        omega
      · rename_i negative
        simp only [decide_eq_true_eq] at negative
        omega
    simp only [Json.Numeral.power, Option.map_some, Option.getD_some, signed, List.length_cons]
    omega
  · simp [Json.Numeral.text, Json.Numeral.fractionText, Json.Numeral.exponentText]

theorem decimalText_numeral {digits : Nat} (power : Int) (nonzero : 0 < digits) :
    ∃ numeral : Json.Numeral, numeral.IsReal ∧ decimalText digits power = numeral.text ∧
      (numeral.mantissa : ℚ) * 10 ^ numeral.power = digits * 10 ^ power := by
  obtain ⟨significant, count, written, dropped, nonempty, first, decimal, worth⟩ :=
    significant_parts nonzero
  have isSignificant : IsSignificant significant := ⟨nonempty, first, decimal⟩
  have size : (Nat.toDigits 10 digits).length = significant.length + count := by
    rw [written]
    simp
  generalize spot : power + ((Nat.toDigits 10 digits).length : Int) = position
  have placed : ∃ numeral, Places significant position numeral ∧
      decimalText digits power = numeral.text := by
    unfold decimalText
    rw [if_neg nonzero.ne']
    dsimp only
    rw [spot, dropped]
    split
    · by_cases small : position ≤ 0
      · exact positional_small isSignificant small
      · exact positional_large isSignificant (by omega)
    · obtain ⟨numeral, places, same⟩ := scientific_numeral isSignificant (position - 1)
      rw [Int.sub_add_cancel] at places
      exact ⟨numeral, places, same⟩
  obtain ⟨numeral, ⟨isReal, extra, mantissa, total⟩, same⟩ := placed
  refine ⟨numeral, isReal, same, ?_⟩
  rw [mantissa, ← worth]
  push_cast
  rw [mul_assoc, mul_assoc, ← zpow_natCast, ← zpow_natCast, ← zpow_add₀ (by norm_num),
    ← zpow_add₀ (by norm_num)]
  congr 2
  omega

end Binary64

namespace Json

/-- A finite real reads back from its text. -/
theorem readNumber_text {negative : Bool} {mantissa : Nat} {exponent : Int} {rest : List Char}
    (canonical : Binary64.IsCanonical mantissa exponent) (closes : Closes rest) :
    readNumber ((Binary64.finite negative mantissa exponent).text.toList ++ rest) =
      .ok (.real (.finite negative mantissa exponent), rest) := by
  have text : (Binary64.finite negative mantissa exponent).text.toList =
      signText negative ++ Binary64.decimalText (Binary64.shortest mantissa exponent).1
        (Binary64.shortest mantissa exponent).2 := by
    simp [Binary64.text, signText]
  rw [text, List.append_assoc]
  rcases Nat.eq_zero_or_pos mantissa with rfl | nonzero
  · have least : exponent = Binary64.leastExponent := by
      rcases canonical with ⟨_, same⟩ | ⟨impossible, _⟩
      · exact same
      · norm_num at impossible
    have zero : Numeral.IsReal ⟨['0'], ['0'], none⟩ :=
      ⟨⟨by simp, by simp, Or.inl rfl⟩, by simp, by simp, Or.inl (by simp)⟩
    rw [least]
    exact readNumber_numeral zero closes
  · obtain ⟨present, reads⟩ := Binary64.shortest_reads nonzero canonical
    obtain ⟨numeral, isReal, same, worth⟩ :=
      Binary64.decimalText_numeral (Binary64.shortest mantissa exponent).2 present
    rw [same, readNumber_numeral isReal closes,
      Binary64.ofDecimal_eq nonzero canonical (worth ▸ reads)]

end Json

end Restyle
