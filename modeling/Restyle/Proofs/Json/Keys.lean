import Mathlib.Algebra.Order.Field.Rat
import Mathlib.Tactic.FieldSimp
import Mathlib.Tactic.Linarith
import Restyle.Json.Coercion
import Restyle.Proofs.Text.Codes

/-!
# Keys

Values without members are compared as keys.  `key?` says what such a value
stands for, and two values are interchangeable exactly when they stand for the
same: so being interchangeable is an equivalence on keys.
-/

namespace Restyle

/-- What a value stands for when it is compared. -/
inductive Key where
  | null
  | text (value : String)
  | torn (codes : List Text.Code)
  | number (value : ℚ)
  | infinite (negative : Bool)
  | notANumber

/-- The value of `± mantissa * 2 ^ exponent`. -/
def Binary64.worth (negative : Bool) (mantissa : Nat) (exponent : Int) : ℚ :=
  (signed negative (ratio mantissa exponent).1 : ℚ) / (ratio mantissa exponent).2

namespace Json

/-- The key that a value without members is. -/
def key? : Json → Option Key
  | .null => some .null
  | .boolean value => some (.number (if value then 1 else 0))
  | .integer value => some (.number value)
  | .real .notANumber => some .notANumber
  | .real (.infinite negative) => some (.infinite negative)
  | .real (.finite negative mantissa exponent) =>
      some (.number (Binary64.worth negative mantissa exponent))
  | .text value => some (.text value)
  | .torn codes => some (.torn codes)
  | .array _ => none
  | .object _ => none

end Json

namespace Binary64

theorem ratio_positive (mantissa : Nat) (exponent : Int) : 0 < (ratio mantissa exponent).2 := by
  unfold ratio
  split
  · exact Nat.pow_pos (by decide)
  · exact Nat.one_pos

theorem eq_finite_iff {left right : Bool} {leftMantissa rightMantissa : Nat}
    {leftExponent rightExponent : Int} :
    eq (.finite left leftMantissa leftExponent) (.finite right rightMantissa rightExponent) = true ↔
      worth left leftMantissa leftExponent = worth right rightMantissa rightExponent := by
  have leftPositive : ((ratio leftMantissa leftExponent).2 : ℚ) ≠ 0 :=
    Nat.cast_ne_zero.mpr (ratio_positive _ _).ne'
  have rightPositive : ((ratio rightMantissa rightExponent).2 : ℚ) ≠ 0 :=
    Nat.cast_ne_zero.mpr (ratio_positive _ _).ne'
  have negated : ∀ magnitude : Nat, signed (!right) magnitude = -signed right magnitude := by
    intro magnitude
    cases right <;> simp [signed]
  simp only [eq, exactSum, beq_iff_eq, negated, worth]
  rw [div_eq_div_iff leftPositive rightPositive]
  constructor
  · intro difference
    have cast := congrArg (Int.cast : Int → ℚ) difference
    push_cast at cast
    linarith
  · intro equal
    have exact : signed left (ratio leftMantissa leftExponent).1 *
        ((ratio rightMantissa rightExponent).2 : Int) =
        signed right (ratio rightMantissa rightExponent).1 *
          ((ratio leftMantissa leftExponent).2 : Int) := by
      exact_mod_cast equal
    linarith

theorem eqInt_finite_iff {negative : Bool} {mantissa : Nat} {exponent whole : Int} :
    eqInt (.finite negative mantissa exponent) whole = true ↔
      worth negative mantissa exponent = whole := by
  have positive : ((ratio mantissa exponent).2 : ℚ) ≠ 0 :=
    Nat.cast_ne_zero.mpr (ratio_positive _ _).ne'
  simp only [eqInt, beq_iff_eq, worth]
  rw [div_eq_iff positive]
  exact_mod_cast Iff.rfl

end Binary64

namespace Json

variable {left right other : Json}

theorem isKey_iff_key? {value : Json} : value.isKey = true ↔ value.key?.isSome = true := by
  cases value with
  | real value => cases value <;> simp [isKey, key?]
  | _ => simp [isKey, key?]

theorem same_real_whole {value : Binary64} {number : Int} (whole : right.whole? = some number) :
    same (.real value) right = value.eqInt number := by
  cases right with
  | boolean given =>
      cases whole
      cases value <;> rfl
  | integer given =>
      cases whole
      cases value <;> rfl
  | _ => cases whole

theorem same_whole_real {value : Binary64} {number : Int} (whole : left.whole? = some number) :
    same left (.real value) = value.eqInt number := by
  cases left with
  | boolean given =>
      cases whole
      cases value <;> rfl
  | integer given =>
      cases whole
      cases value <;> rfl
  | _ => cases whole

theorem key?_of_whole {value : Json} {number : Int} (whole : value.whole? = some number) :
    value.key? = some (.number number) := by
  cases value with
  | boolean given =>
      cases whole
      cases given <;> simp [key?]
  | integer given =>
      cases whole
      rfl
  | _ => cases whole

theorem eqInt_iff_key? {value : Binary64} {number : Int} :
    value.eqInt number = true ↔ (real value).key? = some (.number number) := by
  cases value with
  | finite negative mantissa exponent => simp [key?, Binary64.eqInt_finite_iff]
  | _ => simp [key?, Binary64.eqInt]

theorem same_wholes {number other : Int} (leftWhole : left.whole? = some number)
    (rightWhole : right.whole? = some other) : same left right = true ↔ number = other := by
  cases left with
  | boolean given => cases right <;> simp_all [same, whole?]
  | integer given => cases right <;> simp_all [same, whole?]
  | _ => cases leftWhole

theorem same_of_whole {number : Int} (whole : left.whole? = some number) :
    same left right = true ↔ left.key? = right.key? := by
  rw [key?_of_whole whole]
  cases right with
  | real value => rw [same_whole_real whole, eqInt_iff_key?, eq_comm]
  | boolean value =>
      rw [same_wholes whole rfl, key?_of_whole (rfl : (boolean value).whole? = _)]
      simp only [Option.some.injEq, Key.number.injEq, Int.cast_inj]
  | integer value =>
      rw [same_wholes whole rfl, key?_of_whole (rfl : (integer value).whole? = _)]
      simp only [Option.some.injEq, Key.number.injEq, Int.cast_inj]
  | _ => cases left <;> simp_all [same, key?, whole?]

theorem same_reals {value other : Binary64} :
    same (.real value) (.real other) = true ↔ (real value).key? = (real other).key? := by
  cases value with
  | finite negative mantissa exponent =>
      cases other with
      | finite => simp [same, key?, Binary64.eq_finite_iff]
      | _ => simp [same, key?, Binary64.eq]
  | _ => cases other <;> simp [same, key?, Binary64.eq]

/-- Two keys are interchangeable exactly when they stand for the same. -/
theorem same_iff (isKey : left.isKey = true) : same left right = true ↔ left.key? = right.key? := by
  cases left with
  | null =>
      cases right with
      | real value => cases value <;> simp [same, key?, whole?]
      | _ => simp [same, key?, whole?]
  | text value =>
      cases right with
      | real value => cases value <;> simp [same, key?, whole?]
      | _ => simp [same, key?, whole?]
  | torn codes =>
      cases right with
      | real value => cases value <;> simp [same, key?, whole?]
      | _ => simp [same, key?, whole?]
  | boolean value => exact same_of_whole rfl
  | integer value => exact same_of_whole rfl
  | real value =>
      cases whole : right.whole? with
      | some number => rw [same_real_whole whole, key?_of_whole whole, eqInt_iff_key?]
      | none =>
          cases right with
          | real other => exact same_reals
          | boolean => cases whole
          | integer => cases whole
          | _ => cases value <;> simp [same, key?, whole?]
  | array => cases isKey
  | object => cases isKey

theorem isAmong_iff {values : List Json} (isKey : left.isKey = true) :
    left.isAmong values = true ↔ left.key? ∈ values.map key? := by
  simp only [isAmong, List.any_eq_true, same_iff isKey, List.mem_map, @eq_comm _ left.key?]

theorem not_isAmong_iff {values : List Json} (isKey : left.isKey = true) :
    left.isAmong values = false ↔ left.key? ∉ values.map key? := by
  rw [← isAmong_iff isKey, Bool.not_eq_true]

theorem same_self (isKey : left.isKey = true) : same left left = true := (same_iff isKey).mpr rfl

theorem isKey_of_same_key (isKey : right.isKey = true) (equal : same left right = true) :
    left.isKey = true := by
  cases left with
  | array items => cases right <;> simp_all [same, whole?, Json.isKey]
  | object fields => cases right <;> simp_all [same, whole?, Json.isKey]
  | _ => rfl

theorem isKey_of_same (isKey : left.isKey = true) (equal : same left right = true) :
    right.isKey = true := by
  rw [isKey_iff_key?, ← (same_iff isKey).mp equal]
  exact isKey_iff_key?.mp isKey

/-- Values that are the same as a third one are the same. -/
theorem same_of_common {value : Json} (isKey : value.isKey = true)
    (first : same value left = true) (second : same value right = true) :
    same left right = true := by
  have keyed := isKey_of_same isKey first
  exact (same_iff keyed).mpr (((same_iff isKey).mp first).symm.trans ((same_iff isKey).mp second))

theorem eq_text_of_text_same {text : String} (equal : same (.text text) right = true) :
    right = .text text := by
  have isKey : (Json.text text).isKey = true := rfl
  have keys : some (Key.text text) = right.key? := (same_iff isKey).mp equal
  cases right with
  | text other =>
      cases keys
      rfl
  | real value => cases value <;> cases keys
  | _ => cases keys

theorem eq_text_of_same {text : String} (equal : same left (.text text) = true) :
    left = .text text := by
  have isKey : (Json.text text).isKey = true := rfl
  apply eq_text_of_text_same
  apply (same_iff isKey).mpr
  exact ((same_iff (isKey_of_same_key isKey equal)).mp equal).symm

theorem eq_null_of_null_same (equal : same .null right = true) : right = .null := by
  have isKey : Json.null.isKey = true := rfl
  have keys : some Key.null = right.key? := (same_iff isKey).mp equal
  cases right with
  | null => rfl
  | real value => cases value <;> cases keys
  | _ => cases keys

/-! ## Texts and names -/

open Text

theorem ofCodes_codes (text : List Char) : ofCodes (codes text) = .text (String.ofList text) := by
  rw [ofCodes, characters?_codes]

theorem ofCodes_torn {text : List Code} (isTorn : characters? text = none) :
    ofCodes text = .torn text := by
  rw [ofCodes, isTorn]

/-- A text is a string, or it is torn. -/
theorem ofCodes_cases (text : List Code) :
    (∃ content : String, text = codes content.toList ∧ ofCodes text = .text content) ∨
      characters? text = none ∧ ofCodes text = .torn text := by
  cases whole : characters? text with
  | none => exact Or.inr ⟨rfl, ofCodes_torn whole⟩
  | some characters =>
      obtain rfl := eq_codes_of_characters? whole
      exact Or.inl ⟨String.ofList characters, by rw [String.toList_ofList], ofCodes_codes characters⟩

theorem ofCodes_injective {first second : List Code} (equal : ofCodes first = ofCodes second) :
    first = second := by
  obtain ⟨content, rfl, made⟩ | ⟨_, made⟩ := ofCodes_cases first <;>
    obtain ⟨other, rfl, found⟩ | ⟨_, found⟩ := ofCodes_cases second <;>
      rw [made, found] at equal <;> cases equal <;> rfl

theorem isKey_ofCodes (text : List Code) : (ofCodes text).isKey = true := by
  obtain ⟨_, _, made⟩ | ⟨_, made⟩ := ofCodes_cases text <;> rw [made] <;> rfl

theorem same_ofCodes {first second : List Code} :
    same (ofCodes first) (ofCodes second) = true ↔ first = second := by
  rw [same_iff (isKey_ofCodes first)]
  constructor
  · intro keys
    apply ofCodes_injective
    obtain ⟨_, _, made⟩ | ⟨_, made⟩ := ofCodes_cases first <;>
      obtain ⟨_, _, found⟩ | ⟨_, found⟩ := ofCodes_cases second <;>
        rw [made, found] at keys ⊢ <;> cases keys <;> rfl
  · rintro rfl
    rfl

theorem settled_ne_torn (value : Json) (codes : List Code) : value.settled ≠ .torn codes := by
  cases value <;> exact Json.noConfusion

theorem codesOf_nameOf (text : List Code) : codesOf (nameOf text).toList = text := by
  rw [nameOf, String.toList_ofList, codesOf_spelling]

theorem nameOf_injective {first second : List Code} (equal : nameOf first = nameOf second) :
    first = second := by
  rw [← codesOf_nameOf first, equal, codesOf_nameOf]

theorem nameText_nameOf (text : List Code) : nameText (nameOf text) = ofCodes text := by
  rw [nameText, codesOf_nameOf]

theorem nameOf_plain {name : String} (plain : spellingMark ∉ name.toList) :
    nameOf (codes name.toList) = name := by
  rw [nameOf, spelling_codes plain, String.ofList_toList]

theorem nameText_plain {name : String} (plain : spellingMark ∉ name.toList) :
    nameText name = .text name := by
  rw [nameText, codesOf_plain plain, ofCodes_codes, String.ofList_toList]

theorem asText_eq_ok {value : Json} {text : String} (known : value.asText = .ok text) :
    value = .text text := by
  cases value with
  | text found => exact congrArg Json.text (Except.ok.inj known)
  | _ => cases known

end Json

end Restyle
