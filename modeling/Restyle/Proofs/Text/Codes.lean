import Restyle.Text.Codes

/-!
# Spelled names read back

The codes of a text are got back from the name that spells it, so no two texts have
one name.  A name in which the mark does not stand spells itself.
-/

namespace Restyle.Text

theorem characters?_codes (text : List Char) : characters? (codes text) = some text := by
  induction text with
  | nil => rfl
  | cons first rest induction =>
      show (characters? (codes rest)).map (first :: ·) = _
      rw [induction]
      rfl

theorem eq_codes_of_characters? {text : List Code} {characters : List Char}
    (whole : characters? text = some characters) : text = codes characters := by
  induction text generalizing characters with
  | nil =>
      cases whole
      rfl
  | cons first rest induction =>
      cases first with
      | character value =>
          obtain ⟨later, known, rfl⟩ := Option.map_eq_some_iff.mp whole
          exact congrArg (Code.character value :: ·) (induction known)
      | surrogate offset => cases whole

theorem characters?_eq_none_iff {text : List Code} :
    characters? text = none ↔ ∃ offset, .surrogate offset ∈ text := by
  induction text with
  | nil => simp [characters?]
  | cons first rest induction =>
      cases first with
      | character value => simp [characters?, induction]
      | surrogate offset => simp [characters?]

theorem codesOf_cons {first : Char} (plain : first ≠ spellingMark) (rest : List Char) :
    codesOf (first :: rest) = .character first :: codesOf rest := by
  cases rest with
  | nil => rfl
  | cons second rest => rw [codesOf, if_neg plain]

theorem codesOf_mark (second : Char) (rest : List Char) :
    codesOf (spellingMark :: second :: rest) =
      (if small : second.toNat < 0x800 then Code.surrogate ⟨second.toNat, small⟩
        else .character second) :: codesOf rest := by
  rw [codesOf, if_pos rfl]

theorem codesOf_spelled (first : Code) (rest : List Char) :
    codesOf (first.spelled ++ rest) = first :: codesOf rest := by
  cases first with
  | character value =>
      rw [Code.spelled]
      split
      · rename_i mark
        rw [mark]
        exact codesOf_mark spellingMark rest
      · rename_i plain
        exact codesOf_cons plain rest
  | surrogate offset =>
      have number : (Char.ofNat offset.val).toNat = offset.val := by
        rw [Char.ofNat, dif_pos (Or.inl (by omega))]
        rfl
      rw [Code.spelled]
      refine (codesOf_mark _ rest).trans ?_
      rw [dif_pos (by omega)]
      simp only [number]

theorem codesOf_spelling (text : List Code) : codesOf (spelling text) = text := by
  induction text with
  | nil => rfl
  | cons first rest induction =>
      rw [spelling, List.flatMap_cons, codesOf_spelled]
      exact congrArg (first :: ·) induction

theorem codesOf_plain {name : List Char} (plain : spellingMark ∉ name) :
    codesOf name = codes name := by
  induction name with
  | nil => rfl
  | cons first rest induction =>
      rw [List.mem_cons, not_or] at plain
      rw [codesOf_cons (Ne.symm plain.1), induction plain.2]
      rfl

theorem spelling_codes {name : List Char} (plain : spellingMark ∉ name) :
    spelling (codes name) = name := by
  induction name with
  | nil => rfl
  | cons first rest induction =>
      rw [List.mem_cons, not_or] at plain
      show (Code.character first).spelled ++ spelling (codes rest) = _
      rw [Code.spelled, if_neg (Ne.symm plain.1), induction plain.2]
      rfl

/-! ## Surrogates that do not pair -/

/-- Whether no two neighbours of a text are the halves of a pair. -/
def IsApart : List Code → Prop
  | first :: second :: rest =>
      (first.isHigh = true → second.isLow = false) ∧ IsApart (second :: rest)
  | _ => True

theorem isApart_codes (text : List Char) : IsApart (codes text) := by
  induction text with
  | nil => trivial
  | cons first rest induction =>
      cases rest with
      | nil => trivial
      | cons second rest => exact ⟨fun high => Bool.noConfusion high, induction⟩

theorem isApart_single (code : Code) : IsApart [code] := trivial

end Restyle.Text
