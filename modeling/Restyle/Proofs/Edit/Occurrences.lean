import Restyle.Edit

/-!
# Where a target stands

The search for a target finds its first occurrence, and fails only if there is
none.  The search near a column finds the first occurrence in the window around the
column, and goes on to the whole line when there is none in the window.  An end of
the window that is negative, and so counts back from the end of the line, only makes
the window smaller.
-/

namespace Restyle

namespace Text

variable {needle text : List Char} {character : Char} {index : Nat}

/-- Whether one text stands at an offset of another. -/
def StandsAt (needle text : List Char) (index : Nat) : Prop :=
  ∃ before after, text = before ++ needle ++ after ∧ before.length = index

theorem standsAt_zero : StandsAt needle text 0 ↔ needle <+: text := by
  constructor
  · rintro ⟨before, after, rfl, none⟩
    rw [List.length_eq_zero_iff.mp none]
    exact ⟨after, rfl⟩
  · rintro ⟨after, rfl⟩
    exact ⟨[], after, rfl, rfl⟩

theorem standsAt_cons_succ :
    StandsAt needle (character :: text) (index + 1) ↔ StandsAt needle text index := by
  constructor
  · rintro ⟨before, after, split, length⟩
    obtain ⟨first, before, rfl⟩ := List.exists_cons_of_length_eq_add_one length
    exact ⟨before, after, (List.cons.inj split).2, Nat.succ.inj length⟩
  · rintro ⟨before, after, rfl, rfl⟩
    exact ⟨character :: before, after, rfl, rfl⟩

theorem StandsAt.getElem? (stands : StandsAt (character :: needle) text index) :
    text[index]? = some character := by
  obtain ⟨before, after, rfl, rfl⟩ := stands
  simp

/-- A text occurs in another exactly if it stands at some offset. -/
theorem isInfix_iff_standsAt : needle <:+: text ↔ ∃ index, StandsAt needle text index := by
  constructor
  · rintro ⟨before, after, split⟩
    exact ⟨before.length, before, after, split.symm, rfl⟩
  · rintro ⟨_, before, after, split, _⟩
    exact ⟨before, after, split.symm⟩

theorem indexOf?_eq_none_iff :
    indexOf? needle text = none ↔ ∀ index, ¬ StandsAt needle text index := by
  induction text with
  | nil =>
      cases needle with
      | nil =>
          have there : StandsAt [] [] 0 := standsAt_zero.mpr List.prefix_rfl
          exact ⟨(nomatch ·), fun nowhere => absurd there (nowhere 0)⟩
      | cons first needle =>
          refine ⟨fun _ index => ?_, fun _ => rfl⟩
          rintro ⟨before, after, split, _⟩
          simp at split
  | cons character text induction =>
      rw [indexOf?]
      split
      · rename_i here
        have there := standsAt_zero.mpr (List.isPrefixOf_iff_prefix.mp here)
        exact ⟨(nomatch ·), fun nowhere => absurd there (nowhere 0)⟩
      · rename_i elsewhere
        rw [Option.map_eq_none_iff, induction]
        constructor
        · intro nowhere index stands
          cases index with
          | zero => exact elsewhere (List.isPrefixOf_iff_prefix.mpr (standsAt_zero.mp stands))
          | succ index => exact nowhere index (standsAt_cons_succ.mp stands)
        · exact fun nowhere index stands => nowhere (index + 1) (standsAt_cons_succ.mpr stands)

theorem indexOf?_eq_some (found : indexOf? needle text = some index) :
    StandsAt needle text index ∧ ∀ other, StandsAt needle text other → index ≤ other := by
  induction text generalizing index with
  | nil =>
      rw [indexOf?] at found
      split at found
      · rename_i empty
        cases found
        rw [List.isEmpty_iff.mp empty]
        exact ⟨standsAt_zero.mpr List.prefix_rfl, fun _ _ => Nat.zero_le _⟩
      · cases found
  | cons character text induction =>
      rw [indexOf?] at found
      split at found
      · rename_i here
        cases found
        have there := List.isPrefixOf_iff_prefix.mp here
        exact ⟨standsAt_zero.mpr there, fun _ _ => Nat.zero_le _⟩
      · rename_i elsewhere
        obtain ⟨later, further, rfl⟩ := Option.map_eq_some_iff.mp found
        obtain ⟨stands, first⟩ := induction further
        refine ⟨standsAt_cons_succ.mpr stands, ?_⟩
        intro other there
        cases other with
        | zero => exact absurd (List.isPrefixOf_iff_prefix.mpr (standsAt_zero.mp there)) elsewhere
        | succ other => exact Nat.succ_le_succ (first other (standsAt_cons_succ.mp there))

theorem StandsAt.indexOf? (stands : StandsAt needle text index) :
    ∃ first, Text.indexOf? needle text = some first ∧ first ≤ index := by
  cases found : Text.indexOf? needle text with
  | none => exact absurd stands (indexOf?_eq_none_iff.mp found index)
  | some first => exact ⟨first, rfl, (indexOf?_eq_some found).2 index stands⟩

end Text

open Text

variable {target line : List Char} {column : Int} {index start place : Nat} {stop : Int}

/-! ## The window around a column -/

theorem standsAt_of_slice (filled : target ≠ [])
    (stands : StandsAt target (slice line start stop) index) :
    StandsAt target line (start + index) := by
  obtain ⟨before, after, split, rfl⟩ := stands
  unfold slice at split
  dsimp only at split
  generalize (if stop < 0 then (line.length + stop).toNat else stop.toNat) = last at split
  have within : start ≤ (line.take last).length := by
    apply Nat.le_of_not_lt
    intro beyond
    rw [List.drop_eq_nil_of_le (Nat.le_of_lt beyond)] at split
    simp [filled] at split
  refine ⟨(line.take last).take start ++ before, after ++ line.drop last, ?_, ?_⟩
  · calc
      line = (line.take last).take start ++ (line.take last).drop start ++ line.drop last := by
        rw [List.take_append_drop, List.take_append_drop]
      _ = _ := by rw [split]; simp
  · rw [List.length_append, List.length_take, Nat.min_eq_left within]

/-- An occurrence between the ends of a part of a line is one in the part. -/
theorem Text.StandsAt.slice (stands : StandsAt target line (start + place))
    (within : (start + place + target.length : Int) ≤ stop) :
    StandsAt target (slice line start stop) place := by
  obtain ⟨before, after, rfl, length⟩ := stands
  have notNegative : ¬ stop < 0 := by omega
  obtain ⟨more, enough⟩ : ∃ more, stop.toNat = (before ++ target).length + more :=
    ⟨stop.toNat - (before ++ target).length, by rw [List.length_append]; omega⟩
  refine ⟨before.drop start, after.take more, ?_, ?_⟩
  · rw [Restyle.slice, if_neg notNegative, enough, List.take_length_add_append,
      List.append_assoc, List.drop_append_of_le_length (by omega)]
    simp
  · rw [List.length_drop]
    omega

theorem indexNear?_eq_some (filled : target ≠ [])
    (found : indexNear? target column line = some index) : StandsAt target line index := by
  unfold indexNear? at found
  dsimp only at found
  split at found
  · rename_i inside
    cases found
    exact standsAt_of_slice filled (indexOf?_eq_some inside).1
  · exact (indexOf?_eq_some found).1

theorem indexNear?_eq_none_iff (filled : target ≠ []) :
    indexNear? target column line = none ↔ ∀ index, ¬ StandsAt target line index := by
  constructor
  · intro missed
    unfold indexNear? at missed
    dsimp only at missed
    split at missed
    · cases missed
    · exact indexOf?_eq_none_iff.mp missed
  · intro nowhere
    cases found : indexNear? target column line with
    | none => rfl
    | some index => exact absurd (indexNear?_eq_some filled found) (nowhere index)

/-- The search near an occurrence finds the first one that starts at most five
characters before it. -/
theorem indexNear?_of_standsAt (filled : target ≠ []) (stands : StandsAt target line place) :
    ∃ index, indexNear? target place line = some index ∧ StandsAt target line index ∧
      index ≤ place ∧ place ≤ index + 5 ∧
      ∀ other, StandsAt target line other → place ≤ other + 5 → index ≤ other := by
  obtain ⟨start, starts⟩ : ∃ start, start = ((place : Int) - windowBefore).toNat := ⟨_, rfl⟩
  obtain ⟨stop, stops⟩ : ∃ stop, stop =
      min (line.length : Int) (place + target.length + windowAfter) := ⟨_, rfl⟩
  unfold windowBefore at starts
  unfold windowAfter at stops
  have length : place + target.length ≤ line.length := by
    obtain ⟨before, after, rfl, rfl⟩ := stands
    simp only [List.length_append]
    omega
  -- The window reaches past the end of the place, so what starts in it up to there is in it.
  have inWindow : ∀ other, StandsAt target line (start + other) → start + other ≤ place →
      StandsAt target (slice line start stop) other := by
    intro other there upTo
    apply there.slice
    omega
  obtain ⟨gap, here⟩ : ∃ gap, place = start + gap := ⟨place - start, by omega⟩
  obtain ⟨first, found, upTo⟩ := (inWindow gap (here ▸ stands) (by omega)).indexOf?
  obtain ⟨inside, least⟩ := indexOf?_eq_some found
  refine ⟨start + first, ?_, standsAt_of_slice filled inside, by omega, by omega, ?_⟩
  · unfold indexNear?
    simp only [windowBefore, windowAfter, ← starts, ← stops, found]
  · intro other there near
    rcases Nat.lt_or_ge place other with beyond | before
    · omega
    · obtain ⟨offset, same⟩ : ∃ offset, other = start + offset := ⟨other - start, by omega⟩
      have notBefore := least offset (inWindow offset (same ▸ there) (by omega))
      omega

end Restyle
