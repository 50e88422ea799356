import Mathlib.Data.Bool.AllAny
import Mathlib.Data.List.DropRight
import Restyle.Suggestion.Names

/-!
# Slugs

A slug joins the runs of letters and digits of a value with single dashes, in lower
case.  What the name of a token looks like, and that the name for a slug is that
slug again, is read off the runs.
-/

namespace Restyle.Suggestion

variable {character : Char} {family value text current run : List Char}
  {pieces : List (List Char)}

/-! ## Runs of characters that stay -/

/-- The runs of characters of a text that stay in a slug. -/
def runs (text : List Char) : List (List Char) :=
  (text.splitOnP fun character => !staysInSlug character).filter fun run => !run.isEmpty

/-- The runs of a text, where `current` are the characters before it that belong to
its first run, last character first. -/
def runsAfter (current text : List Char) : List (List Char) :=
  ((text.splitOnP fun character => !staysInSlug character).modifyHead
    (current.reverse ++ ·)).filter fun run => !run.isEmpty

theorem runsAfter_nil (filled : current ≠ []) : runsAfter current [] = [current.reverse] := by
  simp [runsAfter, List.splitOnP_nil, filled]

theorem runsAfter_cons (stays : staysInSlug character = true) :
    runsAfter current (character :: text) = runsAfter (character :: current) text := by
  rw [runsAfter, runsAfter, ← List.splitOnPPrepend_eq_modifyHead,
    ← List.splitOnPPrepend_eq_modifyHead, List.splitOnPPrepend_cons_neg (by simp [stays])]

theorem runsAfter_cons_of_gap (filled : current ≠ []) (gap : staysInSlug character = false) :
    runsAfter current (character :: text) = current.reverse :: runs text := by
  rw [runsAfter, ← List.splitOnPPrepend_eq_modifyHead,
    List.splitOnPPrepend_cons_pos (by simp [gap]), runs, List.filter_cons_of_pos]
  simpa using filled

theorem runs_eq_runsAfter : runs text = runsAfter [] text := by
  rw [runs, runsAfter, ← List.splitOnPPrepend_eq_modifyHead, List.splitOnPPrepend_nil_right]

theorem runs_cons_of_gap (gap : staysInSlug character = false) :
    runs (character :: text) = runs text := by
  rw [runs, List.splitOnP_cons_eq_if_modifyHead, if_pos (by simp [gap]), List.filter_cons_of_neg]
  · rfl
  · simp

theorem ne_nil_of_mem_runs (member : run ∈ runs text) : run ≠ [] := by
  simpa using (List.mem_filter.mp member).2

theorem mem_runsAfter (member : run ∈ runsAfter current text) (here : character ∈ run) :
    character ∈ current ∨ character ∈ text ∧ staysInSlug character = true := by
  induction text generalizing current with
  | nil =>
      left
      cases current with
      | nil => cases member
      | cons first current =>
          rw [runsAfter_nil (List.cons_ne_nil _ _), List.mem_singleton] at member
          rw [member] at here
          exact List.mem_reverse.mp here
  | cons next text induction =>
      cases stays : staysInSlug next with
      | true =>
          rw [runsAfter_cons stays] at member
          rcases induction member with before | ⟨later, kept⟩
          · rcases List.mem_cons.mp before with rfl | before
            · exact Or.inr ⟨List.mem_cons_self, stays⟩
            · exact Or.inl before
          · exact Or.inr ⟨List.mem_cons_of_mem _ later, kept⟩
      | false =>
          have further : run ∈ runs text → character ∈ next :: text ∧
              staysInSlug character = true := by
            intro among
            rw [runs_eq_runsAfter] at among
            obtain ⟨later, kept⟩ := (induction among).resolve_left List.not_mem_nil
            exact ⟨List.mem_cons_of_mem _ later, kept⟩
          cases current with
          | nil =>
              rw [← runs_eq_runsAfter, runs_cons_of_gap stays] at member
              exact Or.inr (further member)
          | cons first current =>
              rw [runsAfter_cons_of_gap (List.cons_ne_nil _ _) stays] at member
              rcases List.mem_cons.mp member with rfl | among
              · exact Or.inl (List.mem_reverse.mp here)
              · exact Or.inr (further among)

theorem mem_of_mem_runs (member : run ∈ runs text) (here : character ∈ run) :
    character ∈ text ∧ staysInSlug character = true := by
  rw [runs_eq_runsAfter] at member
  exact (mem_runsAfter member here).resolve_left List.not_mem_nil

/-! ## A slug joins its runs -/

/-- A text with dashes in place of the characters that do not stay in a slug. -/
def dashed (text : List Char) : List Char :=
  text.map fun character => if staysInSlug character then character else '-'

theorem collapseDashes_cons (other : character ≠ '-') :
    collapseDashes (character :: text) = character :: collapseDashes text := by
  simp [collapseDashes, other]

theorem dropWhile_of_collapseDashes {rest : List Char}
    (starts : collapseDashes text = '-' :: rest) :
    rest.dropWhile (· == '-') = rest := by
  induction text with
  | nil => cases starts
  | cons character text induction =>
      rw [collapseDashes] at starts
      split at starts
      · exact induction starts
      · rename_i apart
        cases starts
        cases later : collapseDashes text with
        | nil => rfl
        | cons next rest =>
            rw [later] at apart
            exact List.dropWhile_cons_of_neg (by simpa using apart)

theorem collapseDashes_dash :
    collapseDashes ('-' :: text) = '-' :: (collapseDashes text).dropWhile (· == '-') := by
  rw [collapseDashes]
  cases later : collapseDashes text with
  | nil => rfl
  | cons next rest =>
      by_cases same : next = '-'
      · subst same
        rw [if_pos (by rfl), List.dropWhile_cons_of_pos (by rfl), dropWhile_of_collapseDashes later]
      · rw [if_neg (by simpa using same), List.dropWhile_cons_of_neg (by simpa using same)]

/-- Dropping dashes at the end of a text that does not end with its first character. -/
theorem rdropWhile_cons (kept : character ≠ '-' ∨ text.rdropWhile (· == '-') ≠ []) :
    (character :: text).rdropWhile (· == '-') = character :: text.rdropWhile (· == '-') := by
  induction text using List.reverseRecOn with
  | nil =>
      have other : character ≠ '-' := by simpa using kept
      simp [List.rdropWhile_singleton, other]
  | append_singleton text last induction =>
      rw [← List.cons_append, List.rdropWhile_concat, List.rdropWhile_concat]
      split
      · rename_i dash
        rw [List.rdropWhile_concat, if_pos dash] at kept
        exact induction kept
      · rfl

/-- A text with its dashes collapsed, and none at its ends, joins the runs.  Where
the text goes on with a run, only the dashes at its end are dropped. -/
theorem joined_runs (text : List Char) :
    stripDashes (collapseDashes (dashed text)) = ['-'].intercalate (runs text) ∧
      ∀ current, current ≠ [] →
        current.reverse ++ (collapseDashes (dashed text)).rdropWhile (· == '-') =
          ['-'].intercalate (runsAfter current text) := by
  have strip : ∀ text, stripDashes text = (text.dropWhile (· == '-')).rdropWhile (· == '-') :=
    fun _ => rfl
  simp only [strip]
  induction text with
  | nil =>
      refine ⟨rfl, fun current filled => ?_⟩
      rw [runsAfter_nil filled, List.intercalate_singleton]
      exact List.append_nil _
  | cons character text induction =>
      obtain ⟨joined, goesOn⟩ := induction
      cases stays : staysInSlug character with
      | true =>
          have other : character ≠ '-' := by
            rintro rfl
            exact absurd stays (by decide)
          have front : collapseDashes (dashed (character :: text)) =
              character :: collapseDashes (dashed text) := by
            simp only [dashed, List.map_cons, stays, if_true]
            exact collapseDashes_cons other
          have after : ∀ current : List Char, current.reverse ++
              (character :: collapseDashes (dashed text)).rdropWhile (· == '-') =
                ['-'].intercalate (runsAfter current (character :: text)) := by
            intro current
            rw [rdropWhile_cons (Or.inl other), runsAfter_cons stays,
              ← goesOn (character :: current) (List.cons_ne_nil _ _)]
            simp
          rw [front]
          refine ⟨?_, fun current _ => after current⟩
          rw [runs_eq_runsAfter, ← after [], List.dropWhile_cons_of_neg (by simpa using other)]
          rfl
      | false =>
          have front : collapseDashes (dashed (character :: text)) =
              '-' :: (collapseDashes (dashed text)).dropWhile (· == '-') := by
            simp only [dashed, List.map_cons, stays, Bool.false_eq_true, if_false]
            exact collapseDashes_dash
          rw [front, runs_cons_of_gap stays, List.dropWhile_cons_of_pos (by rfl),
            List.dropWhile_idempotent]
          refine ⟨joined, fun current filled => ?_⟩
          rw [runsAfter_cons_of_gap filled stays]
          cases later : runs text with
          | nil =>
              rw [later, List.intercalate_nil, List.rdropWhile_eq_nil_iff] at joined
              rw [List.intercalate_singleton, List.append_right_eq_self,
                List.rdropWhile_eq_nil_iff]
              exact List.forall_mem_cons.mpr ⟨rfl, joined⟩
          | cons next others =>
              have starts : next ≠ [] := ne_nil_of_mem_runs (later ▸ List.mem_cons_self)
              rw [List.intercalate_cons_cons, ← later, ← joined, rdropWhile_cons]
              · simp
              · right
                rw [joined, later]
                cases others <;> simp [starts]

/-! ## Lower case -/

/-- Whether a character is a lower-case letter or a digit. -/
def IsPlain (character : Char) : Prop := character.isLower = true ∨ character.isDigit = true

instance : Decidable (IsPlain character) :=
  inferInstanceAs (Decidable (character.isLower = true ∨ character.isDigit = true))

/-- The letters beyond ASCII that count as letters from A to Z. -/
def foldedLetters : List Char := ['\u212A', '\u017F', '\u0130', '\u0131']

/-- Whether a character is one that lower case can give. -/
def IsLowered (character : Char) : Prop :=
  IsPlain character ∨ character ∈ ['\u017F', '\u0131', '\u0307']

instance : Decidable (IsLowered character) :=
  inferInstanceAs (Decidable (IsPlain character ∨ _))

theorem IsPlain.range (plain : IsPlain character) :
    97 ≤ character.toNat ∧ character.toNat ≤ 122 ∨
      48 ≤ character.toNat ∧ character.toNat ≤ 57 := by
  have lower : character.isLower =
      (decide ('a'.val ≤ character.val) && decide (character.val ≤ 'z'.val)) := rfl
  have digit : character.isDigit =
      (decide ('0'.val ≤ character.val) && decide (character.val ≤ '9'.val)) := rfl
  simpa [IsPlain, lower, digit, UInt32.le_iff_toNat_le] using plain

theorem IsPlain.stays (plain : IsPlain character) : staysInSlug character = true := by
  rcases plain with lower | digit
  · have letter : character.isAlpha = true := (Bool.or_eq_true _ _).mpr (Or.inr lower)
    simp [staysInSlug, isLatinLetter, letter]
  · simp [staysInSlug, digit]

theorem toNat_lt_of_stays (stays : staysInSlug character = true) :
    character ∈ foldedLetters ∨ character.toNat < 128 := by
  have alpha : character.isAlpha =
      (decide ('A'.val ≤ character.val ∧ character.val ≤ 'Z'.val) ||
        decide ('a'.val ≤ character.val) && decide (character.val ≤ 'z'.val)) := rfl
  have decimal : character.isDigit =
      (decide ('0'.val ≤ character.val) && decide (character.val ≤ '9'.val)) := rfl
  simp only [staysInSlug, isLatinLetter, alpha, decimal, Bool.or_eq_true, Bool.and_eq_true,
    decide_eq_true_eq, beq_iff_eq, UInt32.le_iff_toNat_le] at stays
  rcases stays with ((((letter | kelvin) | long) | dotted) | dotless) | digit
  · refine Or.inr (Nat.lt_of_le_of_lt (m := 122) ?_ (by decide))
    exact letter.elim (fun upper => upper.2.trans (by decide)) (fun lower => lower.2)
  · simp [foldedLetters, kelvin]
  · simp [foldedLetters, long]
  · simp [foldedLetters, dotted]
  · simp [foldedLetters, dotless]
  · exact Or.inr (Nat.lt_of_le_of_lt digit.2 (by decide))

/-- Lower case of an ASCII character that stays is plain, and a plain one is lower
case. -/
theorem lowerCase_ascii (ascii : character.toNat < 128) (stays : staysInSlug character = true) :
    (∀ lowered ∈ lowerCase character, IsPlain lowered) ∧
      (IsPlain character → lowerCase character = [character]) := by
  have all : ∀ code < 128, staysInSlug (Char.ofNat code) = true →
      ((lowerCase (Char.ofNat code)).all fun lowered => IsPlain lowered) = true ∧
        (IsPlain (Char.ofNat code) → lowerCase (Char.ofNat code) = [Char.ofNat code]) := by
    decide +kernel
  have same := all character.toNat ascii
  rw [Char.ofNat_toNat, List.all_iff_forall_prop] at same
  exact same stays

theorem IsPlain.lowerCase (plain : IsPlain character) : lowerCase character = [character] := by
  refine (lowerCase_ascii ?_ plain.stays).2 plain
  rcases plain.range with range | range <;> omega

theorem flatMap_lowerCase (plain : ∀ letter ∈ text, IsPlain letter) :
    text.flatMap lowerCase = text := by
  rw [List.flatMap_congr fun letter member => (plain letter member).lowerCase]
  exact List.flatMap_singleton' text

theorem lowerCase_ne_nil (character : Char) : lowerCase character ≠ [] := by
  unfold lowerCase
  split
  · exact List.cons_ne_nil _ _
  · split <;> exact List.cons_ne_nil _ _

theorem isLowered_of_mem_lowerCase {lowered : Char} (stays : staysInSlug character = true)
    (member : lowered ∈ lowerCase character) : IsLowered lowered := by
  rcases toNat_lt_of_stays stays with folded | ascii
  · have all : (foldedLetters.all fun character =>
        (lowerCase character).all fun lowered => IsLowered lowered) = true := by decide
    exact List.all_iff_forall_prop.mp (List.all_eq_true.mp all character folded) lowered member
  · exact Or.inl ((lowerCase_ascii ascii stays).1 lowered member)

/-! ## Pieces joined by dashes -/

theorem flatMap_intercalate {transform : Char → List Char} (kept : transform '-' = ['-'])
    (pieces : List (List Char)) :
    (['-'].intercalate pieces).flatMap transform =
      ['-'].intercalate (pieces.map (·.flatMap transform)) := by
  induction pieces with
  | nil => rfl
  | cons piece pieces induction =>
      cases pieces with
      | nil => simp
      | cons next pieces =>
          rw [List.intercalate_cons_cons, List.flatMap_append, List.flatMap_append, induction]
          simp [List.intercalate_cons_cons, kept]

theorem mem_intercalate (member : character ∈ ['-'].intercalate pieces) :
    character = '-' ∨ ∃ piece ∈ pieces, character ∈ piece := by
  induction pieces with
  | nil => cases member
  | cons piece pieces induction =>
      cases pieces with
      | nil => exact Or.inr ⟨piece, List.mem_cons_self, by simpa using member⟩
      | cons next pieces =>
          rw [List.intercalate_cons_cons, List.append_assoc, List.mem_append, List.mem_append,
            List.mem_singleton] at member
          rcases member with here | dash | later
          · exact Or.inr ⟨piece, List.mem_cons_self, here⟩
          · exact Or.inl dash
          · refine (induction later).imp_right ?_
            exact fun ⟨other, among, there⟩ => ⟨other, List.mem_cons_of_mem _ among, there⟩

theorem runs_intercalate (filled : ∀ piece ∈ pieces, piece ≠ [])
    (stay : ∀ piece ∈ pieces, ∀ character ∈ piece, staysInSlug character = true) :
    runs (['-'].intercalate pieces) = pieces := by
  induction pieces with
  | nil => rfl
  | cons piece pieces induction =>
      obtain ⟨first, filled⟩ := List.forall_mem_cons.mp filled
      obtain ⟨stays, stay⟩ := List.forall_mem_cons.mp stay
      have whole : ∀ character ∈ piece, (!staysInSlug character) = false := by
        simpa using stays
      cases pieces with
      | nil =>
          rw [List.intercalate_singleton, runs, List.splitOnP_eq_singleton whole]
          simpa using first
      | cons next pieces =>
          have rest := induction filled stay
          rw [runs] at rest
          rw [List.intercalate_cons_cons, List.append_assoc, List.singleton_append, runs,
            List.splitOnP_append_cons_of_forall_mem whole '-' (by decide), List.filter_cons_of_pos,
            rest]
          simpa using first

/-- Pieces that are joined by dashes leave none at the ends and none beside another. -/
theorem dashes_apart (present : pieces ≠ []) (filled : ∀ piece ∈ pieces, piece ≠ [])
    (plain : ∀ piece ∈ pieces, '-' ∉ piece) (joined : ['-'].intercalate pieces = text) :
    text ≠ [] ∧ text.head? ≠ some '-' ∧ text.getLast? ≠ some '-' ∧ ¬ ['-', '-'] <:+: text := by
  have cut : text.splitOn '-' = pieces := by
    rw [← joined]
    exact List.splitOn_intercalate '-' plain present
  have noGap : [] ∉ text.splitOn '-' := fun member => filled [] (cut ▸ member) rfl
  refine ⟨?_, ?_, ?_, ?_⟩
  · rintro rfl
    exact noGap (by simp)
  · intro starts
    obtain ⟨rest, rfl⟩ := List.head?_eq_some_iff.mp starts
    exact noGap (by simp [List.splitOn_cons_eq_if_modifyHead])
  · intro ends
    obtain ⟨rest, rfl⟩ := List.getLast?_eq_some_iff.mp ends
    exact noGap (by simp [List.splitOn_append_cons_self])
  · rintro ⟨before, after, rfl⟩
    apply noGap
    rw [List.append_assoc, List.cons_append, List.splitOn_append_cons_self]
    simp [List.splitOn_cons_eq_if_modifyHead]

/-! ## Slugs of values -/

theorem mem_of_bracketed? (found : bracketed? value = some text) (member : character ∈ text) :
    character ∈ value := by
  fun_induction bracketed? value with
  | case1 => cases found
  | case2 rest inside closed =>
      rw [← Option.some.inj found] at member
      exact List.mem_cons_of_mem _ (List.takeWhile_subset _ member)
  | case3 rest inside open' induction => exact List.mem_cons_of_mem _ (induction found)
  | case4 first rest other induction => exact List.mem_cons_of_mem _ (induction found)

theorem bracketed?_of_plain (plain : '[' ∉ value) : bracketed? value = none := by
  fun_induction bracketed? value with
  | case1 => rfl
  | case2 rest inside closed => exact absurd List.mem_cons_self plain
  | case3 rest inside open' induction => exact absurd List.mem_cons_self plain
  | case4 first rest other induction =>
      exact induction fun member => plain (List.mem_cons_of_mem _ member)

/-- The text of a value whose runs the slug joins. -/
def bareValue (value : List Char) : List Char := Text.dropLead ['#'] (literalValue value)

theorem mem_bareValue (member : character ∈ bareValue value) : character ∈ value := by
  have literal : ∀ {character}, character ∈ literalValue value → character ∈ value := by
    intro character member
    rw [literalValue] at member
    cases found : bracketed? value with
    | none => rwa [found] at member
    | some text =>
        rw [found] at member
        exact mem_of_bracketed? found member
  apply literal
  rw [bareValue] at member
  cases whole : literalValue value with
  | nil =>
      rw [whole] at member
      exact member
  | cons first rest =>
      rw [whole, Text.dropLead, Text.dropLead?] at member
      split at member
      · exact List.mem_cons_of_mem _ member
      · exact member

def loweredRuns (value : List Char) : List (List Char) :=
  (runs (bareValue value)).map (·.flatMap lowerCase)

theorem slug_eq (value : List Char) : slug value = ['-'].intercalate (loweredRuns value) := by
  show (stripDashes (collapseDashes (dashed (bareValue value)))).flatMap lowerCase = _
  rw [(joined_runs (bareValue value)).1, flatMap_intercalate (by decide), loweredRuns]

/-- The slug of a value, or the word that stands for an empty one. -/
def slugOrCustom (value : List Char) : List Char :=
  if (slug value).isEmpty then "custom".toList else slug value

def slugPieces (value : List Char) : List (List Char) :=
  if loweredRuns value = [] then ["custom".toList] else loweredRuns value

theorem slugPieces_ne_nil (value : List Char) : slugPieces value ≠ [] := by
  unfold slugPieces
  split
  · exact List.cons_ne_nil _ _
  · assumption

theorem ne_nil_of_mem_slugPieces {piece : List Char} (member : piece ∈ slugPieces value) :
    piece ≠ [] := by
  unfold slugPieces at member
  split at member
  · rw [List.mem_singleton.mp member]
    decide
  · obtain ⟨run, among, rfl⟩ := List.mem_map.mp member
    obtain ⟨first, rest, rfl⟩ := List.exists_cons_of_ne_nil (ne_nil_of_mem_runs among)
    rw [List.flatMap_cons]
    exact List.append_ne_nil_of_left_ne_nil (lowerCase_ne_nil first) _

theorem slugOrCustom_eq (value : List Char) :
    slugOrCustom value = ['-'].intercalate (slugPieces value) := by
  unfold slugOrCustom slugPieces
  rw [slug_eq]
  cases lowered : loweredRuns value with
  | nil => rfl
  | cons piece pieces =>
      have starts : piece ≠ [] := by
        apply @ne_nil_of_mem_slugPieces value
        rw [slugPieces, lowered, if_neg (List.cons_ne_nil _ _)]
        exact List.mem_cons_self
      rw [if_neg, if_neg (List.cons_ne_nil _ _)]
      cases pieces <;> simp [starts]

/-- What lower case gives for the characters of a value the pieces of its slug hold. -/
theorem slugPieces_induction {motive : Char → Prop}
    (custom : ∀ letter ∈ "custom".toList, motive letter)
    (lowered : ∀ character ∈ value, staysInSlug character = true →
      ∀ letter ∈ lowerCase character, motive letter) :
    ∀ piece ∈ slugPieces value, ∀ letter ∈ piece, motive letter := by
  intro piece member letter here
  unfold slugPieces at member
  split at member
  · rw [List.mem_singleton.mp member] at here
    exact custom letter here
  · obtain ⟨run, among, rfl⟩ := List.mem_map.mp member
    obtain ⟨character, inside, gives⟩ := List.mem_flatMap.mp here
    obtain ⟨bare, stays⟩ := mem_of_mem_runs among inside
    exact lowered character (mem_bareValue bare) stays letter gives

theorem isLowered_of_mem_slugPieces :
    ∀ piece ∈ slugPieces value, ∀ letter ∈ piece, IsLowered letter :=
  slugPieces_induction (List.all_iff_forall_prop.mp (by decide)) fun _ _ stays _ gives =>
    isLowered_of_mem_lowerCase stays gives

theorem isPlain_of_mem_slugPieces (ascii : ∀ character ∈ value, character ∉ foldedLetters) :
    ∀ piece ∈ slugPieces value, ∀ letter ∈ piece, IsPlain letter := by
  refine slugPieces_induction (List.all_iff_forall_prop.mp (by decide)) ?_
  intro character member stays
  exact (lowerCase_ascii ((toNat_lt_of_stays stays).resolve_left (ascii character member)) stays).1

theorem slugOrCustom_of_plain (present : pieces ≠ []) (filled : ∀ piece ∈ pieces, piece ≠ [])
    (plain : ∀ piece ∈ pieces, ∀ letter ∈ piece, IsPlain letter) :
    slugOrCustom (['-'].intercalate pieces) = ['-'].intercalate pieces := by
  have letters : ∀ letter ∈ ['-'].intercalate pieces, letter = '-' ∨ IsPlain letter := by
    intro letter member
    refine (mem_intercalate member).imp_right ?_
    exact fun ⟨piece, among, here⟩ => plain piece among letter here
  have literal : literalValue (['-'].intercalate pieces) = ['-'].intercalate pieces := by
    rw [literalValue, bracketed?_of_plain, Option.getD_none]
    exact fun member => absurd (letters _ member) (by decide)
  have bare : bareValue (['-'].intercalate pieces) = ['-'].intercalate pieces := by
    rw [bareValue, literal]
    cases whole : ['-'].intercalate pieces with
    | nil => rfl
    | cons first rest =>
        have notHash : first ≠ '#' := by
          rintro rfl
          exact absurd (letters '#' (whole ▸ List.mem_cons_self)) (by decide)
        rw [Text.dropLead, Text.dropLead?, if_neg (by simpa using notHash.symm), Option.getD_none]
  have same : loweredRuns (['-'].intercalate pieces) = pieces := by
    rw [loweredRuns, bare, runs_intercalate filled fun piece among letter here =>
      (plain piece among letter here).stays]
    exact (List.map_congr_left fun piece among => flatMap_lowerCase (plain piece among)).trans
      (List.map_id pieces)
  rw [slugOrCustom_eq, slugPieces, same, if_neg present]

/-- The name of a token ends in a slug that joins the lowered runs of its value with
single dashes.  Unless the value has a folded letter, the slug is ASCII and the token
for it has the same name. -/
theorem tokenName_joins_slug (family value : List Char) :
    tokenName family value = "--".toList ++ family ++ '-' :: slugOrCustom value ∧
      slugOrCustom value = ['-'].intercalate (slugPieces value) ∧
      (slugOrCustom value ≠ [] ∧ (slugOrCustom value).head? ≠ some '-' ∧
        (slugOrCustom value).getLast? ≠ some '-' ∧ ¬ ['-', '-'] <:+: slugOrCustom value) ∧
      (∀ letter ∈ slugOrCustom value, letter = '-' ∨ IsLowered letter) ∧
      ((∀ character ∈ value, character ∉ foldedLetters) →
        (∀ letter ∈ slugOrCustom value, letter.toNat < 128) ∧
          tokenName family (slugOrCustom value) = tokenName family value) := by
  have joined := slugOrCustom_eq value
  have lowered := @isLowered_of_mem_slugPieces value
  have noDash : ∀ piece ∈ slugPieces value, '-' ∉ piece :=
    fun piece among dash => absurd (lowered piece among '-' dash) (by decide)
  have filled : ∀ piece ∈ slugPieces value, piece ≠ [] := fun _ => ne_nil_of_mem_slugPieces
  refine ⟨rfl, joined, dashes_apart (slugPieces_ne_nil value) filled noDash joined.symm, ?_, ?_⟩
  · intro letter member
    rw [joined] at member
    refine (mem_intercalate member).imp_right ?_
    exact fun ⟨piece, among, here⟩ => lowered piece among letter here
  · intro ascii
    have plain := isPlain_of_mem_slugPieces ascii
    constructor
    · intro letter member
      rw [joined] at member
      rcases mem_intercalate member with rfl | ⟨piece, among, here⟩
      · decide
      · rcases (plain piece among letter here).range with range | range <;> omega
    · have again : slugOrCustom (slugOrCustom value) = slugOrCustom value := by
        rw [joined]
        exact slugOrCustom_of_plain (slugPieces_ne_nil value) filled plain
      show _ ++ '-' :: slugOrCustom (slugOrCustom value) = _ ++ '-' :: slugOrCustom value
      rw [again]

theorem tokenName_joins_slug_hue :
    tokenName "color".toList "bg-[#--F\u00E90  G--]/5".toList = "--color-f-0-g".toList ∧
      tokenName "color".toList "f-0-g".toList = "--color-f-0-g".toList := by
  obtain ⟨_, _, _, _, same⟩ :=
    tokenName_joins_slug "color".toList "bg-[#--F\u00E90  G--]/5".toList
  have slugged : slugOrCustom "bg-[#--F\u00E90  G--]/5".toList = "f-0-g".toList := by
    decide +kernel
  have named : tokenName "color".toList "bg-[#--F\u00E90  G--]/5".toList =
      "--color-f-0-g".toList := by
    decide +kernel
  obtain ⟨_, again⟩ := same (List.all_iff_forall_prop.mp (by decide +kernel))
  rw [slugged] at again
  exact ⟨named, again.trans named⟩

end Restyle.Suggestion
