import Mathlib.Data.List.TakeWhile
import Restyle.Proofs.Text.Trimming

/-!
# Expressions that are matched by trying

An expression can match the start of a text in several ways, which are tried in an
order; the first way is the match.  `Expression.ways` lists them in that order, and
`Expression.Fits` is what they are like without regard to the order.  Where all ways
have the same groups the order does not matter.
-/

namespace Restyle.Text

/-- What is matched against the start of a text. -/
inductive Expression where
  /-- One of some texts, tried in turn. -/
  | anyOf (texts : List (List Char))
  /-- At least so many characters that pass a test, first as many as possible or
  first as few as possible. -/
  | run (greedy : Bool) (least : Nat) (test : Char → Bool)
  /-- The end of the text, or a final line feed that is left. -/
  | ending
  | group (inner : Expression)
  | join (first second : Expression)
  | either (first second : Expression)

/-- A text as it is. -/
def Expression.literal (text : List Char) : Expression := .anyOf [text]

/-- One character or more that pass a test, as many as possible, as a group. -/
def Expression.field (test : Char → Bool) : Expression := .group (.run true 1 test)

/-- A way to match: what is taken off a text, what the groups have of it, and what is
left. -/
structure Way where
  taken : List Char
  groups : List (List Char)
  rest : List Char

namespace Way

/-- Nothing is taken. -/
def stay (text : List Char) : Way := ⟨[], [], text⟩

def after (character : Char) (way : Way) : Way := { way with taken := character :: way.taken }

def asGroup (way : Way) : Way := { way with groups := way.taken :: way.groups }

def followedBy (way later : Way) : Way :=
  ⟨way.taken ++ later.taken, way.groups ++ later.groups, later.rest⟩

end Way

/-- The ways to take at least so many characters that pass a test. -/
def takings (greedy : Bool) (test : Char → Bool) (least : Nat) : List Char → List Way
  | [] => if least = 0 then [.stay []] else []
  | character :: rest =>
      let here := if least = 0 then [.stay (character :: rest)] else []
      let further :=
        if test character then (takings greedy test (least - 1) rest).map (Way.after character)
        else []
      if greedy then further ++ here else here ++ further

namespace Expression

/-- The ways to match the start of a text, the one that is tried first in front. -/
def ways : Expression → List Char → List Way
  | anyOf texts, text =>
      texts.filterMap fun lead => (dropLead? lead text).map fun rest => ⟨lead, [], rest⟩
  | run greedy least test, text => takings greedy test least text
  | ending, text => if text = [] ∨ text = ['\n'] then [.stay text] else []
  | group inner, text => (inner.ways text).map Way.asGroup
  | join first second, text =>
      (first.ways text).flatMap fun way => (second.ways way.rest).map way.followedBy
  | either first second, text => first.ways text ++ second.ways text

/-- The groups of the match at the start of a text. -/
def match? (expression : Expression) (text : List Char) : Option (List (List Char)) :=
  (expression.ways text).head?.map Way.groups

/-- Whether an expression can take a text off the front of another, and with which
groups. -/
def Fits : Expression → List Char → List (List Char) → List Char → Prop
  | anyOf texts, taken, groups, _ => taken ∈ texts ∧ groups = []
  | run _ least test, taken, groups, _ =>
      least ≤ taken.length ∧ (∀ character ∈ taken, test character = true) ∧ groups = []
  | ending, taken, groups, rest => taken = [] ∧ groups = [] ∧ (rest = [] ∨ rest = ['\n'])
  | group inner, taken, groups, rest =>
      ∃ others, groups = taken :: others ∧ inner.Fits taken others rest
  | join first second, taken, groups, rest =>
      ∃ front back lead others, taken = front ++ back ∧ groups = lead ++ others ∧
        first.Fits front lead (back ++ rest) ∧ second.Fits back others rest
  | either first second, taken, groups, rest =>
      first.Fits taken groups rest ∨ second.Fits taken groups rest

end Expression

variable {text taken rest : List Char} {groups : List (List Char)} {greedy : Bool}
  {test : Char → Bool} {least : Nat} {way : Way}

/-! ## Runs of characters -/

/-- Whether there are characters in a text and all of them pass a test. -/
structure IsRunOf (test : Char → Bool) (text : List Char) : Prop where
  filled : text ≠ []
  passes : ∀ character ∈ text, test character = true

namespace IsRunOf

theorem not_mem (run : IsRunOf test text) {character : Char} (fails : test character = false) :
    character ∉ text := by
  intro member
  rw [run.passes character member] at fails
  cases fails

theorem getLast?_ne (run : IsRunOf test text) {character : Char} (fails : test character = false)
    (lead : List Char) : (lead ++ text).getLast? ≠ some character := by
  rw [List.getLast?_append_of_ne_nil _ run.filled]
  intro last
  exact run.not_mem fails (List.mem_of_getLast? last)

theorem span (run : IsRunOf test text) (rest : List Char)
    (stops : ∀ character ∈ rest.head?, test character = false) :
    (text ++ rest).takeWhile test = text ∧ (text ++ rest).dropWhile test = rest := by
  rw [List.takeWhile_append_of_pos run.passes, List.dropWhile_append_of_pos run.passes]
  cases rest with
  | nil => exact ⟨List.append_nil _, rfl⟩
  | cons character rest =>
      have fails := stops character rfl
      rw [List.takeWhile_cons_of_neg (by simp [fails]),
        List.dropWhile_cons_of_neg (by simp [fails])]
      exact ⟨List.append_nil _, rfl⟩

theorem of_takeWhile (filled : text.takeWhile test ≠ []) : IsRunOf test (text.takeWhile test) :=
  ⟨filled, List.all_eq_true.mp List.all_takeWhile⟩

end IsRunOf

/-! ## What ways are like -/

theorem mem_takings_nil : way ∈ takings greedy test least [] ↔ least = 0 ∧ way = .stay [] := by
  rw [takings]
  split <;> simp [*]

theorem mem_takings_cons {character : Char} :
    way ∈ takings greedy test least (character :: text) ↔
      least = 0 ∧ way = .stay (character :: text) ∨
        test character = true ∧
          ∃ later ∈ takings greedy test (least - 1) text, later.after character = way := by
  have here : way ∈ (if least = 0 then [Way.stay (character :: text)] else []) ↔
      least = 0 ∧ way = .stay (character :: text) := by
    split <;> simp [*]
  have further : way ∈ (if test character then
        (takings greedy test (least - 1) text).map (Way.after character) else []) ↔
      test character = true ∧
        ∃ later ∈ takings greedy test (least - 1) text, later.after character = way := by
    split <;> simp [*]
  rw [takings]
  split
  · rw [List.mem_append, here, further, or_comm]
  · rw [List.mem_append, here, further]

/-- The order of the ways apart, it does not matter whether many or few characters are
tried first. -/
theorem mem_takings :
    (⟨taken, groups, rest⟩ : Way) ∈ takings greedy test least text ↔
      text = taken ++ rest ∧ least ≤ taken.length ∧
        (∀ character ∈ taken, test character = true) ∧ groups = [] := by
  induction text generalizing least taken with
  | nil =>
      rw [mem_takings_nil]
      constructor
      · rintro ⟨rfl, same⟩
        cases same
        exact ⟨rfl, Nat.le_refl _, List.forall_mem_nil _, rfl⟩
      · rintro ⟨spelled, enough, _, rfl⟩
        obtain ⟨rfl, rfl⟩ := List.append_eq_nil_iff.mp spelled.symm
        exact ⟨Nat.le_zero.mp enough, rfl⟩
  | cons character text induction =>
      rw [mem_takings_cons]
      constructor
      · rintro (⟨rfl, same⟩ | ⟨passes, ⟨later, others, rest⟩, member, same⟩)
        · cases same
          exact ⟨rfl, Nat.le_refl _, List.forall_mem_nil _, rfl⟩
        · cases same
          obtain ⟨rfl, enough, pass, rfl⟩ := induction.mp member
          exact ⟨rfl, Nat.le_add_of_sub_le enough, List.forall_mem_cons.mpr ⟨passes, pass⟩, rfl⟩
      · rintro ⟨spelled, enough, pass, rfl⟩
        cases taken with
        | nil =>
            left
            exact ⟨Nat.le_zero.mp enough, by rw [spelled]; rfl⟩
        | cons first taken =>
            right
            obtain ⟨rfl, rfl⟩ := List.cons.inj spelled
            obtain ⟨passes, pass⟩ := List.forall_mem_cons.mp pass
            exact ⟨passes, _, induction.mpr ⟨rfl, Nat.sub_le_of_le_add enough, pass, rfl⟩, rfl⟩

theorem head?_takings_greedy (test : Char → Bool) (text : List Char) :
    (takings true test 0 text).head? = some ⟨text.takeWhile test, [], text.dropWhile test⟩ := by
  induction text with
  | nil => rfl
  | cons character text induction =>
      rw [takings]
      cases passes : test character with
      | true => simp [induction, passes, Way.after]
      | false => simp [passes, Way.stay]

namespace Expression

variable {expression first second : Expression} {found : Type}

/-- The ways of an expression are the ways in which it fits. -/
theorem mem_ways :
    (⟨taken, groups, rest⟩ : Way) ∈ expression.ways text ↔
      text = taken ++ rest ∧ expression.Fits taken groups rest := by
  induction expression generalizing text taken groups rest with
  | anyOf texts =>
      simp only [ways, Fits, List.mem_filterMap, Option.map_eq_some_iff, dropLead?_eq_some]
      constructor
      · rintro ⟨lead, among, _, rfl, same⟩
        cases same
        exact ⟨rfl, among, rfl⟩
      · rintro ⟨rfl, among, rfl⟩
        exact ⟨taken, among, rest, rfl, rfl⟩
  | run greedy least test => exact mem_takings
  | ending =>
      simp only [ways, Fits]
      split
      · rename_i ends
        simp only [List.mem_singleton, Way.stay, Way.mk.injEq]
        constructor
        · rintro ⟨rfl, rfl, rfl⟩
          exact ⟨rfl, rfl, rfl, ends⟩
        · rintro ⟨rfl, rfl, rfl, _⟩
          exact ⟨rfl, rfl, rfl⟩
      · rename_i goesOn
        constructor
        · intro member
          cases member
        · rintro ⟨rfl, rfl, _, ends⟩
          exact absurd ends goesOn
  | group inner induction =>
      simp only [ways, Fits, List.mem_map]
      constructor
      · rintro ⟨⟨taken, others, rest⟩, among, same⟩
        cases same
        obtain ⟨spelled, fits⟩ := induction.mp among
        exact ⟨spelled, others, rfl, fits⟩
      · rintro ⟨spelled, others, rfl, fits⟩
        exact ⟨_, induction.mpr ⟨spelled, fits⟩, rfl⟩
  | join first second one two =>
      simp only [ways, Fits, List.mem_flatMap, List.mem_map]
      constructor
      · rintro ⟨⟨front, lead, middle⟩, among, ⟨back, others, rest⟩, later, same⟩
        cases same
        obtain ⟨rfl, fits⟩ := one.mp among
        obtain ⟨rfl, fitsLater⟩ := two.mp later
        exact ⟨by simp, front, back, lead, others, rfl, rfl, fits, fitsLater⟩
      · rintro ⟨rfl, front, back, lead, others, rfl, rfl, fits, fitsLater⟩
        refine ⟨⟨front, lead, back ++ rest⟩, one.mpr ⟨by simp, fits⟩,
          ⟨back, others, rest⟩, two.mpr ⟨rfl, fitsLater⟩, rfl⟩
  | either first second one two =>
      rw [ways, List.mem_append, one, two, Fits, and_or_left]

/-! Joined expressions, by what the first of them is. -/

theorem join_plain_fits {accepts : List Char → Prop}
    (plain : ∀ taken groups rest, first.Fits taken groups rest ↔ accepts taken ∧ groups = []) :
    (join first second).Fits taken groups rest ↔
      ∃ lead later, taken = lead ++ later ∧ accepts lead ∧ second.Fits later groups rest := by
  constructor
  · intro fits
    obtain ⟨lead, later, _, others, rfl, rfl, front, follows⟩ := fits
    obtain ⟨accepted, rfl⟩ := (plain _ _ _).mp front
    exact ⟨lead, later, rfl, accepted, follows⟩
  · intro parts
    obtain ⟨lead, later, rfl, accepted, follows⟩ := parts
    exact ⟨lead, later, [], groups, rfl, rfl, (plain _ _ _).mpr ⟨accepted, rfl⟩, follows⟩

/-- As a group it has the text that it takes off. -/
theorem join_group_fits {accepts : List Char → Prop}
    (plain : ∀ taken groups rest, first.Fits taken groups rest ↔ accepts taken ∧ groups = []) :
    (join (group first) second).Fits taken groups rest ↔
      ∃ lead later others, taken = lead ++ later ∧ groups = lead :: others ∧ accepts lead ∧
        second.Fits later others rest := by
  constructor
  · intro fits
    obtain ⟨lead, later, _, others, rfl, rfl, ⟨_, rfl, front⟩, follows⟩ := fits
    obtain ⟨accepted, rfl⟩ := (plain _ _ _).mp front
    exact ⟨lead, later, others, rfl, rfl, accepted, follows⟩
  · intro parts
    obtain ⟨lead, later, others, rfl, rfl, accepted, follows⟩ := parts
    have front : (group first).Fits lead [lead] (later ++ rest) :=
      ⟨[], rfl, (plain _ _ _).mpr ⟨accepted, rfl⟩⟩
    exact ⟨lead, later, [lead], others, rfl, rfl, front, follows⟩

theorem literal_fits : (literal text).Fits taken groups rest ↔ taken = text ∧ groups = [] := by
  rw [literal, Fits, List.mem_singleton]

theorem some_fits :
    (run greedy 1 test).Fits taken groups rest ↔ IsRunOf test taken ∧ groups = [] := by
  constructor
  · intro fits
    obtain ⟨enough, passes, plain⟩ := fits
    exact ⟨⟨List.length_pos_iff.mp enough, passes⟩, plain⟩
  · intro parts
    obtain ⟨run, plain⟩ := parts
    exact ⟨List.length_pos_iff.mpr run.filled, run.passes, plain⟩

theorem many_fits :
    (run greedy 0 test).Fits taken groups rest ↔
      (∀ character ∈ taken, test character = true) ∧ groups = [] := by
  rw [Fits]
  exact and_iff_right (Nat.zero_le _)

theorem field_fits :
    (field test).Fits taken groups rest ↔ IsRunOf test taken ∧ groups = [taken] := by
  constructor
  · intro fits
    obtain ⟨_, rfl, inner⟩ := fits
    obtain ⟨run, rfl⟩ := some_fits.mp inner
    exact ⟨run, rfl⟩
  · intro parts
    obtain ⟨run, rfl⟩ := parts
    exact ⟨[], rfl, some_fits.mpr ⟨run, rfl⟩⟩

theorem join_literal_fits :
    (join (literal text) second).Fits taken groups rest ↔
      ∃ later, taken = text ++ later ∧ second.Fits later groups rest := by
  rw [join_plain_fits fun _ _ _ => literal_fits]
  simp

theorem join_some_fits :
    (join (run greedy 1 test) second).Fits taken groups rest ↔
      ∃ lead later, taken = lead ++ later ∧ IsRunOf test lead ∧ second.Fits later groups rest :=
  join_plain_fits fun _ _ _ => some_fits

theorem join_many_fits :
    (join (run greedy 0 test) second).Fits taken groups rest ↔
      ∃ lead later, taken = lead ++ later ∧ (∀ character ∈ lead, test character = true) ∧
        second.Fits later groups rest :=
  join_plain_fits fun _ _ _ => many_fits

theorem join_field_fits :
    (join (field test) second).Fits taken groups rest ↔
      ∃ lead later others, taken = lead ++ later ∧ groups = lead :: others ∧ IsRunOf test lead ∧
        second.Fits later others rest :=
  join_group_fits fun _ _ _ => some_fits

theorem join_choice_fits {texts : List (List Char)} :
    (join (group (anyOf texts)) second).Fits taken groups rest ↔
      ∃ lead later others, taken = lead ++ later ∧ groups = lead :: others ∧ lead ∈ texts ∧
        second.Fits later others rest :=
  join_group_fits fun _ _ _ => Iff.rfl

theorem join_ending_fits :
    (join first ending).Fits taken groups rest ↔
      first.Fits taken groups rest ∧ (rest = [] ∨ rest = ['\n']) := by
  constructor
  · intro fits
    obtain ⟨front, _, lead, _, rfl, rfl, fits, rfl, rfl, ends⟩ := fits
    rw [List.append_nil, List.append_nil]
    exact ⟨fits, ends⟩
  · intro parts
    obtain ⟨fits, ends⟩ := parts
    exact ⟨taken, [], groups, [], (List.append_nil _).symm, (List.append_nil _).symm, fits,
      rfl, rfl, ends⟩

/-! ## The match -/

/-- Where the groups of all ways are known, they are those of the match. -/
theorem match?_eq_map (read : Option found) (groupsOf : found → List (List Char))
    (known : ∀ groups, (∃ taken rest, text = taken ++ rest ∧ expression.Fits taken groups rest) ↔
      ∃ value, read = some value ∧ groupsOf value = groups) :
    expression.match? text = read.map groupsOf := by
  have groupsOfWay : ∀ way ∈ expression.ways text,
      ∃ value, read = some value ∧ groupsOf value = way.groups := by
    rintro ⟨taken, groups, rest⟩ member
    exact (known groups).mp ⟨taken, rest, mem_ways.mp member⟩
  cases listed : expression.ways text with
  | nil =>
      cases read with
      | none => rw [match?, listed]; rfl
      | some value =>
          obtain ⟨taken, rest, fits⟩ := (known _).mpr ⟨value, rfl, rfl⟩
          have member := mem_ways.mpr fits
          rw [listed] at member
          cases member
  | cons way others =>
      obtain ⟨value, rfl, same⟩ := groupsOfWay way (listed ▸ List.mem_cons_self)
      rw [match?, listed, List.head?_cons, Option.map_some, Option.map_some, same]

theorem match?_join :
    (join first second).match? text = (first.ways text).findSome? fun way =>
      (second.match? way.rest).map (way.groups ++ ·) := by
  rw [match?, ways, List.head?_flatMap, List.map_findSome?]
  congr 1
  funext way
  rw [Function.comp_apply, List.head?_map, Option.map_map, match?, Option.map_map]
  rfl

/-- After an expression without groups that can leave only one text, the match is
that of what comes later. -/
theorem match?_join_of_only {left : Option (List Char)}
    (plain : ∀ taken groups rest, first.Fits taken groups rest → groups = [])
    (only : ∀ rest, (∃ taken, text = taken ++ rest ∧ first.Fits taken [] rest) ↔ left = some rest) :
    (join first second).match? text = left.bind second.match? := by
  have same : ∀ way ∈ first.ways text, left = some way.rest ∧
      (second.match? way.rest).map (way.groups ++ ·) = left.bind second.match? := by
    rintro ⟨taken, groups, rest⟩ member
    obtain ⟨spelled, fits⟩ := mem_ways.mp member
    obtain rfl := plain _ _ _ fits
    obtain rfl := (only rest).mp ⟨taken, spelled, fits⟩
    exact ⟨rfl, Option.map_id_apply⟩
  rw [match?_join]
  cases later : left.bind second.match? with
  | none =>
      rw [List.findSome?_eq_none_iff]
      intro way member
      rw [(same way member).2, later]
  | some groups =>
      obtain ⟨rest, known, _⟩ := Option.bind_eq_some_iff.mp later
      obtain ⟨taken, fits⟩ := (only rest).mpr known
      obtain ⟨way, others, listed⟩ :=
        List.exists_cons_of_ne_nil (List.ne_nil_of_mem (mem_ways.mpr fits))
      rw [listed, List.findSome?_cons, (same way (listed ▸ List.mem_cons_self)).2, later]

/-- As many characters as possible are taken if what comes later matches then. -/
theorem match?_run_of_match (matched : second.match? (text.dropWhile test) = some groups) :
    (join (run true 0 test) second).match? text = some groups := by
  obtain ⟨others, listed⟩ := List.head?_eq_some_iff.mp (head?_takings_greedy test text)
  rw [match?_join, ways, listed, List.findSome?_cons, matched]
  rfl

end Expression

end Restyle.Text
