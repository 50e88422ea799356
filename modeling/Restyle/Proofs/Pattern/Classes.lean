import Mathlib.Data.Bool.AllAny
import Restyle.Promotion

/-!
# The classes of a pattern

A pattern is a text of classes with gaps between them.  `Splits` says so: a gap is
made of blanks outside all brackets, and no blank of a class is outside them.
Splitting finds the one way in which a pattern is such a text, and what it is like
follows from that.
-/

namespace Restyle

open Text

variable {depth : Depth} {text more current pattern : List Char} {character : Char}
  {classes : List (List Char)}

namespace Depth

/-- The depth after a text. -/
def along (depth : Depth) (text : List Char) : Depth := text.foldl after depth

@[simp]
theorem along_nil : depth.along [] = depth := rfl

@[simp]
theorem along_cons : depth.along (character :: text) = (depth.after character).along text := rfl

theorem along_append : depth.along (text ++ more) = (depth.along text).along more :=
  List.foldl_append ..

theorem isOutside_iff : depth.isOutside = true ↔ depth = {} := by
  obtain ⟨square, round⟩ := depth
  simp [isOutside]

/-- Only brackets change the depth. -/
theorem after_of_no_bracket (plain : character ∉ ['[', '(', ']', ')']) :
    depth.after character = depth := by
  unfold after
  split <;> simp_all

theorem after_of_blank (blank : isBlank character = true) : depth.after character = depth := by
  have solid : ∀ bracket ∈ ['[', '(', ']', ')'], isBlank bracket = false :=
    List.all_iff_forall_prop.mp (by decide)
  apply after_of_no_bracket
  intro bracket
  rw [solid character bracket] at blank
  cases blank

end Depth

/-! ## What splitting keeps -/

/-- The characters of a text, which starts at a depth, without the blanks that stand
outside all brackets. -/
def solid (depth : Depth) (text : List Char) : List Char :=
  (text.zipIdx.filter fun place =>
    !(isBlank place.1 && (depth.along (text.take place.2)).isOutside)).map Prod.fst

theorem solid_cons :
    solid depth (character :: text) =
      if isBlank character && depth.isOutside then solid (depth.after character) text
      else character :: solid (depth.after character) text := by
  have later : (text.zipIdx 1).filter (fun place =>
        !(isBlank place.1 &&
          (depth.along ((character :: text).take place.2)).isOutside)) =
      (text.zipIdx.filter fun place =>
        !(isBlank place.1 &&
          ((depth.after character).along (text.take place.2)).isOutside)).map
        (Prod.map id (· + 1)) := by
    rw [List.zipIdx_succ, List.filter_map]
    rfl
  rw [solid, List.zipIdx_cons, List.filter_cons, later]
  cases cut : isBlank character && depth.isOutside with
  | true => simp [cut, solid]
  | false => simp [cut, solid]

/-- Whether the blanks of a text, which starts at a depth, are all inside brackets. -/
def IsUncut (depth : Depth) (text : List Char) : Prop :=
  ∀ before character after, text = before ++ character :: after → isBlank character = true →
    (depth.along before).isOutside = false

theorem isUncut_nil : IsUncut depth [] := by
  intro before character after parts
  simp at parts

theorem isUncut_cons :
    IsUncut depth (character :: text) ↔
      (isBlank character = true → depth.isOutside = false) ∧
        IsUncut (depth.after character) text := by
  constructor
  · intro uncut
    refine ⟨uncut [] character text rfl, ?_⟩
    intro before other after parts
    exact uncut (character :: before) other after (by rw [parts, List.cons_append])
  · rintro ⟨first, later⟩ before other after parts
    cases before with
    | nil =>
        cases parts
        exact first
    | cons _ before =>
        cases parts
        exact later before other after rfl

theorem isUncut_append :
    IsUncut depth (text ++ more) ↔ IsUncut depth text ∧ IsUncut (depth.along text) more := by
  induction text generalizing depth with
  | nil => simp [isUncut_nil]
  | cons character text induction =>
      rw [List.cons_append, isUncut_cons, isUncut_cons, induction, and_assoc, Depth.along_cons]

theorem solid_append :
    solid depth (text ++ more) = solid depth text ++ solid (depth.along text) more := by
  induction text generalizing depth with
  | nil => rfl
  | cons character text induction =>
      rw [List.cons_append, solid_cons, solid_cons, induction, Depth.along_cons]
      split <;> simp

theorem IsUncut.solid_eq (uncut : IsUncut depth text) : solid depth text = text := by
  induction text generalizing depth with
  | nil => rfl
  | cons character text induction =>
      obtain ⟨first, later⟩ := isUncut_cons.mp uncut
      rw [solid_cons, induction later, if_neg]
      simpa using first

/-! ## Patterns as classes and gaps -/

/-- Whether a text is one class of a pattern. -/
structure IsClass (text : List Char) : Prop where
  filled : text ≠ []
  uncut : IsUncut {} text

theorem IsClass.starts (isClass : IsClass text) :
    ∃ first rest, text = first :: rest ∧ isBlank first = false := by
  obtain ⟨first, rest, rfl⟩ := List.exists_cons_of_ne_nil isClass.filled
  refine ⟨first, rest, rfl, ?_⟩
  have outside := (isUncut_cons.mp isClass.uncut).1
  exact Bool.eq_false_iff.mpr fun blank => Bool.noConfusion (outside blank)

/-- A pattern and its classes.  After a class that another one follows all brackets
are closed. -/
inductive Splits : List Char → List (List Char) → Prop where
  | nil : Splits [] []
  | gap {character : Char} {text : List Char} {classes : List (List Char)}
      (blank : isBlank character = true) (later : Splits text classes) :
      Splits (character :: text) classes
  | last {text : List Char} (isClass : IsClass text) : Splits text [text]
  | next {className text : List Char} {character : Char} {classes : List (List Char)}
      (isClass : IsClass className) (closed : Depth.along {} className = {})
      (blank : isBlank character = true) (later : Splits text classes) :
      Splits (className ++ character :: text) (className :: classes)

namespace Splits

theorem isClass (splits : Splits pattern classes) : ∀ className ∈ classes, IsClass className := by
  induction splits with
  | nil => nofun
  | gap _ _ induction => exact induction
  | last isClass => exact List.forall_mem_singleton.mpr isClass
  | next isClass _ _ _ induction => exact List.forall_mem_cons.mpr ⟨isClass, induction⟩

/-- The classes hold all that is solid. -/
theorem flatten (splits : Splits pattern classes) : classes.flatten = solid {} pattern := by
  have gapless : ∀ {character : Char} {text : List Char}, isBlank character = true →
      solid {} (character :: text) = solid {} text := by
    intro character text blank
    rw [solid_cons, Depth.after_of_blank blank, blank]
    rfl
  induction splits with
  | nil => rfl
  | gap blank _ induction => rw [gapless blank, induction]
  | last isClass => rw [isClass.uncut.solid_eq, List.flatten_singleton]
  | next isClass closed blank _ induction =>
      rw [List.flatten_cons, solid_append, isClass.uncut.solid_eq, closed, gapless blank, induction]

theorem joined (splits : Splits pattern classes) : Splits ([' '].intercalate classes) classes := by
  induction splits with
  | nil => exact .nil
  | gap _ _ induction => exact induction
  | last isClass =>
      rw [List.intercalate_singleton]
      exact .last isClass
  | @next className _ _ classes isClass closed _ _ induction =>
      cases classes with
      | nil =>
          rw [List.intercalate_singleton]
          exact .last isClass
      | cons other classes =>
          rw [List.intercalate_cons_cons, List.append_assoc]
          exact .next isClass closed rfl induction

end Splits

/-! ## Splitting -/

theorem splitPatternFrom_append (uncut : IsUncut depth text) :
    splitPatternFrom depth current (text ++ more) =
      splitPatternFrom (depth.along text) (text.reverse ++ current) more := by
  induction text generalizing depth current with
  | nil => rfl
  | cons character text induction =>
      obtain ⟨first, later⟩ := isUncut_cons.mp uncut
      rw [List.cons_append, splitPatternFrom, if_neg, induction later]
      · simp
      · intro cut
        rw [Bool.and_eq_true] at cut
        rw [Depth.after_of_blank cut.1, first cut.1] at cut
        cases cut.2

/-- A blank outside all brackets ends the current class. -/
theorem splitPatternFrom_gap (blank : isBlank character = true) :
    splitPatternFrom {} current (character :: text) =
      (if current.isEmpty then [] else [current.reverse]) ++ splitPattern text := by
  rw [splitPatternFrom, Depth.after_of_blank blank, if_pos (by rw [blank]; rfl)]
  split <;> rfl

theorem Splits.splitPattern_eq (splits : Splits pattern classes) :
    splitPattern pattern = classes := by
  induction splits with
  | nil => rfl
  | gap blank _ induction =>
      rw [splitPattern, splitPatternFrom_gap blank, induction]
      rfl
  | @last text isClass =>
      have whole : splitPatternFrom {} [] (text ++ []) =
          splitPatternFrom (Depth.along {} text) (text.reverse ++ []) [] :=
        splitPatternFrom_append isClass.uncut
      rw [List.append_nil, List.append_nil] at whole
      rw [splitPattern, whole, splitPatternFrom, if_neg, List.reverse_reverse]
      simpa using isClass.filled
  | next isClass closed blank _ induction =>
      rw [splitPattern, splitPatternFrom_append isClass.uncut, closed, List.append_nil,
        splitPatternFrom_gap blank, induction, if_neg, List.reverse_reverse]
      · rfl
      · simpa using isClass.filled

theorem splits_splitPatternFrom (uncut : IsUncut {} current.reverse)
    (reached : Depth.along {} current.reverse = depth) :
    Splits (current.reverse ++ text) (splitPatternFrom depth current text) := by
  induction text generalizing depth current with
  | nil =>
      rw [List.append_nil, splitPatternFrom]
      cases current with
      | nil => exact .nil
      | cons character current => exact .last ⟨by simp, uncut⟩
  | cons character text induction =>
      have fresh : Splits text (splitPatternFrom {} [] text) :=
        @induction {} [] isUncut_nil rfl
      by_cases cut : isBlank character = true ∧ depth = {}
      · obtain ⟨blank, rfl⟩ := cut
        rw [splitPatternFrom_gap blank]
        cases current with
        | nil => exact .gap blank fresh
        | cons first current => exact .next ⟨by simp, uncut⟩ reached blank fresh
      · have goesOn : ¬ (isBlank character && (depth.after character).isOutside) = true := by
          rw [Bool.and_eq_true]
          rintro ⟨blank, outside⟩
          rw [Depth.after_of_blank blank, Depth.isOutside_iff] at outside
          exact cut ⟨blank, outside⟩
        have placed : current.reverse ++ character :: text =
            (character :: current).reverse ++ text := by simp
        rw [splitPatternFrom, if_neg goesOn, placed]
        apply induction
        · rw [List.reverse_cons, isUncut_append, reached]
          refine ⟨uncut, isUncut_cons.mpr ⟨fun blank => ?_, isUncut_nil⟩⟩
          exact Bool.eq_false_iff.mpr fun outside => cut ⟨blank, Depth.isOutside_iff.mp outside⟩
        · rw [List.reverse_cons, Depth.along_append, reached]
          rfl

/-- Without brackets the classes are the words. -/
theorem splitPatternFrom_eq_wordsFrom
    (plain : ∀ character ∈ text, character ∉ ['[', '(', ']', ')']) :
    splitPatternFrom {} current text = wordsFrom current text := by
  induction text generalizing current with
  | nil => rfl
  | cons character text induction =>
      obtain ⟨first, later⟩ := List.forall_mem_cons.mp plain
      rw [splitPatternFrom, wordsFrom, Depth.after_of_no_bracket first, induction later,
        induction later]
      cases isBlank character <;> rfl

/-- Splitting a pattern loses nothing and is stable.  The classes are the only ones
that the pattern is made of.  Each starts with a character that is no blank and has
blanks only inside brackets, together they hold all but the blanks outside brackets,
and joined with single spaces they are split in the same way. -/
theorem splitPattern_keeps_classes (pattern : List Char) :
    (∀ className ∈ splitPattern pattern,
        className ≠ [] ∧ (∃ first rest, className = first :: rest ∧ isBlank first = false) ∧
          IsUncut {} className) ∧
      (splitPattern pattern).flatten = solid {} pattern ∧
      splitPattern ([' '].intercalate (splitPattern pattern)) = splitPattern pattern ∧
      ((∀ character ∈ pattern, character ∉ ['[', '(', ']', ')']) →
        splitPattern pattern = words pattern) ∧
      ∀ classes, splitPattern pattern = classes ↔ Splits pattern classes := by
  have splits : Splits pattern (splitPattern pattern) :=
    @splits_splitPatternFrom {} pattern [] isUncut_nil rfl
  refine ⟨?_, splits.flatten, splits.joined.splitPattern_eq, splitPatternFrom_eq_wordsFrom, ?_⟩
  · intro className member
    have isClass := splits.isClass className member
    exact ⟨isClass.filled, isClass.starts, isClass.uncut⟩
  · intro classes
    exact ⟨fun same => same ▸ splits, Splits.splitPattern_eq⟩

theorem splitPattern_keeps_classes_interleaved :
    splitPattern "a]  b-[( c] d) [e f".toList =
        ["a]".toList, "b-[( c] d)".toList, "[e f".toList] ∧
      IsUncut {} "b-[( c] d)".toList ∧
      splitPattern "a] b-[( c] d) [e f".toList = splitPattern "a]  b-[( c] d) [e f".toList ∧
      splitPattern "\tp-4 \u2003flex".toList = words "\tp-4 \u2003flex".toList := by
  have split : splitPattern "a]  b-[( c] d) [e f".toList =
      ["a]".toList, "b-[( c] d)".toList, "[e f".toList] := by
    decide +kernel
  obtain ⟨areClasses, _, stable, _, _⟩ :=
    splitPattern_keeps_classes "a]  b-[( c] d) [e f".toList
  obtain ⟨_, _, _, plain, _⟩ := splitPattern_keeps_classes "\tp-4 \u2003flex".toList
  rw [split] at areClasses stable
  refine ⟨split, (areClasses _ (by simp)).2.2, ?_, plain (List.all_iff_forall_prop.mp (by decide))⟩
  rw [split]
  exact stable

end Restyle
