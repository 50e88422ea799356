import Restyle.Proofs.Plan.Resolving
import Restyle.Proofs.Suggestion.Lengths
import Restyle.Proofs.Suggestion.Notes

/-!
# What a violation is resolved to

The rules with a fix look for the class of a violation, and the rule for inline
colours for the value in the note, if the note gives one.  A violation of texts
has a resolution exactly when its rule has a fix and there is something to look
for.  The one exception is an arbitrary length beyond the finite numbers, for which
resolving fails.
-/

namespace Restyle

variable {violation : Violation} {action : FixAction} {rule : Resolution.FixableRule}

/-- The text of a value, empty for values that are no texts. -/
def Json.content : Json → String
  | .text value => value
  | _ => ""

theorem Json.IsOptionalText.orElse_content {value : Json} (optional : value.IsOptionalText)
    (other : String) :
    value.orElse (.text other) = .text (if value.content = "" then other else value.content) := by
  rcases optional with rfl | ⟨text, rfl⟩
  · rfl
  · by_cases empty : text = ""
    · simp [Json.orElse, Json.isFilled, Json.content, empty]
    · simp [Json.orElse, Json.isFilled, Json.content, empty]

/-- Every fix but that for an inline colour looks for the class. -/
theorem Resolution.target_eq_matched (made : fix violation rule = .ok action)
    (other : rule ≠ .inlineColour) : action.target = violation.matched := by
  cases rule with
  | inlineColour => exact absurd rfl other
  | arbitraryValues =>
      obtain ⟨_, _, made⟩ := bind_eq_ok_iff.mp made
      obtain ⟨_, _, made⟩ := bind_eq_ok_iff.mp made
      cases made
      rfl
  | _ =>
      obtain ⟨_, _, made⟩ := bind_eq_ok_iff.mp made
      cases made
      rfl

namespace Violation

/-- Whether the rule of a violation has a fix. -/
def IsFixable (violation : Violation) : Prop :=
  ∃ rule : Resolution.FixableRule, violation.ruleKey = .text rule.key

/-- What a fix looks for: the colour that the note of an inline colour gives, and else
the class name. -/
inductive Seeks (violation : Violation) : String → Prop where
  | colour {value : List Char} (rule : violation.ruleKey = .text "no-inline-color")
      (given : Suggestion.GivesColour violation.note.content.toList value) :
      Seeks violation (String.ofList value)
  | className (other : violation.ruleKey = .text "no-inline-color" →
      ∀ value, ¬ Suggestion.GivesColour violation.note.content.toList value) :
      Seeks violation violation.className.content

/-- The value that is found in the note of a violation, empty if there is none. -/
def noteColour (violation : Violation) : String :=
  String.ofList ((Suggestion.inlineColour? violation.note.content.toList).getD [])

/-- The text that a fix looks for, as it is found. -/
def sought (violation : Violation) : String :=
  if violation.ruleKey = .text "no-inline-color" ∧ violation.noteColour ≠ "" then
    violation.noteColour
  else violation.className.content

/-- Whether the rule of a violation asks for a step of the scale and its class has a
length beyond the finite numbers. -/
def Overflows (violation : Violation) : Prop :=
  violation.ruleKey = .text "no-arbitrary-values" ∧
    Suggestion.overflows violation.className.content.toList = true

instance : Decidable violation.Overflows := inferInstanceAs (Decidable (_ ∧ _))

theorem noteColour_of_gives {colour : List Char}
    (gives : Suggestion.GivesColour violation.note.content.toList colour) :
    violation.noteColour = String.ofList colour ∧ violation.noteColour ≠ "" := by
  have filled := gives.filled
  have found : violation.noteColour = String.ofList colour := by
    rw [noteColour, (Suggestion.inlineColour?_eq_some_iff filled).mpr gives, Option.getD_some]
  exact ⟨found, fun empty => filled (String.ofList_eq_empty_iff.mp (found.symm.trans empty))⟩

theorem gives_of_noteColour (filled : violation.noteColour ≠ "") :
    ∃ colour, Suggestion.GivesColour violation.note.content.toList colour := by
  cases found : Suggestion.inlineColour? violation.note.content.toList with
  | none => exact absurd (by rw [noteColour, found]; rfl) filled
  | some colour =>
      refine ⟨colour, (Suggestion.inlineColour?_eq_some_iff ?_).mp found⟩
      rintro rfl
      exact filled (by rw [noteColour, found]; rfl)

theorem seeks_iff {text : String} : violation.Seeks text ↔ text = violation.sought := by
  constructor
  · rintro (⟨rule, given⟩ | other)
    · obtain ⟨found, filled⟩ := noteColour_of_gives given
      rw [sought, if_pos ⟨rule, filled⟩, found]
    · rw [sought, if_neg]
      rintro ⟨rule, filled⟩
      obtain ⟨colour, gives⟩ := gives_of_noteColour filled
      exact other rule colour gives
  · rintro rfl
    unfold sought
    split
    · rename_i both
      obtain ⟨colour, gives⟩ := gives_of_noteColour both.2
      rw [(noteColour_of_gives gives).1]
      exact .colour both.1 gives
    · rename_i neither
      exact .className fun rule value gives => neither ⟨rule, (noteColour_of_gives gives).2⟩

namespace IsTextual

theorem matched_eq (textual : violation.IsTextual) :
    violation.matched = .text violation.className.content := by
  rw [Violation.matched, textual.className.orElse_content]
  split
  · rename_i empty
    rw [empty]
    rfl
  · rfl

theorem isScalable_iff (textual : violation.IsTextual) :
    violation.IsScalable ↔ ¬ violation.Overflows := by
  unfold IsScalable Overflows
  rw [textual.matched_eq]
  constructor
  · rintro scalable ⟨asked, large⟩
    obtain ⟨suggestion, made⟩ := scalable asked _ rfl
    rw [Suggestion.scaleValue_of_overflows large] at made
    cases made
  · rintro small asked _ ⟨⟩
    exact Suggestion.exists_scaleValue fun large => small ⟨asked, large⟩

theorem noteValue_content (textual : violation.IsTextual) {value : Json}
    (found : Resolution.noteValue violation.note = .ok value) :
    value.IsOptionalText ∧ value.content = violation.noteColour := by
  unfold noteColour
  rcases textual.note with absent | ⟨text, given⟩
  · rw [absent] at found ⊢
    cases found
    exact ⟨Or.inl rfl, rfl⟩
  · rw [given, Resolution.noteValue] at found
    rw [given, Json.content]
    split at found
    · obtain ⟨_, ⟨⟩, found⟩ := bind_eq_ok_iff.mp found
      split at found
      · rename_i colour read
        cases found
        rw [read]
        exact ⟨Or.inr ⟨_, rfl⟩, rfl⟩
      · rename_i unread
        cases found
        rw [unread]
        exact ⟨Or.inl rfl, rfl⟩
    · rename_i empty
      have none : text = "" := by simpa [Json.isFilled] using empty
      cases found
      rw [none]
      exact ⟨Or.inl rfl, rfl⟩

/-- A fix looks for the sought text. -/
theorem target_eq_sought (textual : violation.IsTextual)
    (asked : violation.ruleKey = .text rule.key)
    (made : Resolution.fix violation rule = .ok action) :
    action.target = .text violation.sought := by
  have keyed : violation.ruleKey = .text "no-inline-color" ↔ rule = .inlineColour := by
    rw [asked, Json.text.injEq]
    cases rule <;> decide
  by_cases inline : rule = .inlineColour
  · subst inline
    obtain ⟨value, found, made⟩ := bind_eq_ok_iff.mp made
    obtain ⟨_, _, made⟩ := bind_eq_ok_iff.mp made
    cases made
    obtain ⟨optional, content⟩ := textual.noteValue_content found
    show value.orElse violation.matched = .text violation.sought
    rw [textual.matched_eq, optional.orElse_content, content, sought]
    by_cases empty : violation.noteColour = ""
    · rw [if_pos empty, if_neg fun filled => filled.2 empty]
    · rw [if_neg empty, if_pos ⟨keyed.mpr rfl, empty⟩]
  · have named : violation.sought = violation.className.content :=
      if_neg fun both => inline (keyed.mp both.1)
    rw [Resolution.target_eq_matched made inline, textual.matched_eq, named]

end IsTextual

end Violation

namespace Resolution

theorem confidence_between {confidence : Binary64}
    (found : confidenceIn violation action = .ok confidence) :
    (Binary64.ofInt 0).le confidence = true ∧ confidence.le (.ofInt 1) = true := by
  have bounded : ∀ hundredths ∈ [95, 85, 70, 65, 90], ∀ conditional compound : Bool,
      let base := Binary64.ofDecimal false hundredths (-2)
      let afterCondition := if conditional then base.sub conditionalPenalty else base
      let afterCompound :=
        if compound then afterCondition.sub compoundPenalty else afterCondition
      (Binary64.ofInt 0).le ((clamp afterCompound).roundTo 4) = true ∧
        ((clamp afterCompound).roundTo 4).le (.ofInt 1) = true := by decide +kernel
  obtain ⟨base, based, found⟩ := bind_eq_ok_iff.mp found
  obtain ⟨conditional, _, found⟩ := bind_eq_ok_iff.mp found
  obtain ⟨compound, _, found⟩ := bind_eq_ok_iff.mp found
  cases found
  obtain ⟨hundredths, member, rfl⟩ : ∃ hundredths ∈ [95, 85, 70, 65, 90],
      base = .ofDecimal false hundredths (-2) := by
    cases action with
    | replace source replacement =>
        obtain ⟨token, _, based⟩ := bind_eq_ok_iff.mp based
        cases token
        · cases based
          exact ⟨85, by decide, rfl⟩
        · cases based
          exact ⟨95, by decide, rfl⟩
    | tokenize value token =>
        cases based
        exact ⟨70, by decide, rfl⟩
    | extract pattern utility =>
        cases based
        exact ⟨65, by decide, rfl⟩
    | remove className =>
        cases based
        exact ⟨90, by decide, rfl⟩
  exact bounded hundredths member conditional compound

theorem ofViolation_seeks (textual : violation.IsTextual) {outcome : Option Resolution}
    (found : ofViolation violation = .ok outcome) :
    (outcome = none ↔ ¬ violation.IsFixable ∨ violation.Seeks "") ∧
      ∀ resolution ∈ outcome,
        (∃ text, violation.Seeks text ∧ resolution.action.target = .text text) ∧
          (Binary64.ofInt 0).le resolution.confidence = true ∧
          resolution.confidence.le (.ofInt 1) = true := by
  obtain ⟨text, isText⟩ := textual.ruleKey
  obtain ⟨key, keyed, found⟩ := bind_eq_ok_iff.mp found
  rw [isText] at keyed
  cases keyed
  rw [← isText] at found
  cases asked : FixableRule.ofKey? violation.ruleKey with
  | none =>
      rw [asked] at found
      cases found
      have unfixable : ¬ violation.IsFixable := by
        rintro ⟨rule, same⟩
        rw [ofKey?_eq_some_iff.mpr same] at asked
        cases asked
      exact ⟨iff_of_true rfl (Or.inl unfixable), by simp⟩
  | some rule =>
      rw [asked] at found
      have fixable : violation.IsFixable := ⟨rule, ofKey?_eq_some_iff.mp asked⟩
      obtain ⟨action, made, found⟩ := bind_eq_ok_iff.mp found
      have target := textual.target_eq_sought (ofKey?_eq_some_iff.mp asked) made
      by_cases empty : violation.sought = ""
      · rw [target, empty] at found
        cases found
        exact ⟨iff_of_true rfl (Or.inr (Violation.seeks_iff.mpr empty.symm)), by simp⟩
      · have filled : action.target.isFilled = true := by
          rw [target]
          simpa [Json.isFilled] using empty
        rw [if_pos filled] at found
        obtain ⟨confidence, sure, found⟩ := bind_eq_ok_iff.mp found
        cases found
        constructor
        · refine iff_of_false (Option.some_ne_none _) ?_
          rintro (unfixable | seeks)
          · exact unfixable fixable
          · exact empty (Violation.seeks_iff.mp seeks).symm
        · intro resolution given
          cases Option.mem_some.mp given
          exact ⟨⟨_, Violation.seeks_iff.mpr rfl, target⟩, confidence_between sure⟩

end Resolution

/-- Resolving a violation of texts fails for a length beyond the finite numbers
only.  It gives none when the rule has no fix or there is nothing to look for, and
otherwise a fix that looks for what it is to look for, with a confidence between zero
and one. -/
theorem resolution_of_textual (textual : violation.IsTextual) :
    (violation.Overflows → Resolution.ofViolation violation = .error .infiniteInteger) ∧
      (¬ violation.Overflows → ∃ outcome, Resolution.ofViolation violation = .ok outcome ∧
        (outcome = none ↔ ¬ violation.IsFixable ∨ violation.Seeks "") ∧
        ∀ resolution ∈ outcome,
          (∃ text, violation.Seeks text ∧ resolution.action.target = .text text) ∧
            (Binary64.ofInt 0).le resolution.confidence = true ∧
            resolution.confidence.le (.ofInt 1) = true) := by
  constructor
  · rintro ⟨asked, large⟩
    exact Resolution.ofViolation_of_unscalable asked textual.matched_eq
      (Suggestion.scaleValue_of_overflows large)
  · intro small
    obtain ⟨outcome, found⟩ := (Resolution.ofViolation_iff_isScalable textual).mpr
      (textual.isScalable_iff.mpr small)
    exact ⟨outcome, found, Resolution.ofViolation_seeks textual found⟩

/-- A finding for a class with a note. -/
def finding (ruleKey className note : String) : Violation where
  ruleId := .text ("north/" ++ ruleKey)
  ruleKey := .text ruleKey
  severity := .warn
  message := .text "m"
  filePath := .text "src/App.tsx"
  line := 1
  column := 0
  className := .text className
  note := .text note

theorem isTextual_finding (ruleKey className note : String) :
    (finding ruleKey className note).IsTextual :=
  ⟨⟨_, rfl⟩, ⟨_, rfl⟩, ⟨_, rfl⟩, Or.inr ⟨_, rfl⟩, Or.inr ⟨_, rfl⟩⟩

/-- A colour is looked for as the note gives it, and a length as the class does. -/
theorem resolution_of_textual_finding :
    (∃ resolution, Resolution.ofViolation
        (finding "no-inline-color" "card" "Found: color: #fff") = .ok (some resolution) ∧
      resolution.action.target = .text "#fff") ∧
    ∃ resolution, Resolution.ofViolation
        (finding "no-arbitrary-values" "p-[16px]" "Found: color: #fff") = .ok (some resolution) ∧
      resolution.action.target = .text "p-[16px]" := by
  have resolved : ∀ violation : Violation, violation.IsTextual → ¬ violation.Overflows →
      violation.IsFixable → violation.sought ≠ "" →
        ∃ resolution, Resolution.ofViolation violation = .ok (some resolution) ∧
          resolution.action.target = .text violation.sought := by
    intro violation textual small fixable filled
    obtain ⟨outcome, found, unresolved, target⟩ := (resolution_of_textual textual).2 small
    cases outcome with
    | none =>
        rcases unresolved.mp rfl with unfixable | seeks
        · exact absurd fixable unfixable
        · exact absurd (Violation.seeks_iff.mp seeks).symm filled
    | some resolution =>
        obtain ⟨text, seeks, same⟩ := (target resolution rfl).1
        exact ⟨resolution, found, Violation.seeks_iff.mp seeks ▸ same⟩
  constructor
  · exact resolved _ (isTextual_finding _ _ _) (by decide +kernel) ⟨.inlineColour, rfl⟩
      (by decide +kernel)
  · exact resolved _ (isTextual_finding _ _ _) (by decide +kernel) ⟨.arbitraryValues, rfl⟩
      (by decide +kernel)

/-- For a length of 309 nines resolving fails. -/
theorem vast_length_unresolved :
    vastLength.IsTextual ∧ Resolution.ofViolation vastLength = .error .infiniteInteger :=
  ⟨⟨⟨_, rfl⟩, ⟨_, rfl⟩, ⟨_, rfl⟩, Or.inr ⟨_, rfl⟩, Or.inl rfl⟩, ofViolation_vastLength⟩

end Restyle
