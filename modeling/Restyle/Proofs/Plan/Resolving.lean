import Restyle.Proofs.Plan.Nesting

/-!
# Violations that are resolved

The resolution of a violation of texts fails in one case only: the length of its
arbitrary value is beyond the finite numbers.  All other violations have a fix or
none, and the steps for them can be made.
-/

namespace Restyle

variable {violations : List Violation} {violation : Violation} {strategy : Strategy}

/-- Whether a value is a text, or absent. -/
def Json.IsOptionalText (value : Json) : Prop := value = .null ∨ ∃ text, value = .text text

theorem Json.IsOptionalText.orElse {value : Json} (optional : value.IsOptionalText)
    (other : String) : ∃ text, value.orElse (.text other) = .text text := by
  rcases optional with rfl | ⟨text, rfl⟩
  · exact ⟨other, rfl⟩
  · rw [Json.orElse]
    split
    · exact ⟨text, rfl⟩
    · exact ⟨other, rfl⟩

/-- Whether the fields of a violation that are looked at are texts, the optional
ones if they are there. -/
structure Violation.IsTextual (violation : Violation) : Prop where
  ruleId : ∃ text, violation.ruleId = .text text
  ruleKey : ∃ text, violation.ruleKey = .text text
  filePath : ∃ text, violation.filePath = .text text
  className : violation.className.IsOptionalText
  note : violation.note.IsOptionalText

/-- Whether the class of a violation has a step on the scale, or another class to
put in for it, if its rule asks for one. -/
def Violation.IsScalable (violation : Violation) : Prop :=
  violation.ruleKey = .text "no-arbitrary-values" → ∀ text, violation.matched = .text text →
    ∃ scaled, Suggestion.scaleValue text.toList = .ok scaled

namespace Violation.IsTextual

theorem matched (textual : violation.IsTextual) : ∃ text, violation.matched = .text text := by
  obtain ⟨text, given⟩ := textual.className.orElse ""
  exact ⟨text, congrArg Json.settled given⟩

theorem noteValue (textual : violation.IsTextual) :
    ∃ value, Resolution.noteValue violation.note = .ok value ∧ value.IsOptionalText := by
  rcases textual.note with absent | ⟨text, given⟩
  · exact ⟨.null, by rw [absent]; rfl, Or.inl rfl⟩
  · rw [given, Resolution.noteValue]
    split
    · cases found : Suggestion.inlineColour? text.toList with
      | none => exact ⟨_, bind_eq_ok_iff.mpr ⟨text, rfl, by rw [found]; rfl⟩, Or.inl rfl⟩
      | some value => exact ⟨_, bind_eq_ok_iff.mpr ⟨text, rfl, by rw [found]; rfl⟩, Or.inr ⟨_, rfl⟩⟩
    · exact ⟨.null, rfl, Or.inl rfl⟩

end Violation.IsTextual

namespace Resolution

variable {action : FixAction}

def FixableRule.key : FixableRule → String
  | .rawPalette => "no-raw-palette"
  | .arbitraryColours => "no-arbitrary-colors"
  | .arbitraryValues => "no-arbitrary-values"
  | .numericSpacing => "numeric-spacing-in-component"
  | .inlineColour => "no-inline-color"
  | .repeatedClasses => "extract-repeated-classes"

theorem ofKey?_eq_some_iff {key : Json} {rule : FixableRule} :
    FixableRule.ofKey? key = some rule ↔ key = .text rule.key := by
  constructor
  · intro found
    unfold FixableRule.ofKey? at found
    split at found <;> cases found <;> rfl
  · rintro rfl
    cases rule <;> rfl

theorem fix_of_textual (textual : violation.IsTextual) (rule : FixableRule)
    (scalable : rule = .arbitraryValues → ∀ text, violation.matched = .text text →
      ∃ scaled, Suggestion.scaleValue text.toList = .ok scaled) :
    ∃ action, fix violation rule = .ok action := by
  obtain ⟨text, matched⟩ := textual.matched
  cases rule with
  | arbitraryValues =>
      obtain ⟨scaled, found⟩ := scalable rfl text matched
      refine ⟨_, bind_eq_ok_iff.mpr ⟨text, ?_, bind_eq_ok_iff.mpr ⟨scaled, found, rfl⟩⟩⟩
      rw [matched]
      rfl
  | inlineColour =>
      obtain ⟨value, found, optional⟩ := textual.noteValue
      obtain ⟨target, chosen⟩ := optional.orElse text
      have named : mapText (Suggestion.tokenName "inline-color".toList)
          (value.orElse violation.matched) = .ok (.text (String.ofList
            (Suggestion.tokenName "inline-color".toList target.toList))) := by
        rw [matched, chosen]
        rfl
      exact ⟨_, bind_eq_ok_iff.mpr ⟨value, found, bind_eq_ok_iff.mpr ⟨_, named, rfl⟩⟩⟩
  | _ =>
      simp only [fix, matched]
      exact ⟨_, rfl⟩

theorem confidence_of_textual (textual : violation.IsTextual) (spelled : action.IsSpelled) :
    ∃ confidence, confidenceIn violation action = .ok confidence := by
  obtain ⟨text, matched⟩ := textual.matched
  obtain ⟨base, found⟩ : ∃ base, baseConfidence action = .ok base := by
    cases action with
    | replace source replacement =>
        obtain ⟨shown, rfl⟩ := spelled
        rw [baseConfidence]
        cases held : Text.occursIn "--".toList shown.toList <;>
          exact ⟨_, bind_eq_ok_iff.mpr ⟨_, congrArg Except.ok held, rfl⟩⟩
    | _ => exact ⟨_, rfl⟩
  obtain ⟨conditional, asked⟩ : ∃ answer, isConditional (.text text) = .ok answer := by
    unfold isConditional
    cases held : Text.occursIn "?".toList text.toList <;>
      exact ⟨_, bind_eq_ok_iff.mpr ⟨_, congrArg Except.ok held, rfl⟩⟩
  obtain ⟨compound, counted⟩ : ∃ answer, isCompound (.text text) = .ok answer := by
    unfold isCompound
    split
    · exact ⟨_, rfl⟩
    · exact ⟨_, rfl⟩
  rw [← matched] at asked counted
  exact ⟨_, bind_eq_ok_iff.mpr ⟨base, found, bind_eq_ok_iff.mpr ⟨conditional, asked,
    bind_eq_ok_iff.mpr ⟨compound, counted, rfl⟩⟩⟩⟩

theorem ofViolation_of_unscalable {text : String} {fault : Fault}
    (rule : violation.ruleKey = .text "no-arbitrary-values")
    (matched : violation.matched = .text text)
    (stopped : Suggestion.scaleValue text.toList = .error fault) :
    ofViolation violation = .error fault := by
  have unfixed : fix violation .arbitraryValues = .error fault := by
    simp only [fix, matched]
    change (Suggestion.scaleValue text.toList >>= fun scaled => _) = _
    rw [stopped]
    rfl
  unfold ofViolation
  rw [rule]
  change (fix violation .arbitraryValues >>= fun action => _) = _
  rw [unfixed]
  rfl

/-- A violation of texts is resolved unless there is no step for its length. -/
theorem ofViolation_iff_isScalable (textual : violation.IsTextual) :
    (∃ resolution, ofViolation violation = .ok resolution) ↔ violation.IsScalable := by
  obtain ⟨text, isText⟩ := textual.ruleKey
  have keyed : violation.ruleKey.asKey = .ok violation.ruleKey := by
    rw [isText]
    rfl
  constructor
  · rintro ⟨resolution, found⟩ rule text matched
    unfold ofViolation at found
    obtain ⟨key, known, found⟩ := bind_eq_ok_iff.mp found
    cases keyed.symm.trans known
    have fixable : FixableRule.ofKey? violation.ruleKey = some .arbitraryValues :=
      ofKey?_eq_some_iff.mpr rule
    simp only [fixable] at found
    obtain ⟨action, made, _⟩ := bind_eq_ok_iff.mp found
    obtain ⟨source, read, made⟩ := bind_eq_ok_iff.mp made
    obtain ⟨scaled, scales, _⟩ := bind_eq_ok_iff.mp made
    rw [matched] at read
    cases read
    exact ⟨scaled, scales⟩
  · intro scalable
    cases found : FixableRule.ofKey? violation.ruleKey with
    | none =>
        refine ⟨none, bind_eq_ok_iff.mpr ⟨_, keyed, ?_⟩⟩
        rw [found]
        rfl
    | some rule =>
        obtain ⟨action, made⟩ := fix_of_textual textual rule (by
          rintro rfl
          exact scalable (ofKey?_eq_some_iff.mp found))
        obtain ⟨confidence, sure⟩ := confidence_of_textual textual (isSpelled_fix made)
        by_cases filled : action.target.isFilled = true
        · refine ⟨some ⟨action, confidence⟩, bind_eq_ok_iff.mpr ⟨_, keyed, ?_⟩⟩
          rw [found]
          refine bind_eq_ok_iff.mpr ⟨action, made, ?_⟩
          rw [if_pos filled]
          exact bind_eq_ok_iff.mpr ⟨confidence, sure, rfl⟩
        · refine ⟨none, bind_eq_ok_iff.mpr ⟨_, keyed, ?_⟩⟩
          rw [found]
          refine bind_eq_ok_iff.mpr ⟨action, made, ?_⟩
          rw [if_neg filled]
          rfl

end Resolution

/-! ## Steps for violations of texts -/

/-- Whether a strategy takes up a violation: it is resolved, and the strategy takes
up its fix. -/
def Strategy.takes (strategy : Strategy) (violation : Violation) : Bool :=
  match Resolution.ofViolation violation with
  | .ok (some resolution) => strategy.accepts resolution.confidence violation.severity
  | _ => false

theorem stepFor_of_spelled (id : String) (violation : Violation) {resolution : Resolution}
    (spelled : resolution.action.IsSpelled) :
    ∃ step, stepFor id violation resolution = .ok step ∧
      step.confidence = resolution.confidence ∧ step.severity = violation.severity := by
  obtain ⟨preview, shown⟩ : ∃ preview,
      Preview.ofAction violation resolution.action = .ok preview := by
    obtain ⟨action, confidence⟩ := resolution
    cases action with
    | tokenize value token =>
        obtain ⟨name, rfl⟩ := spelled
        exact ⟨_, rfl⟩
    | _ => exact ⟨_, rfl⟩
  exact ⟨_, bind_eq_ok_iff.mpr ⟨preview, shown, rfl⟩, rfl, rfl⟩

theorem Resolution.isSpelled {resolution : Resolution}
    (found : ofViolation violation = .ok (some resolution)) : resolution.action.IsSpelled := by
  obtain ⟨_, made⟩ := fix_of_ofViolation found
  exact isSpelled_fix made

/-- The steps for violations of texts can be made unless there is no step for a
length. -/
theorem stepsFrom_iff_isScalable (next : Nat)
    (textual : ∀ violation ∈ violations, violation.IsTextual) :
    (∃ steps, stepsFrom next violations = .ok steps) ↔
      ∀ violation ∈ violations, violation.IsScalable := by
  induction violations generalizing next with
  | nil => exact ⟨fun _ => nofun, fun _ => ⟨[], rfl⟩⟩
  | cons violation violations induction =>
      obtain ⟨first, others⟩ := List.forall_mem_cons.mp textual
      rw [List.forall_mem_cons, ← Resolution.ofViolation_iff_isScalable first, stepsFrom]
      constructor
      · rintro ⟨steps, made⟩
        obtain ⟨resolution, found, made⟩ := bind_eq_ok_iff.mp made
        refine ⟨⟨resolution, found⟩, ?_⟩
        cases resolution with
        | none => exact (induction next others).mp ⟨steps, made⟩
        | some resolution =>
            obtain ⟨_, _, made⟩ := bind_eq_ok_iff.mp made
            obtain ⟨later, further, _⟩ := bind_eq_ok_iff.mp made
            exact (induction (next + 1) others).mp ⟨later, further⟩
      · rintro ⟨⟨resolution, found⟩, scalable⟩
        cases resolution with
        | none =>
            obtain ⟨steps, made⟩ := (induction next others).mpr scalable
            exact ⟨steps, bind_eq_ok_iff.mpr ⟨none, found, made⟩⟩
        | some resolution =>
            obtain ⟨step, made, _⟩ :=
              stepFor_of_spelled (stepId next) violation (Resolution.isSpelled found)
            obtain ⟨steps, further⟩ := (induction (next + 1) others).mpr scalable
            exact ⟨_, bind_eq_ok_iff.mpr ⟨_, found, bind_eq_ok_iff.mpr ⟨step, made,
              bind_eq_ok_iff.mpr ⟨steps, further, rfl⟩⟩⟩⟩

theorem Strategy.takes_eq (strategy : Strategy) (violation : Violation) :
    strategy.takes violation =
      violation.bareStep?.any fun step => strategy.accepts step.confidence step.severity := by
  unfold takes
  split
  · rename_i resolution found
    obtain ⟨step, made, confidence, severity⟩ :=
      stepFor_of_spelled "" violation (Resolution.isSpelled found)
    rw [bareStep?_eq_some found made, ← confidence, ← severity]
    rfl
  · rename_i unresolved
    cases made : violation.bareStep? with
    | none => rfl
    | some step =>
        unfold Violation.bareStep? at made
        split at made
        · rename_i found
          exact absurd found (unresolved _)
        · cases made

/-- The violations that a strategy takes up and the bare steps for them. -/
theorem forall₂_gate (strategy : Strategy) (violations : List Violation) :
    List.Forall₂ (fun violation step => violation.bareStep? = some step)
      (violations.filter strategy.takes)
      (gate strategy (violations.filterMap Violation.bareStep?)) := by
  induction violations with
  | nil => exact .nil
  | cons violation violations induction =>
      cases resolved : violation.bareStep? with
      | none =>
          have passed : strategy.takes violation = false := by
            rw [strategy.takes_eq, resolved]
            rfl
          rw [List.filterMap_cons_none resolved, List.filter_cons_of_neg (by simp [passed])]
          exact induction
      | some step =>
          have same : strategy.takes violation =
              strategy.accepts step.confidence step.severity := by
            rw [strategy.takes_eq, resolved]
            rfl
          rw [List.filterMap_cons_some resolved, gate, List.filter_cons, List.filter_cons, same]
          split
          · exact .cons resolved induction
          · exact induction

theorem Violation.IsTextual.countable (textual : violation.IsTextual) {step : Step}
    (made : violation.bareStep? = some step.bare) :
    (∃ path, step.file = .text path) ∧ step.IsCountable := by
  obtain ⟨_, file, rule⟩ := made_of_bareStep? made
  change step.file = violation.filePath at file
  change step.ruleId = violation.ruleId at rule
  obtain ⟨path, isPath⟩ := textual.filePath
  obtain ⟨text, isText⟩ := textual.ruleId
  rw [isPath] at file
  rw [isText] at rule
  refine ⟨⟨path, file⟩, ?_, ?_⟩
  · rw [file]
    rfl
  · rw [Step.ruleKey, rule]
    exact ⟨_, rfl⟩

/-! ## A length beyond the finite numbers -/

theorem buildPlan_of_unresolved {fault : Fault} (strategy : Strategy) (session : Session)
    (stopped : Resolution.ofViolation violation = .error fault) :
    Proposal.buildPlan [violation] strategy {} session = .error (.value fault) session := by
  have unmade : stepsFrom 0 [violation] = .error fault := by
    rw [stepsFrom, stopped]
    rfl
  have undrafted : Plan.draft [violation] strategy {} = .error fault := by
    change (stepsFrom 0 [violation] >>= fun resolved => _) = _
    rw [unmade]
    rfl
  unfold Proposal.buildPlan
  rw [undrafted]
  rfl

/-- A class whose length has so many digits that no finite number is near it. -/
def vastClass : List Char := "p-[".toList ++ List.replicate 309 '9' ++ "px]".toList

/-- A finding for that class that is not serious. -/
def vastLength : Violation where
  ruleId := .text "north/no-arbitrary-values"
  ruleKey := .text "no-arbitrary-values"
  severity := .info
  message := .text "m"
  filePath := .text "src/App.tsx"
  line := 1
  column := 0
  className := .text (String.ofList vastClass)

theorem vastLength_matched : vastLength.matched = .text (String.ofList vastClass) := by
  have filled : String.ofList vastClass ≠ "" := by
    intro empty
    have none := congrArg String.toList empty
    rw [String.toList_ofList] at none
    cases none
  show (Json.orElse (.text (String.ofList vastClass)) _).settled = _
  rw [Json.orElse, if_pos]
  · rfl
  · simp [Json.isFilled, filled]

theorem ofViolation_vastLength :
    Resolution.ofViolation vastLength = .error .infiniteInteger := by
  have stopped : Suggestion.scaleValue vastClass = .error .infiniteInteger := by
    decide +kernel
  apply Resolution.ofViolation_of_unscalable rfl vastLength_matched
  rw [String.toList_ofList, stopped]

end Restyle
