import Mathlib.Data.List.Sublists
import Restyle.Proofs.Migration.Stylesheet
import Restyle.Proofs.Plan.Nesting
import Restyle.Proofs.Suggestion.Slugs

/-!
# Names that steps share

A token is named after the rule and a slug of its value, a utility after the
kinds of classes in its pattern.  Either leaves something out, and nothing keeps
two values apart that come to one name.  What two steps declare under one name
agrees exactly where the text does that is declared.
-/

namespace Restyle

open Suggestion

variable {violations : List Violation} {violation : Violation} {filters : Filters}
  {strategy : Strategy} {first second step : Step} {plan : Plan} {session ready : Session}

namespace Suggestion

variable {family other : String} {value text : List Char}

/-! ## Tokens -/

def tokenFamilies : List String := ["color", "inline-color"]

theorem tokenName_eq_iff (member : family ∈ tokenFamilies) (among : other ∈ tokenFamilies) :
    tokenName family.toList value = tokenName other.toList text ↔
      family = other ∧ slugOrCustom value = slugOrCustom text := by
  have apart : ∀ value text : List Char,
      "color".toList ++ '-' :: value ≠ "inline-color".toList ++ '-' :: text := by
    intro value text same
    have heads : some 'c' = some 'i' := congrArg List.head? same
    exact absurd heads (by decide)
  rw [tokenName, tokenName, List.append_assoc, List.append_assoc, List.append_cancel_left_eq]
  change family.toList ++ '-' :: slugOrCustom value = other.toList ++ '-' :: slugOrCustom text ↔ _
  rcases List.mem_pair.mp member with rfl | rfl <;> rcases List.mem_pair.mp among with rfl | rfl
  · simp only [List.append_cancel_left_eq, List.cons.injEq, true_and]
  · exact iff_of_false (apart _ _) (by simp)
  · exact iff_of_false (apart _ _).symm (by simp)
  · simp only [List.append_cancel_left_eq, List.cons.injEq, true_and]

/-- Whether a value is a colour of lower-case letters and digits after a hash. -/
def IsPlainColour (value : List Char) : Prop :=
  ∃ digits, literalValue value = '#' :: digits ∧ digits ≠ [] ∧ ∀ digit ∈ digits, IsPlain digit

theorem slug_of_plain (literal : literalValue value = '#' :: text)
    (plain : ∀ character ∈ text, IsPlain character) : slug value = text := by
  have bare : bareValue value = text := by
    rw [bareValue, literal]
    rfl
  rw [slug_eq, loweredRuns, bare]
  cases text with
  | nil => rfl
  | cons first rest =>
      have single : runs (first :: rest) = [first :: rest] := by
        have whole := @runs_intercalate [first :: rest] (by simp)
          (List.forall_mem_singleton.mpr fun letter here => (plain letter here).stays)
        rwa [List.intercalate_singleton] at whole
      rw [single, List.map_singleton, List.intercalate_singleton, flatMap_lowerCase plain]

/-! ## Utilities -/

/-- The kinds of the classes of a pattern. -/
def kindsOf (pattern : List Char) : List String :=
  (utilityKinds.filter fun kind => hasKind (Text.words pattern) kind.2).map (·.1)

def nameOfKinds (kinds : List String) : String :=
  "@apply-" ++ "-".intercalate (if kinds.isEmpty then ["utility"] else kinds)

theorem nodup_nameOfKinds :
    (((utilityKinds.map (·.1)).sublists).map nameOfKinds).Nodup := by
  decide +kernel

theorem utilityName_eq_iff :
    utilityName value = utilityName text ↔ kindsOf value = kindsOf text := by
  have known : ∀ pattern, kindsOf pattern ∈ (utilityKinds.map (·.1)).sublists := by
    intro pattern
    rw [List.mem_sublists]
    exact List.filter_sublist.map _
  constructor
  · intro same
    exact List.inj_on_of_nodup_map nodup_nameOfKinds (known value) (known text) same
  · intro same
    exact congrArg nameOfKinds same

end Suggestion

/-! ## Declarations -/

theorem tokenDeclaration_eq_iff {value other : List Char} {token : String} :
    tokenDeclaration value token = tokenDeclaration other token ↔
      literalValue value = literalValue other := by
  unfold tokenDeclaration
  rw [← String.toList_inj]
  simp only [String.toList_append, String.toList_ofList, List.append_assoc,
    List.append_cancel_left_eq, List.append_cancel_right_eq]

theorem utilityBlock_eq_iff {name pattern other : String} :
    utilityBlock name pattern = utilityBlock name other ↔ pattern = other := by
  unfold utilityBlock
  rw [← String.toList_inj, ← String.toList_inj]
  simp only [String.toList_append, List.append_assoc, List.append_cancel_left_eq,
    List.append_cancel_right_eq]

/-- Whether a step moves a value into a token named after a family and the value. -/
def Step.Tokenizes (step : Step) (family text : String) : Prop :=
  family ∈ tokenFamilies ∧ step.action =
    .tokenize (.text text) (.text (String.ofList (tokenName family.toList text.toList)))

/-- Whether a step moves a pattern into a utility named after the pattern. -/
def Step.Extracts (step : Step) (pattern : String) : Prop :=
  step.action = .extract (.text pattern) (.text (utilityName pattern.toList))

theorem Step.Tokenizes.declares {family text : String} {content : List Char} {edit : Edit}
    (tokenizes : step.Tokenizes family text) (made : step.edit content = .ok (some edit)) :
    edit.sideEffect = some (.token (tokenDeclaration text.toList
      (String.ofList (tokenName family.toList text.toList)))) := by
  rw [Step.edit_sideEffect made, Step.declaration?, tokenizes.2]
  rfl

theorem Step.Extracts.declares {pattern : String} {content : List Char} {edit : Edit}
    (extracts : step.Extracts pattern) (made : step.edit content = .ok (some edit)) :
    edit.sideEffect = some (.utility (utilityBlock (utilityName pattern.toList) pattern)) := by
  rw [Step.edit_sideEffect made, Step.declaration?, show step.action = _ from extracts]

/-! ## Planned steps -/

namespace Resolution

variable {rule : FixableRule} {action : FixAction} {value token pattern utility : Json}

theorem mapText_names {transform : List Char → List Char} {name : Json}
    (mapped : mapText transform value = .ok name) :
    ∃ text, value = .text text ∧ name = .text (String.ofList (transform text.toList)) := by
  obtain ⟨text, read, made⟩ := bind_eq_ok_iff.mp mapped
  cases made
  exact ⟨text, Json.asText_eq_ok read, rfl⟩

theorem fix_tokenize (made : fix violation rule = .ok (.tokenize value token)) :
    ∃ family ∈ tokenFamilies, ∃ text : String, value = .text text ∧
      token = .text (String.ofList (tokenName family.toList text.toList)) := by
  cases rule with
  | arbitraryColours =>
      obtain ⟨name, named, made⟩ := bind_eq_ok_iff.mp made
      cases made
      obtain ⟨text, isText, rfl⟩ := mapText_names named
      exact ⟨"color", by decide, text, isText, rfl⟩
  | inlineColour =>
      obtain ⟨noted, _, made⟩ := bind_eq_ok_iff.mp made
      obtain ⟨name, named, made⟩ := bind_eq_ok_iff.mp made
      cases made
      obtain ⟨text, isText, rfl⟩ := mapText_names named
      exact ⟨"inline-color", by decide, text, isText, rfl⟩
  | arbitraryValues =>
      obtain ⟨_, _, made⟩ := bind_eq_ok_iff.mp made
      obtain ⟨_, _, made⟩ := bind_eq_ok_iff.mp made
      cases made
  | _ =>
      obtain ⟨_, _, made⟩ := bind_eq_ok_iff.mp made
      cases made

theorem fix_extract (made : fix violation rule = .ok (.extract pattern utility)) :
    ∃ text : String, pattern = .text text ∧ utility = .text (utilityName text.toList) := by
  cases rule with
  | repeatedClasses =>
      obtain ⟨text, read, made⟩ := bind_eq_ok_iff.mp made
      cases made
      refine ⟨text, ?_, rfl⟩
      show violation.matched = .text text
      cases matched : violation.matched with
      | text value =>
          rw [matched] at read
          cases read
          rfl
      | torn codes => exact absurd matched (Json.settled_ne_torn _ codes)
      | _ =>
          rw [matched] at read
          cases read
  | arbitraryValues =>
      obtain ⟨_, _, made⟩ := bind_eq_ok_iff.mp made
      obtain ⟨_, _, made⟩ := bind_eq_ok_iff.mp made
      cases made
  | inlineColour =>
      obtain ⟨_, _, made⟩ := bind_eq_ok_iff.mp made
      obtain ⟨_, _, made⟩ := bind_eq_ok_iff.mp made
      cases made
  | _ =>
      obtain ⟨_, _, made⟩ := bind_eq_ok_iff.mp made
      cases made

end Resolution

theorem fixes_of_buildPlan
    (built : Proposal.buildPlan violations strategy filters session = .ok plan ready)
    (member : step ∈ plan.steps) :
    ∃ violation rule, Resolution.fix violation rule = .ok step.action := by
  obtain ⟨filtered, _, form⟩ := buildPlan_isDrafted built
  obtain ⟨violation, _, rule, made⟩ := form.fixes member
  exact ⟨violation, rule, made⟩

/-- How two steps that define tokens agree.  They use one name exactly when they
are of one family and their values have one slug.  Under one name they declare
the same exactly when their values have the same literal, as plain colours do. -/
def TokensAgree (first second : Step) (name otherName : Json) : Prop :=
  ∃ family text otherFamily otherText, first.Tokenizes family text ∧
    second.Tokenizes otherFamily otherText ∧
    (name = otherName ↔ family = otherFamily ∧
      slugOrCustom text.toList = slugOrCustom otherText.toList) ∧
    (name = otherName → ∀ content later edit change,
      first.edit content = .ok (some edit) → second.edit later = .ok (some change) →
        (edit.sideEffect = change.sideEffect ↔
          literalValue text.toList = literalValue otherText.toList)) ∧
    (name = otherName → IsPlainColour text.toList → IsPlainColour otherText.toList →
      literalValue text.toList = literalValue otherText.toList)

/-- How two steps that extract patterns agree.  They use one name exactly when
the classes of their patterns are of the same kinds, and then declare the same
exactly when the patterns are equal. -/
def UtilitiesAgree (first second : Step) (name otherName : Json) : Prop :=
  ∃ text otherText, first.Extracts text ∧ second.Extracts otherText ∧
    (name = otherName ↔ kindsOf text.toList = kindsOf otherText.toList) ∧
    (name = otherName → ∀ content later edit change,
      first.edit content = .ok (some edit) → second.edit later = .ok (some change) →
        (edit.sideEffect = change.sideEffect ↔ text = otherText))

theorem tokensAgree_of_fix {value name other otherName : Json}
    (made : ∃ violation rule, Resolution.fix violation rule = .ok first.action)
    (madeToo : ∃ violation rule, Resolution.fix violation rule = .ok second.action)
    (defines : first.action = .tokenize value name)
    (definesToo : second.action = .tokenize other otherName) :
    TokensAgree first second name otherName := by
  obtain ⟨_, _, made⟩ := made
  rw [defines] at made
  obtain ⟨family, known, text, rfl, rfl⟩ := Resolution.fix_tokenize made
  obtain ⟨_, _, madeToo⟩ := madeToo
  rw [definesToo] at madeToo
  obtain ⟨otherFamily, knownToo, otherText, rfl, rfl⟩ := Resolution.fix_tokenize madeToo
  have names : Json.text (String.ofList (tokenName family.toList text.toList)) =
      .text (String.ofList (tokenName otherFamily.toList otherText.toList)) ↔
        family = otherFamily ∧ slugOrCustom text.toList = slugOrCustom otherText.toList := by
    rw [Json.text.injEq, String.ofList_inj]
    exact tokenName_eq_iff known knownToo
  refine ⟨family, text, otherFamily, otherText, ⟨known, defines⟩, ⟨knownToo, definesToo⟩, names,
    ?_, ?_⟩
  · intro same content later edit change edited editedToo
    have tokenizes : first.Tokenizes family text := ⟨known, defines⟩
    have tokenizesToo : second.Tokenizes otherFamily otherText := ⟨knownToo, definesToo⟩
    rw [tokenizes.declares edited, tokenizesToo.declares editedToo, Json.text.inj same,
      Option.some_inj, SideEffect.token.injEq]
    exact tokenDeclaration_eq_iff
  · rintro same ⟨digits, literal, filled, plain⟩ ⟨otherDigits, literalToo, filledToo, plainToo⟩
    have slugs := (names.mp same).2
    rw [slugOrCustom, slugOrCustom, slug_of_plain literal plain, slug_of_plain literalToo plainToo,
      if_neg (by simpa using filled), if_neg (by simpa using filledToo)] at slugs
    rw [literal, literalToo, slugs]

theorem utilitiesAgree_of_fix {pattern name other otherName : Json}
    (made : ∃ violation rule, Resolution.fix violation rule = .ok first.action)
    (madeToo : ∃ violation rule, Resolution.fix violation rule = .ok second.action)
    (extracts : first.action = .extract pattern name)
    (extractsToo : second.action = .extract other otherName) :
    UtilitiesAgree first second name otherName := by
  obtain ⟨_, _, made⟩ := made
  rw [extracts] at made
  obtain ⟨text, rfl, rfl⟩ := Resolution.fix_extract made
  obtain ⟨_, _, madeToo⟩ := madeToo
  rw [extractsToo] at madeToo
  obtain ⟨otherText, rfl, rfl⟩ := Resolution.fix_extract madeToo
  refine ⟨text, otherText, extracts, extractsToo, ?_, ?_⟩
  · rw [Json.text.injEq]
    exact utilityName_eq_iff
  · intro same content later edit change edited editedToo
    rw [Step.Extracts.declares extracts edited, Step.Extracts.declares extractsToo editedToo,
      Json.text.inj same, Option.some_inj, SideEffect.utility.injEq]
    exact utilityBlock_eq_iff

/-- Steps of one plan that define tokens, and those that extract patterns, share
names as far as the names leave out what tells them apart. -/
theorem planned_names_agree
    (built : Proposal.buildPlan violations strategy filters session = .ok plan ready) :
    ∀ first ∈ plan.steps, ∀ second ∈ plan.steps,
      (∀ value name other otherName, first.action = .tokenize value name →
        second.action = .tokenize other otherName → TokensAgree first second name otherName) ∧
      (∀ pattern name other otherName, first.action = .extract pattern name →
        second.action = .extract other otherName →
          UtilitiesAgree first second name otherName) := by
  intro first member second among
  have made := fixes_of_buildPlan built member
  have madeToo := fixes_of_buildPlan built among
  constructor
  · intro value name other otherName defines definesToo
    exact tokensAgree_of_fix made madeToo defines definesToo
  · intro pattern name other otherName extracts extractsToo
    exact utilitiesAgree_of_fix made madeToo extracts extractsToo

/-- A colour that has the slug of another. -/
def shouting : Violation := { colouring with line := 1, className := .text "bg-[#FFF]" }

/-- A pattern of the kinds of another. -/
def variation : Violation := { repetition with className := .text "x z" }

/-- A source in which the two colours and the two patterns stand. -/
def sharedSource : List Char := "bg-[#FFF] x y x z\nbg-[#fff]".toList

/-- What a step does and what it then declares. -/
def Step.effectIn (content : List Char) (step : Step) : FixAction × Option SideEffect :=
  (step.action, (step.edit content).toOption.join.bind (·.sideEffect))

theorem variants_stored :
    storedView [shouting, colouring, repetition, variation] .aggressive {}
        ⟨.root, ["p", "plan"]⟩ bareProject
        (fun plan => plan.steps.map (Step.effectIn sharedSource)) =
      some
        [(.tokenize (.text "bg-[#FFF]") (.text "--color-fff"),
            some (.token "--color-fff: #FFF;")),
          (.tokenize (.text "bg-[#fff]") (.text "--color-fff"),
            some (.token "--color-fff: #fff;")),
          (.extract (.text "x y") (.text "@apply-utility"),
            some (.utility (utilityBlock "@apply-utility" "x y"))),
          (.extract (.text "x z") (.text "@apply-utility"),
            some (.utility (utilityBlock "@apply-utility" "x z")))] := by
  decide +kernel

theorem variants_planned :
    ∃ plan ready, Proposal.buildPlan [shouting, colouring, repetition, variation] .aggressive {}
        bareProject = .ok plan ready ∧
      ∃ loud quiet whole part, plan.steps = [loud, quiet, whole, part] ∧
        loud.effectIn sharedSource = (.tokenize (.text "bg-[#FFF]") (.text "--color-fff"),
          some (.token "--color-fff: #FFF;")) ∧
        quiet.effectIn sharedSource = (.tokenize (.text "bg-[#fff]") (.text "--color-fff"),
          some (.token "--color-fff: #fff;")) ∧
        whole.action = .extract (.text "x y") (.text "@apply-utility") ∧
        part.action = .extract (.text "x z") (.text "@apply-utility") := by
  obtain ⟨plan, ready, _, built, _, seen⟩ := storedView_eq_some variants_stored
  obtain ⟨loud, rest, split, first, seen⟩ := List.map_eq_cons_iff.mp seen
  obtain ⟨quiet, rest, rfl, second, seen⟩ := List.map_eq_cons_iff.mp seen
  obtain ⟨whole, rest, rfl, third, seen⟩ := List.map_eq_cons_iff.mp seen
  obtain ⟨part, rest, rfl, fourth, seen⟩ := List.map_eq_cons_iff.mp seen
  obtain rfl := List.map_eq_nil_iff.mp seen
  exact ⟨plan, ready, built, loud, quiet, whole, part, split, first, second,
    congrArg Prod.fst third, congrArg Prod.fst fourth⟩

theorem planned_names_agree_variants :
    ∃ plan ready loud quiet whole part,
      Proposal.buildPlan [shouting, colouring, repetition, variation] .aggressive {} bareProject =
        .ok plan ready ∧ plan.steps = [loud, quiet, whole, part] ∧
      TokensAgree loud quiet (.text "--color-fff") (.text "--color-fff") ∧
      UtilitiesAgree whole part (.text "@apply-utility") (.text "@apply-utility") := by
  obtain ⟨plan, ready, built, loud, quiet, whole, part, steps, first, second, third, fourth⟩ :=
    variants_planned
  have agree := planned_names_agree built
  rw [steps] at agree
  refine ⟨plan, ready, loud, quiet, whole, part, built, steps, ?_, ?_⟩
  · exact (agree loud (by simp) quiet (by simp)).1 _ _ _ _ (congrArg Prod.fst first)
      (congrArg Prod.fst second)
  · exact (agree whole (by simp) part (by simp)).2 _ _ _ _ third fourth

theorem Step.edit_of_effectIn {content : List Char} {action : FixAction} {effect : SideEffect}
    (seen : step.effectIn content = (action, some effect)) :
    ∃ edit, step.edit content = .ok (some edit) ∧ edit.sideEffect = some effect := by
  have found := congrArg Prod.snd seen
  simp only [Step.effectIn] at found
  cases made : step.edit content with
  | error fault => simp [made, Except.toOption] at found
  | ok result =>
      cases result with
      | none => simp [made, Except.toOption] at found
      | some edit => exact ⟨edit, rfl, by simpa [made, Except.toOption] using found⟩

/-- In one plan a token may be declared with two values, and a utility stand for
two patterns. -/
theorem shared_names_conflict :
    ∃ plan ready, Proposal.buildPlan [shouting, colouring, repetition, variation] .aggressive {}
        bareProject = .ok plan ready ∧
      (∃ first ∈ plan.steps, ∃ second ∈ plan.steps, ∃ value other name content edit change,
        first.action = .tokenize value name ∧ second.action = .tokenize other name ∧
        first.edit content = .ok (some edit) ∧ second.edit content = .ok (some change) ∧
          edit.sideEffect ≠ change.sideEffect) ∧
      ∃ first ∈ plan.steps, ∃ second ∈ plan.steps, ∃ pattern other name,
        first.action = .extract pattern name ∧ second.action = .extract other name ∧
          pattern ≠ other := by
  obtain ⟨plan, ready, built, loud, quiet, whole, part, steps, first, second, third, fourth⟩ :=
    variants_planned
  obtain ⟨edit, edited, effect⟩ := Step.edit_of_effectIn first
  obtain ⟨change, changed, otherEffect⟩ := Step.edit_of_effectIn second
  refine ⟨plan, ready, built, ⟨loud, by simp [steps], quiet, by simp [steps], _, _, _,
    sharedSource, edit, change, congrArg Prod.fst first, congrArg Prod.fst second, edited, changed,
    ?_⟩, whole, by simp [steps], part, by simp [steps], _, _, _, third, fourth, ?_⟩
  · rw [effect, otherEffect]
    decide
  · decide

end Restyle
