import Restyle.Proofs.Number.Comparison
import Restyle.Proofs.Plan.Linking

/-!
# Plans of stricter strategies

A strategy is asked after the violations have been chosen and their fixes found,
and takes some of the steps that these make.  Numbers and links are made last.
So without them the plan of a stricter strategy is part of that of a laxer one.
-/

namespace Restyle

variable {violations filtered : List Violation} {violation : Violation} {filters : Filters}
  {strategy strict lax : Strategy} {steps all linked : List Step} {step early late : Step}
  {confidence : Binary64} {severity : Severity} {plan : Plan} {draft : PlanDraft}
  {session ready : Session}

/-! ## Strategies -/

theorem Strategy.leastConfidence_le (stricter : [strict, lax].Sublist Strategy.all) :
    lax.leastConfidence.le strict.leastConfidence = true := by
  revert stricter
  cases strict <;> cases lax <;> decide +kernel

theorem Strategy.covers_of_stricter (stricter : [strict, lax].Sublist Strategy.all)
    (covered : strict.covers severity = true) : lax.covers severity = true := by
  revert stricter covered
  cases strict <;> cases lax <;> cases severity <;> decide

theorem Strategy.accepts_of_stricter (stricter : [strict, lax].Sublist Strategy.all)
    (accepted : strict.accepts confidence severity = true) :
    lax.accepts confidence severity = true := by
  obtain ⟨sure, covered⟩ := Bool.and_eq_true_iff.mp accepted
  apply Bool.and_eq_true_iff.mpr
  constructor
  · exact Binary64.le_trans (leastConfidence_le stricter) sure
  · exact covers_of_stricter stricter covered

/-! ## Steps without numbers and links -/

/-- A step without identifier and dependencies. -/
def Step.bare (step : Step) : Step := { step with id := .null, dependencies := none }

/-- The bare step that a violation makes, if it has a fix. -/
def Violation.bareStep? (violation : Violation) : Option Step :=
  match Resolution.ofViolation violation with
  | .ok (some resolution) => (stepFor "" violation resolution).toOption.map Step.bare
  | _ => none

theorem bareStep?_eq_none (found : Resolution.ofViolation violation = .ok none) :
    violation.bareStep? = none := by
  rw [Violation.bareStep?, found]

theorem bareStep?_eq_some {id : String} {resolution : Resolution}
    (found : Resolution.ofViolation violation = .ok (some resolution))
    (made : stepFor id violation resolution = .ok step) : violation.bareStep? = some step.bare := by
  obtain ⟨preview, shown, made⟩ := bind_eq_ok_iff.mp made
  cases made
  rw [Violation.bareStep?, found]
  simp only [stepFor]
  rw [shown]
  rfl

theorem bare_stepsFrom {next : Nat} (made : stepsFrom next violations = .ok steps) :
    steps.map Step.bare = violations.filterMap Violation.bareStep? := by
  induction violations generalizing next steps with
  | nil =>
      cases made
      rfl
  | cons violation violations induction =>
      rw [stepsFrom] at made
      obtain ⟨resolution, found, made⟩ := bind_eq_ok_iff.mp made
      cases resolution with
      | none =>
          rw [List.filterMap_cons_none (bareStep?_eq_none found)]
          exact induction made
      | some resolution =>
          obtain ⟨step, built, made⟩ := bind_eq_ok_iff.mp made
          obtain ⟨rest, further, made⟩ := bind_eq_ok_iff.mp made
          cases made
          rw [List.filterMap_cons_some (bareStep?_eq_some found built), List.map_cons,
            induction further]

theorem bare_gate (strategy : Strategy) (steps : List Step) :
    (gate strategy steps).map Step.bare = gate strategy (steps.map Step.bare) := by
  unfold gate
  rw [List.filter_map]
  rfl

theorem gate_sublist (stricter : [strict, lax].Sublist Strategy.all) (steps : List Step) :
    (gate strict steps).Sublist (gate lax steps) := by
  apply List.monotone_filter_right
  intro step accepted
  exact Strategy.accepts_of_stricter stricter accepted

theorem bare_renumberFrom (next : Nat) (steps : List Step) :
    (renumberFrom next steps).map Step.bare = steps.map Step.bare := by
  induction steps generalizing next with
  | nil => rfl
  | cons step steps induction =>
      rw [renumberFrom, List.map_cons, List.map_cons, induction]
      rfl

/-! ## Texts that are looked up -/

/-- Whether the token that a fix defines and the text that it puts in are texts. -/
def FixAction.IsSpelled : FixAction → Prop
  | .replace _ replacement => ∃ text, replacement = .text text
  | .tokenize _ token => ∃ text, token = .text text
  | _ => True

theorem Resolution.isSpelled_fix {rule : FixableRule} {action : FixAction}
    (made : fix violation rule = .ok action) : action.IsSpelled := by
  cases rule with
  | arbitraryValues =>
      obtain ⟨_, _, made⟩ := bind_eq_ok_iff.mp made
      obtain ⟨scaled, _, made⟩ := bind_eq_ok_iff.mp made
      cases made
      exact ⟨_, rfl⟩
  | inlineColour =>
      obtain ⟨_, _, made⟩ := bind_eq_ok_iff.mp made
      obtain ⟨_, named, made⟩ := bind_eq_ok_iff.mp made
      cases made
      exact mapText_eq_ok named
  | repeatedClasses =>
      obtain ⟨_, _, made⟩ := bind_eq_ok_iff.mp made
      cases made
      trivial
  | _ =>
      obtain ⟨_, named, made⟩ := bind_eq_ok_iff.mp made
      cases made
      exact mapText_eq_ok named

theorem Resolution.fix_of_ofViolation {resolution : Resolution}
    (found : ofViolation violation = .ok (some resolution)) :
    ∃ rule, fix violation rule = .ok resolution.action := by
  unfold ofViolation at found
  obtain ⟨key, _, found⟩ := bind_eq_ok_iff.mp found
  split at found
  · cases found
  · obtain ⟨action, made, found⟩ := bind_eq_ok_iff.mp found
    split at found
    · obtain ⟨confidence, _, found⟩ := bind_eq_ok_iff.mp found
      cases found
      exact ⟨_, made⟩
    · cases found

/-- What a step that is made takes from its violation. -/
theorem made_of_bareStep? (made : violation.bareStep? = some step) :
    (∃ rule, Resolution.fix violation rule = .ok step.action) ∧
      step.file = violation.filePath ∧ step.ruleId = violation.ruleId := by
  unfold Violation.bareStep? at made
  split at made
  · rename_i resolution found
    obtain ⟨whole, built, rfl⟩ := Option.map_eq_some_iff.mp made
    cases stepped : stepFor "" violation resolution with
    | error fault =>
        rw [stepped] at built
        cases built
    | ok other =>
        rw [stepped] at built
        cases built
        obtain ⟨preview, _, stepped⟩ := bind_eq_ok_iff.mp stepped
        cases stepped
        exact ⟨Resolution.fix_of_ofViolation found, rfl, rfl⟩
  · cases made

/-! ## Links -/

/-- Whether a step puts in a text in which the name of the token that another
step defines occurs. -/
def Step.RefersTo (late early : Step) : Prop :=
  ∃ source replacement value token, late.action = .replace source (.text replacement) ∧
    early.action = .tokenize value (.text token) ∧
    Text.occursIn token.toList replacement.toList = true

/-- Whether a row of the table of tokens gives a token and a step that defines it. -/
def Step.HasRow (steps : List Step) (row : Json × Json) : Prop :=
  ∃ step ∈ steps, ∃ value token, step.id = row.2 ∧ step.action = .tokenize value (.text token) ∧
    row.1 = .text token

theorem hasRow_set {table : Table} {value : Json} {token : String} {row : Json × Json}
    (known : ∀ row ∈ table, Step.HasRow all row) (among : step ∈ all)
    (defines : step.action = .tokenize value (.text token))
    (member : row ∈ table.set (.text token) step.id) : Step.HasRow all row := by
  induction table with
  | nil =>
      obtain rfl := List.mem_singleton.mp member
      exact ⟨step, among, value, token, rfl, defines, rfl⟩
  | cons first rows induction =>
      obtain ⟨knownFirst, knownLater⟩ := List.forall_mem_cons.mp known
      rw [Table.set] at member
      split at member
      · rename_i same
        rcases List.mem_cons.mp member with rfl | later
        · obtain ⟨_, _, _, name, _, _, isText⟩ := knownFirst
          rw [isText, Table.same_texts, decide_eq_true_eq] at same
          exact ⟨step, among, value, token, rfl, defines, isText.trans (congrArg _ same)⟩
        · exact knownLater row later
      · rcases List.mem_cons.mp member with rfl | later
        · exact knownFirst
        · exact induction knownLater later

theorem tokenTable_hasRow {table : Table} (known : ∀ row ∈ table, Step.HasRow all row)
    (part : ∀ step ∈ steps, step ∈ all) (spelled : ∀ step ∈ steps, step.action.IsSpelled) :
    ∃ tokens, tokenTable table steps = .ok tokens ∧ ∀ row ∈ tokens, Step.HasRow all row := by
  induction steps generalizing table with
  | nil => exact ⟨table, rfl, known⟩
  | cons step steps induction =>
      obtain ⟨among, later⟩ := List.forall_mem_cons.mp part
      obtain ⟨first, others⟩ := List.forall_mem_cons.mp spelled
      rw [tokenTable]
      split
      · rename_i value token defines
        rw [defines] at first
        obtain ⟨name, rfl⟩ := first
        apply induction _ later others
        intro row member
        exact hasRow_set known among defines member
      · exact induction known later others

/-- A step can always be linked, and is then linked to steps that it refers to. -/
theorem linkStep_refersTo {tokens : Table} (known : ∀ row ∈ tokens, Step.HasRow all row)
    (spelled : step.action.IsSpelled) (unlinked : step.dependencies = none) :
    ∃ links, linkStep tokens step = .ok { step with dependencies := links } ∧
      ∀ id ∈ links.getD [], ∃ early ∈ all, early.id = id ∧ step.RefersTo early := by
  have same : step = { step with dependencies := none } := by rw [← unlinked]
  unfold linkStep
  split
  · rename_i source replacement replaces
    rw [replaces] at spelled
    obtain ⟨text, rfl⟩ := spelled
    have answered : ∀ row ∈ tokens, refersTo (.text text) row.1 =
        .ok (accepted (fun row : Json × Json => refersTo (.text text) row.1) row) := by
      intro row member
      obtain ⟨_, _, _, token, _, _, isText⟩ := known row member
      rw [accepted, isText]
      rfl
    rw [filterM_eq_ok.mpr ⟨answered, rfl⟩]
    show ∃ links, ite _ _ _ = _ ∧ _
    split
    · exact ⟨none, congrArg _ same, by simp⟩
    · refine ⟨_, rfl, ?_⟩
      intro id linkedTo
      obtain ⟨row, member, rfl⟩ := List.mem_map.mp linkedTo
      obtain ⟨inTable, refers⟩ := List.mem_filter.mp member
      obtain ⟨early, among, value, token, named, defines, isText⟩ := known row inTable
      rw [accepted, isText] at refers
      exact ⟨early, among, named, source, text, value, token, replaces, defines, refers⟩
  · exact ⟨none, congrArg _ same, by simp⟩

/-- What linking leaves as it is, and where the links lead. -/
structure IsLinking (steps linked : List Step) : Prop where
  bare : linked.map Step.bare = steps.map Step.bare
  leads : ∀ late ∈ linked, ∀ id ∈ late.dependencyList,
    ∃ early ∈ linked, early.id = id ∧ late.RefersTo early

theorem link_isLinking (spelled : ∀ step ∈ steps, step.action.IsSpelled) :
    ∃ linked, link (renumber steps) = .ok linked ∧ IsLinking steps linked := by
  have numbered : ∀ step ∈ renumber steps, step.action.IsSpelled ∧ step.dependencies = none := by
    intro step member
    obtain ⟨old, among, _, rfl⟩ := mem_renumberFrom member
    exact ⟨spelled old among, rfl⟩
  have noRows : ∀ row ∈ ([] : Table), Step.HasRow (renumber steps) row := nofun
  obtain ⟨tokens, found, known⟩ := tokenTable_hasRow noRows (fun step member => member)
    fun step member => (numbered step member).1
  have each := fun step member =>
    linkStep_refersTo known (numbered step member).1 (numbered step member).2
  choose! links made leads using each
  let linkOf (step : Step) : Step := { step with dependencies := links step }
  refine ⟨(renumber steps).map linkOf, ?_, ?_, ?_⟩
  · apply bind_eq_ok_iff.mpr
    refine ⟨tokens, found, mapM_eq_ok.mpr ?_⟩
    rw [List.forall₂_map_right_iff, List.forall₂_same]
    exact made
  · rw [List.map_map, ← bare_renumberFrom 0 steps]
    rfl
  · intro late member id linkedTo
    obtain ⟨old, among, rfl⟩ := List.mem_map.mp member
    obtain ⟨early, there, named, refers⟩ := leads old among id linkedTo
    exact ⟨linkOf early, List.mem_map_of_mem there, named, refers⟩

/-! ## Drafts -/

/-- The bare steps of a plan are those that the strategy takes of the steps that
the chosen violations make, in the order of the violations.  Its links lead to
tokens that are referred to. -/
structure IsDrafted (filtered : List Violation) (strategy : Strategy) (steps : List Step) :
    Prop where
  bare : steps.map Step.bare = gate strategy (filtered.filterMap Violation.bareStep?)
  leads : ∀ late ∈ steps, ∀ id ∈ late.dependencyList,
    ∃ early ∈ steps, early.id = id ∧ late.RefersTo early

theorem isSpelled_of_stepsFrom {next : Nat} (made : stepsFrom next violations = .ok steps) :
    ∀ step ∈ steps, step.action.IsSpelled := by
  intro step member
  have among : step.bare ∈ violations.filterMap Violation.bareStep? := by
    rw [← bare_stepsFrom made]
    exact List.mem_map_of_mem member
  obtain ⟨violation, _, found⟩ := List.mem_filterMap.mp among
  obtain ⟨⟨rule, made⟩, _⟩ := made_of_bareStep? found
  exact Resolution.isSpelled_fix made

/-- The steps of a draft can be made if those of the violations can, whatever
the strategy is. -/
theorem draft_of_stepsFrom (strategy : Strategy)
    (chosen : filterViolations filters violations = .ok filtered)
    (made : stepsFrom 0 filtered = .ok steps) :
    ∃ draft, Plan.draft violations strategy filters = .ok draft ∧
      draft.counts.violations = violations.length ∧ IsDrafted filtered strategy draft.steps := by
  have spelled : ∀ step ∈ gate strategy steps, step.action.IsSpelled :=
    fun step member => isSpelled_of_stepsFrom made step (List.mem_filter.mp member).1
  obtain ⟨linked, linking, bare, leads⟩ := link_isLinking spelled
  refine ⟨⟨linked, ⟨linked.length, violations.length, filtered.length, steps.length⟩⟩, ?_, rfl, ?_,
    leads⟩
  · apply bind_eq_ok_iff.mpr ⟨filtered, chosen, _⟩
    apply bind_eq_ok_iff.mpr ⟨steps, made, _⟩
    exact bind_eq_ok_iff.mpr ⟨linked, linking, rfl⟩
  · rw [bare, bare_gate, bare_stepsFrom made]

theorem stepsFrom_of_draft (made : Plan.draft violations strategy filters = .ok draft) :
    ∃ filtered steps, filterViolations filters violations = .ok filtered ∧
      stepsFrom 0 filtered = .ok steps := by
  obtain ⟨filtered, chosen, made⟩ := bind_eq_ok_iff.mp made
  obtain ⟨steps, found, _⟩ := bind_eq_ok_iff.mp made
  exact ⟨filtered, steps, chosen, found⟩

theorem IsDrafted.fixes (form : IsDrafted filtered strategy steps) (member : step ∈ steps) :
    ∃ violation ∈ filtered, ∃ rule, Resolution.fix violation rule = .ok step.action := by
  have among : step.bare ∈ gate strategy (filtered.filterMap Violation.bareStep?) := by
    rw [← form.bare]
    exact List.mem_map_of_mem member
  obtain ⟨violation, there, found⟩ := List.mem_filterMap.mp (List.mem_filter.mp among).1
  exact ⟨violation, there, (made_of_bareStep? found).1⟩

/-! ## Summaries -/

/-- Whether a summary can count a step. -/
def Step.IsCountable (step : Step) : Prop :=
  step.file.isKey = true ∧ ∃ rule, step.ruleKey = .ok rule

theorem foldlM_countStep_iff (summary : PlanSummary) :
    (∃ last, steps.foldlM countStep summary = .ok last) ↔
      ∀ step ∈ steps, ∃ rule, step.ruleKey = .ok rule := by
  induction steps generalizing summary with
  | nil => exact ⟨fun _ => nofun, fun _ => ⟨summary, rfl⟩⟩
  | cons step steps induction =>
      rw [List.forall_mem_cons, List.foldlM_cons]
      constructor
      · rintro ⟨last, counted⟩
        obtain ⟨next, first, rest⟩ := bind_eq_ok_iff.mp counted
        obtain ⟨rule, found, _⟩ := bind_eq_ok_iff.mp first
        exact ⟨⟨rule, found⟩, (induction next).mp ⟨last, rest⟩⟩
      · rintro ⟨⟨rule, found⟩, others⟩
        have first : ∃ next, countStep summary step = .ok next :=
          ⟨_, bind_eq_ok_iff.mpr ⟨rule, found, rfl⟩⟩
        obtain ⟨next, first⟩ := first
        obtain ⟨last, rest⟩ := (induction next).mpr others
        exact ⟨last, bind_eq_ok_iff.mpr ⟨next, first, rest⟩⟩

theorem summarize_iff (count : Json) :
    (∃ summary, summarize count steps = .ok summary) ↔ ∀ step ∈ steps, step.IsCountable := by
  constructor
  · rintro ⟨summary, made⟩
    obtain ⟨files, keys, counted⟩ := bind_eq_ok_iff.mp made
    have rules := (foldlM_countStep_iff _).mp ⟨summary, counted⟩
    intro step member
    refine ⟨?_, rules step member⟩
    obtain ⟨file, _, keyed⟩ := (mem_of_mapM keys).1 step member
    by_contra notKey
    rw [Json.asKey, if_neg notKey] at keyed
    cases keyed
  · intro countable
    have keys : steps.mapM (fun step => step.file.asKey) = .ok (steps.map (·.file)) := by
      apply mapM_eq_ok.mpr
      rw [List.forall₂_map_right_iff, List.forall₂_same]
      intro step member
      exact if_pos (countable step member).1
    obtain ⟨summary, counted⟩ := (foldlM_countStep_iff _).mpr fun step member =>
      (countable step member).2
    exact ⟨summary, bind_eq_ok_iff.mpr ⟨_, keys, counted⟩⟩

/-- Whether a step can be counted does not depend on its number and links. -/
theorem countable_of_bare {others : List Step} (same : steps.map Step.bare = others.map Step.bare)
    (countable : ∀ step ∈ others, step.IsCountable) : ∀ step ∈ steps, step.IsCountable := by
  have bare : ∀ step ∈ others.map Step.bare, step.IsCountable := by
    rw [List.forall_mem_map]
    exact countable
  rw [← same, List.forall_mem_map] at bare
  exact bare

/-! ## Plans -/

theorem timestampNow_eq_ok {stamp : String} :
    Activity.timestampNow session = .ok stamp ready ↔
      hasDate session.now = true ∧ stamp = timestamp session.now ∧ session = ready := by
  unfold Activity.timestampNow
  rw [Activity.get_bind]
  split
  · rename_i dated
    rw [Activity.pure_eq_ok]
    simp only [dated, true_and, eq_comm]
  · rename_i undated
    simp [undated]

theorem buildPlan_eq_ok :
    Proposal.buildPlan violations strategy filters session = .ok plan ready ↔
      ∃ draft summary, Plan.draft violations strategy filters = .ok draft ∧
        draft.summary = .ok summary ∧ hasDate session.now = true ∧
        plan = Plan.ofDraft draft summary strategy filters (timestamp session.now) ∧
        Activity.log .debug .planning (Proposal.countsLine draft.counts) session =
          .ok () ready := by
  constructor
  · intro built
    obtain ⟨draft, _, first, built⟩ := Activity.bind_eq_ok.mp built
    obtain ⟨drafted, rfl⟩ := Activity.value_eq_ok.mp first
    obtain ⟨_, middle, logged, built⟩ := Activity.bind_eq_ok.mp built
    obtain ⟨summary, _, second, built⟩ := Activity.bind_eq_ok.mp built
    obtain ⟨summed, rfl⟩ := Activity.value_eq_ok.mp second
    obtain ⟨stamp, _, stamped, built⟩ := Activity.bind_eq_ok.mp built
    obtain ⟨dated, rfl, rfl⟩ := timestampNow_eq_ok.mp stamped
    obtain ⟨rfl, rfl⟩ := Activity.pure_eq_ok.mp built
    have same : middle.now = session.now := (Activity.log_quiet logged).1.now
    rw [same] at dated
    exact ⟨draft, summary, drafted, summed, dated, by rw [same], logged⟩
  · rintro ⟨draft, summary, drafted, summed, dated, rfl, logged⟩
    have same : ready.now = session.now := (Activity.log_quiet logged).1.now
    apply Activity.bind_eq_ok.mpr ⟨draft, session, Activity.value_eq_ok.mpr ⟨drafted, rfl⟩, _⟩
    apply Activity.bind_eq_ok.mpr ⟨(), ready, logged, _⟩
    apply Activity.bind_eq_ok.mpr ⟨summary, ready, Activity.value_eq_ok.mpr ⟨summed, rfl⟩, _⟩
    refine Activity.bind_eq_ok.mpr ⟨timestamp session.now, ready, ?_, rfl⟩
    apply timestampNow_eq_ok.mpr
    rw [same]
    exact ⟨dated, rfl, rfl⟩

theorem buildPlan_isDrafted
    (built : Proposal.buildPlan violations strategy filters session = .ok plan ready) :
    ∃ filtered, filterViolations filters violations = .ok filtered ∧
      IsDrafted filtered strategy plan.steps := by
  obtain ⟨draft, summary, drafted, _, _, rfl, _⟩ := buildPlan_eq_ok.mp built
  obtain ⟨filtered, steps, chosen, made⟩ := stepsFrom_of_draft drafted
  obtain ⟨other, again, _, form⟩ := draft_of_stepsFrom strategy chosen made
  cases drafted.symm.trans again
  exact ⟨filtered, chosen, form⟩

/-- A plan is built when the violations can be filtered, their fixes found and
the steps that the strategy takes counted. -/
theorem exists_plan_iff :
    (∃ plan ready, Proposal.buildPlan violations strategy filters session = .ok plan ready) ↔
      hasDate session.now = true ∧ ∃ filtered steps,
        filterViolations filters violations = .ok filtered ∧ stepsFrom 0 filtered = .ok steps ∧
          ∀ step ∈ gate strategy steps, step.IsCountable := by
  have sameSteps : ∀ {filtered steps linked}, stepsFrom 0 filtered = .ok steps →
      IsDrafted filtered strategy linked →
        linked.map Step.bare = (gate strategy steps).map Step.bare := by
    intro filtered steps linked made form
    rw [form.bare, bare_gate, bare_stepsFrom made]
  constructor
  · rintro ⟨plan, ready, built⟩
    obtain ⟨draft, summary, drafted, summed, dated, _, _⟩ := buildPlan_eq_ok.mp built
    obtain ⟨filtered, steps, chosen, made⟩ := stepsFrom_of_draft drafted
    obtain ⟨other, again, _, form⟩ := draft_of_stepsFrom strategy chosen made
    cases drafted.symm.trans again
    refine ⟨dated, filtered, steps, chosen, made, ?_⟩
    exact countable_of_bare (sameSteps made form).symm ((summarize_iff _).mp ⟨summary, summed⟩)
  · rintro ⟨dated, filtered, steps, chosen, made, countable⟩
    obtain ⟨draft, drafted, _, form⟩ := draft_of_stepsFrom strategy chosen made
    obtain ⟨summary, summed⟩ : ∃ summary, draft.summary = .ok summary :=
      (summarize_iff _).mpr (countable_of_bare (sameSteps made form) countable)
    exact ⟨_, _, buildPlan_eq_ok.mpr ⟨draft, summary, drafted, summed, dated, rfl, rfl⟩⟩

/-- How the steps of a stricter strategy lie among those of a laxer one, both
planned for the violations that the filters chose. -/
structure Nests (filtered : List Violation) (narrow wide : List Step) : Prop where
  /-- Without numbers and links the ones are a subsequence of the others. -/
  part : (narrow.map Step.bare).Sublist (wide.map Step.bare)
  /-- The others are a subsequence of what the violations make in their order. -/
  inOrder : (wide.map Step.bare).Sublist (filtered.filterMap Violation.bareStep?)
  /-- A link of the narrower plan leads to one step of it.  The two steps replace
  a class and define a token that the replacement names, and the step that is led
  to is in the wider plan as well. -/
  links : ∀ late ∈ narrow, ∀ id ∈ late.dependencyList, ∃ early ∈ narrow,
    (∀ other ∈ narrow, other.id = id ↔ other = early) ∧ late.RefersTo early ∧
      ∃ twin ∈ wide, twin.bare = early.bare

theorem IsDrafted.nests {narrow wide : List Step} (stricter : [strict, lax].Sublist Strategy.all)
    (fromStrict : IsDrafted filtered strict narrow) (fromLax : IsDrafted filtered lax wide)
    (apart : (narrow.map (·.id)).Nodup) : Nests filtered narrow wide := by
  have part : (narrow.map Step.bare).Sublist (wide.map Step.bare) := by
    rw [fromStrict.bare, fromLax.bare]
    exact gate_sublist stricter _
  refine ⟨part, ?_, ?_⟩
  · rw [fromLax.bare]
    exact List.filter_sublist
  · intro late member id linkedTo
    obtain ⟨early, among, named, refers⟩ := fromStrict.leads late member id linkedTo
    refine ⟨early, among, ?_, refers, ?_⟩
    · intro other there
      constructor
      · intro same
        exact List.inj_on_of_nodup_map apart there among (same.trans named.symm)
      · rintro rfl
        exact named
    · exact List.mem_map.mp (part.subset (List.mem_map_of_mem among))

/-- Of two strategies the stricter one plans a part of what the laxer one plans,
up to numbers and links.  It plans wherever the laxer one does, and the laxer one
wherever it does if the violations name their rules and files. -/
theorem stricter_plan_nests (stricter : [strict, lax].Sublist Strategy.all)
    (violations : List Violation) (filters : Filters) :
    (∀ session other narrow wide later ready,
        Proposal.buildPlan violations strict filters session = .ok narrow later →
        Proposal.buildPlan violations lax filters other = .ok wide ready →
        ∃ filtered, filterViolations filters violations = .ok filtered ∧
          Nests filtered narrow.steps wide.steps) ∧
      ∀ session,
        ((∃ wide ready, Proposal.buildPlan violations lax filters session = .ok wide ready) →
          ∃ narrow later, Proposal.buildPlan violations strict filters session = .ok narrow later) ∧
        ((∀ violation ∈ violations, (∃ rule, violation.ruleId = .text rule) ∧
            ∃ path, violation.filePath = .text path) →
          (∃ narrow later, Proposal.buildPlan violations strict filters session =
            .ok narrow later) →
          ∃ wide ready, Proposal.buildPlan violations lax filters session = .ok wide ready) := by
  refine ⟨?_, ?_⟩
  · intro session other narrow wide later ready builtNarrow builtWide
    obtain ⟨filtered, chosen, fromStrict⟩ := buildPlan_isDrafted builtNarrow
    obtain ⟨again, chosenAgain, fromLax⟩ := buildPlan_isDrafted builtWide
    cases chosen.symm.trans chosenAgain
    obtain ⟨draft, drafted, same⟩ := buildPlan_steps builtNarrow
    have apart : (narrow.steps.map (·.id)).Nodup := by
      rw [same]
      exact (draft_isLinked drafted).1.ids_nodup
    exact ⟨filtered, chosen, fromStrict.nests stricter fromLax apart⟩
  · intro session
    constructor
    · intro built
      obtain ⟨dated, filtered, steps, chosen, made, countable⟩ := exists_plan_iff.mp built
      apply exists_plan_iff.mpr
      refine ⟨dated, filtered, steps, chosen, made, ?_⟩
      intro step member
      exact countable step ((gate_sublist stricter steps).subset member)
    · intro named built
      obtain ⟨dated, filtered, steps, chosen, made, _⟩ := exists_plan_iff.mp built
      apply exists_plan_iff.mpr
      refine ⟨dated, filtered, steps, chosen, made, ?_⟩
      intro step member
      have among : step.bare ∈ filtered.filterMap Violation.bareStep? := by
        rw [← bare_stepsFrom made]
        exact List.mem_map_of_mem (List.mem_filter.mp member).1
      obtain ⟨violation, there, found⟩ := List.mem_filterMap.mp among
      obtain ⟨_, file, rule⟩ := made_of_bareStep? found
      obtain ⟨⟨ruleText, isRule⟩, path, isPath⟩ :=
        named violation ((filterViolations_subperm chosen).subset there)
      constructor
      · rw [show step.file = _ from file, isPath]
        rfl
      · rw [Step.ruleKey, show step.ruleId = _ from rule, isRule]
        exact ⟨_, rfl⟩

/-- The numbers and links of the plans that the strategies build for a reference
to a token, a definition of it, and a repeated pattern. -/
theorem strategies_stored :
    Strategy.all.map (fun strategy =>
        storedView [referral, colouring, repetition] strategy {} ⟨.root, ["p", "plan"]⟩ bareProject
          fun plan => plan.steps.map fun step => (step.id, step.dependencies)) =
      [some [(.text "step-001", none)],
        some [(.text "step-001", some [.text "step-002"]), (.text "step-002", none)],
        some [(.text "step-001", some [.text "step-002"]), (.text "step-002", none),
          (.text "step-003", none)]] := by
  decide +kernel

theorem stricter_plan_nests_strategies :
    ∃ narrow middle wide filtered,
      (∃ ready, Proposal.buildPlan [referral, colouring, repetition] .conservative {} bareProject =
        .ok narrow ready) ∧
      (∃ ready, Proposal.buildPlan [referral, colouring, repetition] .balanced {} bareProject =
        .ok middle ready) ∧
      (∃ ready, Proposal.buildPlan [referral, colouring, repetition] .aggressive {} bareProject =
        .ok wide ready) ∧
      narrow.steps.length = 1 ∧ middle.steps.length = 2 ∧ wide.steps.length = 3 ∧
      Nests filtered narrow.steps middle.steps ∧ Nests filtered middle.steps wide.steps := by
  have stored := strategies_stored
  simp only [Strategy.all, List.map_cons, List.map_nil, List.cons.injEq, and_true] at stored
  obtain ⟨storedNarrow, storedMiddle, storedWide⟩ := stored
  obtain ⟨narrow, narrowReady, _, builtNarrow, _, seenNarrow⟩ := storedView_eq_some storedNarrow
  obtain ⟨middle, middleReady, _, builtMiddle, _, seenMiddle⟩ := storedView_eq_some storedMiddle
  obtain ⟨wide, wideReady, _, builtWide, _, seenWide⟩ := storedView_eq_some storedWide
  have lower : [.conservative, .balanced].Sublist Strategy.all := by decide
  have upper : [.balanced, .aggressive].Sublist Strategy.all := by decide
  obtain ⟨filtered, chosen, nestsNarrow⟩ :=
    (stricter_plan_nests lower _ _).1 _ _ _ _ _ _ builtNarrow builtMiddle
  obtain ⟨again, chosenAgain, nestsMiddle⟩ :=
    (stricter_plan_nests upper _ _).1 _ _ _ _ _ _ builtMiddle builtWide
  cases chosen.symm.trans chosenAgain
  refine ⟨narrow, middle, wide, filtered, ⟨_, builtNarrow⟩, ⟨_, builtMiddle⟩, ⟨_, builtWide⟩,
    ?_, ?_, ?_, nestsNarrow, nestsMiddle⟩
  · simpa using congrArg List.length seenNarrow
  · simpa using congrArg List.length seenMiddle
  · simpa using congrArg List.length seenWide

end Restyle
