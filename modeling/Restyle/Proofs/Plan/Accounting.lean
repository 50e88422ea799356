import Mathlib.Algebra.BigOperators.Group.List.Lemmas
import Restyle.Proofs.Plan.Choosing
import Restyle.Proofs.Plan.Resolving

/-!
# Plans account for violations

The steps of a plan stand for the violations that the filters chose and the strategy
took up, one for each, in their order.  The summary counts them: by rule, by severity
and by file.  Every count is exact, and those of the rules and of the severities add
up to the number of steps.
-/

namespace Restyle

variable {violations : List Violation} {filters : Filters} {strategy : Strategy}
  {included excluded : Option (List String)} {limit : Option Int} {steps : List Step}
  {step : Step} {keys : List String} {key : String} {fields : List (String × Json)}
  {summary : PlanSummary} {violation : Violation} {session : Session}

/-- What a summary says of a number of violations and the steps that are planned
for them. -/
structure PlanSummary.Accounts (summary : PlanSummary) (violations : Nat) (steps : List Step) :
    Prop where
  total : summary.totalViolations = .integer violations
  addressable : summary.addressableViolations = .integer steps.length
  atMost : steps.length ≤ violations
  byRule : ∃ rules : List (String × Nat),
    summary.byRule = Table.ofFields (rules.map fun rule => (rule.1, .integer rule.2)) ∧
      (rules.map Prod.fst).Nodup ∧
        (∀ rule count, (rule, count) ∈ rules ↔
          0 < count ∧ count = steps.countP fun step => step.ruleKey = .ok rule) ∧
          (rules.map Prod.snd).sum = steps.length
  bySeverity : ∃ counts : Severity → Nat,
    summary.bySeverity =
        Table.ofFields (PlanSummary.severityRows fun severity => .integer (counts severity)) ∧
      (∀ severity, counts severity = steps.countP fun step => step.severity = severity) ∧
        (Severity.all.map counts).sum = steps.length
  files : ∃ files : List Json, files.Nodup ∧
    (∀ file, file ∈ files ↔ ∃ step ∈ steps, step.file = file) ∧
      summary.filesAffected = .integer files.length ∧ files.length ≤ steps.length

/-! ## Counting by name -/

theorem Json.lookup_setField (name other : String) (value : Json) (fields : List (String × Json)) :
    Json.lookup other (Json.setField name value fields) =
      if other = name then some value else Json.lookup other fields := by
  induction fields with
  | nil => simp [Json.setField, Json.lookup, eq_comm]
  | cons field fields induction =>
      obtain ⟨first, old⟩ := field
      rw [Json.setField]
      by_cases found : first = name
      · subst found
        rw [if_pos rfl, Json.lookup, Json.lookup]
        by_cases same : first = other
        · simp [same]
        · simp [same, Ne.symm same]
      · rw [if_neg found, Json.lookup, Json.lookup, induction]
        by_cases same : first = other
        · subst same
          simp [found]
        · simp [same]

theorem Json.lookup_iff_mem {name : String} {value : Json} (apart : (fields.map Prod.fst).Nodup) :
    Json.lookup name fields = some value ↔ (name, value) ∈ fields := by
  induction fields with
  | nil => simp [Json.lookup]
  | cons field fields induction =>
      obtain ⟨first, old⟩ := field
      rw [List.map_cons, List.nodup_cons] at apart
      rw [Json.lookup, List.mem_cons, Prod.mk.injEq]
      by_cases same : first = name
      · subst same
        have absent : (first, value) ∉ fields := fun member =>
          apart.1 (List.mem_map.mpr ⟨_, member, rfl⟩)
        simp [absent, eq_comm]
      · rw [if_neg same, induction apart.2]
        simp [Ne.symm same]

/-- The rows in which names were counted as they came. -/
structure Tally (keys : List String) (fields : List (String × Json)) : Prop where
  apart : (fields.map Prod.fst).Nodup
  count : ∀ key, Json.lookup key fields =
    if key ∈ keys then some (.integer (keys.count key)) else none

namespace Tally

theorem nil : Tally [] [] := ⟨List.nodup_nil, fun _ => rfl⟩

theorem countIn (tally : Tally keys fields) (key : String) :
    ∃ later, countIn (Table.ofFields fields) key = Table.ofFields later ∧
      Tally (keys ++ [key]) later := by
  have current : ((Json.lookup key fields).getD (.integer 0)).whole?.getD 0 = keys.count key := by
    rw [tally.count]
    split
    · rfl
    · rename_i fresh
      rw [List.count_eq_zero_of_not_mem fresh]
      rfl
  unfold Restyle.countIn
  rw [Table.get?_ofFields, Table.set_ofFields, current]
  refine ⟨_, rfl, ?_, fun other => ?_⟩
  · rw [Json.map_fst_setField]
    split
    · exact tally.apart
    · rename_i fresh
      exact tally.apart.append (List.nodup_singleton key) (by simpa using fresh)
  · rw [Json.lookup_setField, tally.count, List.count_append]
    by_cases same : other = key
    · simp [same]
    · simp [same, Ne.symm same]

theorem mem_iff (tally : Tally keys fields) {value : Json} :
    (key, value) ∈ fields ↔ key ∈ keys ∧ value = .integer (keys.count key) := by
  rw [← Json.lookup_iff_mem tally.apart, tally.count]
  split <;> rename_i listed <;> simp [listed, eq_comm]

/-- Each name has a row with its count, and the counts add up to the number of names. -/
theorem rows (tally : Tally keys fields) :
    ∃ rows : List (String × Nat), fields = rows.map (fun row => (row.1, .integer row.2)) ∧
      (rows.map Prod.fst).Nodup ∧
        (∀ key count, (key, count) ∈ rows ↔ 0 < count ∧ count = keys.count key) ∧
          (rows.map Prod.snd).sum = keys.length := by
  have listed : ∀ key, key ∈ fields.map Prod.fst ↔ key ∈ keys := by
    intro key
    constructor
    · intro member
      obtain ⟨⟨_, value⟩, among, rfl⟩ := List.mem_map.mp member
      exact (tally.mem_iff.mp among).1
    · exact fun member => List.mem_map.mpr ⟨_, tally.mem_iff.mpr ⟨member, rfl⟩, rfl⟩
  refine ⟨(fields.map Prod.fst).map fun key => (key, keys.count key), ?_, ?_, ?_, ?_⟩
  · rw [List.map_map, List.map_map]
    refine (List.map_id fields).symm.trans (List.map_congr_left fun field member => ?_)
    exact Prod.ext rfl (tally.mem_iff.mp member).2
  · rw [List.map_map]
    exact (List.map_id _).symm ▸ tally.apart
  · intro key count
    rw [List.mem_map]
    constructor
    · rintro ⟨name, member, same⟩
      cases same
      exact ⟨List.count_pos_iff.mpr ((listed _).mp member), rfl⟩
    · rintro ⟨positive, rfl⟩
      exact ⟨key, (listed _).mpr (List.count_pos_iff.mp positive), rfl⟩
  · have sameNames : (fields.map Prod.fst).Perm keys.dedup :=
      (List.perm_ext_iff_of_nodup tally.apart keys.nodup_dedup).mpr fun key => by
        rw [listed, List.mem_dedup]
    rw [List.map_map]
    exact ((sameNames.map _).sum_eq).trans (List.sum_map_count_dedup_eq_length keys)

end Tally

/-! ## Counting steps -/

theorem countIn_severity (severity : Severity) (counts : Severity → Nat) :
    countIn (Table.ofFields (PlanSummary.severityRows fun other => .integer (counts other)))
        severity.name =
      Table.ofFields (PlanSummary.severityRows fun other =>
        .integer ((counts other + if severity = other then 1 else 0 : Nat))) := by
  cases severity <;> rfl

theorem severity_counts_sum (steps : List Step) :
    (Severity.all.map fun severity => steps.countP fun step => step.severity = severity).sum =
      steps.length := by
  induction steps with
  | nil => rfl
  | cons step steps induction =>
      rw [List.length_cons, ← induction]
      simp only [Severity.all, List.map_cons, List.map_nil, List.sum_cons, List.sum_nil,
        List.countP_cons]
      cases step.severity <;> simp <;> omega

/-- What is counted of steps. -/
structure PlanSummary.Counted (summary : PlanSummary) (steps : List Step) : Prop where
  byRule : ∃ keys fields, steps.map Step.ruleKey = keys.map .ok ∧
    summary.byRule = Table.ofFields fields ∧ Tally keys fields
  bySeverity : summary.bySeverity = Table.ofFields (PlanSummary.severityRows fun severity =>
    .integer (steps.countP fun step => step.severity = severity))

theorem PlanSummary.Counted.after_step {next : PlanSummary} (counted : summary.Counted steps)
    (made : countStep summary step = .ok next) :
    next.Counted (steps ++ [step]) ∧ next.totalViolations = summary.totalViolations ∧
      next.addressableViolations = summary.addressableViolations ∧
        next.filesAffected = summary.filesAffected := by
  obtain ⟨⟨keys, fields, named, rules, tally⟩, severities⟩ := counted
  obtain ⟨key, found, made⟩ := bind_eq_ok_iff.mp made
  cases made
  refine ⟨⟨?_, ?_⟩, rfl, rfl, rfl⟩
  · obtain ⟨later, same, tally⟩ := tally.countIn key
    refine ⟨keys ++ [key], later, ?_, ?_, tally⟩
    · rw [List.map_append, List.map_append, named, List.map_singleton, List.map_singleton, found]
    · show countIn summary.byRule key = _
      rw [rules, same]
  · show countIn summary.bySeverity step.severity.name = _
    rw [severities, countIn_severity]
    simp only [List.countP_append, List.countP_singleton, decide_eq_true_eq]

theorem PlanSummary.Counted.after_steps {seen : List Step} {last : PlanSummary}
    (counted : summary.Counted seen) (made : steps.foldlM countStep summary = .ok last) :
    last.Counted (seen ++ steps) ∧ last.totalViolations = summary.totalViolations ∧
      last.addressableViolations = summary.addressableViolations ∧
        last.filesAffected = summary.filesAffected := by
  induction steps generalizing seen summary with
  | nil =>
      cases made
      rw [List.append_nil]
      exact ⟨counted, rfl, rfl, rfl⟩
  | cons step steps induction =>
      rw [List.foldlM_cons] at made
      obtain ⟨next, first, rest⟩ := bind_eq_ok_iff.mp made
      obtain ⟨countedNext, total, addressable, files⟩ := counted.after_step first
      obtain ⟨countedLast, totalLast, addressableLast, filesLast⟩ := induction countedNext rest
      rw [List.append_assoc] at countedLast
      exact ⟨countedLast, totalLast.trans total, addressableLast.trans addressable,
        filesLast.trans files⟩

/-! ## Files -/

theorem distinct_texts {values : List Json} (texts : ∀ value ∈ values, ∃ text, value = .text text) :
    (Json.distinct values).Nodup ∧ ∀ value, value ∈ Json.distinct values ↔ value ∈ values := by
  induction values with
  | nil => exact ⟨List.nodup_nil, fun _ => Iff.rfl⟩
  | cons value values induction =>
      obtain ⟨⟨text, isText⟩, others⟩ := List.forall_mem_cons.mp texts
      obtain ⟨apart, same⟩ := induction others
      have among : value.isAmong (Json.distinct values) = true ↔ value ∈ values := by
        rw [← same, Json.isAmong, List.any_eq_true]
        constructor
        · rintro ⟨other, member, alike⟩
          rw [isText] at alike
          rw [isText, ← Json.eq_text_of_text_same alike]
          exact member
        · exact fun member => ⟨value, member, by rw [isText]; exact Json.same_self rfl⟩
      simp only [Json.distinct]
      split <;> rename_i listed
      · refine ⟨apart, fun other => ?_⟩
        rw [same, List.mem_cons, or_iff_right_of_imp]
        rintro rfl
        exact among.mp listed
      · refine ⟨List.nodup_cons.mpr ⟨fun member => listed (among.mpr ((same _).mp member)), apart⟩,
          fun other => ?_⟩
        rw [List.mem_cons, List.mem_cons, same]

/-! ## Summaries -/

theorem summarize_accounts {count : Nat} (atMost : steps.length ≤ count)
    (files : ∀ step ∈ steps, ∃ text, step.file = .text text)
    (made : summarize (.integer count) steps = .ok summary) : summary.Accounts count steps := by
  have isKey : ∀ step ∈ steps, step.file.isKey = true := by
    intro step member
    obtain ⟨text, isText⟩ := files step member
    rw [isText]
    rfl
  have keyed := mapM_of_answers fun step member => asKey_eq_ok.mpr ⟨isKey step member, rfl⟩
  obtain ⟨_, found, made⟩ := bind_eq_ok_iff.mp made
  obtain rfl := Except.ok.inj (found.symm.trans keyed)
  have start : ∀ total addressable affected, PlanSummary.Counted
      { totalViolations := total, addressableViolations := addressable
        filesAffected := affected } [] :=
    fun _ _ _ => ⟨⟨[], [], rfl, rfl, .nil⟩, rfl⟩
  obtain ⟨counted, total, addressable, affected⟩ := (start _ _ _).after_steps made
  obtain ⟨⟨keys, fields, named, rules, tally⟩, severities⟩ := counted
  rw [List.nil_append] at named severities
  have countRule : ∀ rule, keys.count rule = steps.countP fun step => step.ruleKey = .ok rule := by
    intro rule
    have injected : Function.Injective (Except.ok : String → Except Fault String) :=
      fun _ _ => Except.ok.inj
    rw [← List.count_map_of_injective keys _ injected, ← named, List.count, List.countP_map]
    rfl
  obtain ⟨rows, isRows, apart, counts, sum⟩ := tally.rows
  have sameLength : keys.length = steps.length := by
    simpa using (congrArg List.length named).symm
  have texts : ∀ file ∈ steps.map (·.file), ∃ text, file = .text text := by
    rw [List.forall_mem_map]
    exact files
  obtain ⟨apartFiles, sameFiles⟩ := distinct_texts texts
  refine ⟨total, addressable, atMost, ⟨rows, ?_, apart, ?_, sum.trans sameLength⟩,
    ⟨_, severities, fun _ => rfl, severity_counts_sum steps⟩, ⟨_, apartFiles, ?_, affected, ?_⟩⟩
  · rw [rules, isRows]
  · simpa only [countRule] using counts
  · simpa only [List.mem_map] using sameFiles
  · simpa using length_distinct_le (steps.map (·.file))

/-! ## Plans -/

/-- For violations of texts the filters choose violations, and a plan is built unless
one of these has a length beyond the finite numbers.  The steps of a plan stand for
the chosen violations that the strategy takes up, one for each in their order, and
its summary accounts for them. -/
theorem plan_accounts (textual : ∀ violation ∈ violations, violation.IsTextual)
    (say : filters.Say included excluded limit) (dated : hasDate session.now = true) :
    ∃ filtered, filterViolations filters violations = .ok filtered ∧
      ((∃ plan ready, Proposal.buildPlan violations strategy filters session = .ok plan ready) ↔
        ∀ violation ∈ filtered, violation.IsScalable) ∧
      ∀ plan ready, Proposal.buildPlan violations strategy filters session = .ok plan ready →
        List.Forall₂ (fun violation step => violation.bareStep? = some step.bare)
            (filtered.filter strategy.takes) plan.steps ∧
          plan.summary.Accounts violations.length plan.steps := by
  have keys : ∀ violation ∈ violations,
      violation.ruleKey.isKey = true ∧ violation.filePath.isKey = true := by
    intro violation member
    obtain ⟨_, ⟨_, key⟩, ⟨_, file⟩, _, _⟩ := textual violation member
    rw [key, file]
    exact ⟨rfl, rfl⟩
  obtain ⟨filtered, chosen⟩ := exists_filterViolations say keys
  have fewer := filterViolations_subperm chosen
  have textualChosen : ∀ violation ∈ filtered, violation.IsTextual := fun violation member =>
    textual violation (fewer.subset member)
  refine ⟨filtered, chosen, ?_, fun plan ready built => ?_⟩
  · rw [exists_plan_iff, ← stepsFrom_iff_isScalable 0 textualChosen]
    constructor
    · rintro ⟨_, again, steps, chosenAgain, made, _⟩
      cases chosen.symm.trans chosenAgain
      exact ⟨steps, made⟩
    · rintro ⟨steps, made⟩
      refine ⟨dated, filtered, steps, chosen, made, fun step member => ?_⟩
      have among : step.bare ∈ filtered.filterMap Violation.bareStep? := by
        rw [← bare_stepsFrom made]
        exact List.mem_map_of_mem (List.mem_of_mem_filter member)
      obtain ⟨violation, there, resolved⟩ := List.mem_filterMap.mp among
      exact ((textualChosen violation there).countable resolved).2
  · obtain ⟨draft, summary, drafted, summed, _, rfl, _⟩ := buildPlan_eq_ok.mp built
    obtain ⟨_, resolved, chosenAgain, made⟩ := stepsFrom_of_draft drafted
    cases chosen.symm.trans chosenAgain
    obtain ⟨_, again, count, form⟩ := draft_of_stepsFrom strategy chosen made
    cases drafted.symm.trans again
    have stands := forall₂_gate strategy filtered
    rw [← form.bare, List.forall₂_map_right_iff] at stands
    have atMost : draft.steps.length ≤ violations.length := by
      rw [← stands.length_eq]
      exact (List.length_filter_le _ _).trans fewer.length_le
    have files : ∀ step ∈ draft.steps, ∃ text, step.file = .text text := by
      intro step member
      have among : step.bare ∈ gate strategy (filtered.filterMap Violation.bareStep?) := by
        rw [← form.bare]
        exact List.mem_map_of_mem member
      obtain ⟨violation, there, found⟩ := List.mem_filterMap.mp (List.mem_of_mem_filter among)
      exact ((textualChosen violation there).countable found).1
    rw [PlanDraft.summary, count] at summed
    exact ⟨stands, summarize_accounts atMost files summed⟩

theorem isTextual_of_texts {ruleId ruleKey filePath className : String}
    (texts : violation.ruleId = .text ruleId ∧ violation.ruleKey = .text ruleKey ∧
      violation.filePath = .text filePath ∧ violation.className = .text className ∧
        violation.note = .null) : violation.IsTextual := by
  obtain ⟨hasId, hasKey, hasFile, hasClass, hasNote⟩ := texts
  exact ⟨⟨_, hasId⟩, ⟨_, hasKey⟩, ⟨_, hasFile⟩, Or.inr ⟨_, hasClass⟩, Or.inl hasNote⟩

/-- Of three violations two are taken up, and the summary says so. -/
theorem plan_accounts_repetition :
    ∃ plan ready, Proposal.buildPlan [referral, colouring, repetition] .balanced {} bareProject =
        .ok plan ready ∧ plan.steps.length = 2 ∧
      plan.summary.Accounts 3 plan.steps := by
  have textual : ∀ violation ∈ [referral, colouring, repetition], violation.IsTextual := by
    intro violation member
    rcases member with _ | ⟨_, _ | ⟨_, _ | ⟨_, ⟨⟩⟩⟩⟩ <;>
      exact isTextual_of_texts ⟨rfl, rfl, rfl, rfl, rfl⟩
  have stored := strategies_stored
  simp only [Strategy.all, List.map_cons, List.map_nil, List.cons.injEq, and_true] at stored
  obtain ⟨plan, ready, _, built, _, seen⟩ := storedView_eq_some stored.2.1
  obtain ⟨filtered, _, _, accounts⟩ := plan_accounts textual
    (Filters.ofNames_say none none none) (show hasDate bareProject.now = true by decide)
  refine ⟨plan, ready, built, ?_, (accounts plan ready built).2⟩
  simpa using congrArg List.length seen

/-- For a length beyond the finite numbers no plan is built, though the strategy
would not take up the violation. -/
theorem vast_length_unplanned :
    vastLength.IsTextual ∧ Strategy.balanced.covers vastLength.severity = false ∧
      ∀ session, Proposal.buildPlan [vastLength] .balanced {} session =
        .error (.value .infiniteInteger) session :=
  ⟨isTextual_of_texts ⟨rfl, rfl, rfl, rfl, rfl⟩, rfl, fun session =>
    buildPlan_of_unresolved .balanced session ofViolation_vastLength⟩

end Restyle
