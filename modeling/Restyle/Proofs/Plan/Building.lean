import Restyle.Proofs.Plan.Documents
import Restyle.Proposal

/-!
# Plans that are built are found again

Building a plan takes violations through filters, resolutions, the strategy and
the links between steps.  At every stage the values of the steps are clean, as long
as those of the violations are and no integer is too long, and so a plan that was
built and stored is loaded as it was.
-/

namespace Restyle

variable {violations filtered : List Violation} {violation : Violation} {filters : Filters}
  {steps : List Step} {step : Step} {most : Nat}

namespace Violation

/-- Whether what a step takes from a violation can be read back and told from its
bytes.  Texts without lone surrogates always can. -/
structure IsClean (violation : Violation) : Prop where
  ruleId : violation.ruleId.IsClean
  filePath : violation.filePath.IsClean
  className : violation.className.IsClean
  line : HasFewDigits violation.line
  column : HasFewDigits violation.column

theorem IsClean.matched (clean : violation.IsClean) : violation.matched.IsClean :=
  (clean.className.orElse (Json.isClean_text "")).settled

end Violation

/-! ## Filters -/

theorem selectRules_sublist {keepMembers : Bool} {rules : List RuleItem}
    (kept : selectRules keepMembers rules violations = .ok filtered) :
    filtered.Sublist violations := by
  unfold selectRules at kept
  split at kept
  · cases kept
    exact List.Sublist.refl _
  · rw [(filterM_eq_ok.mp kept).2]
    exact List.filter_sublist

theorem addToGroup_perm (violation : Violation) (groups : List (Json × List Violation)) :
    ((addToGroup violation groups).flatMap Prod.snd).Perm
      (violation :: groups.flatMap Prod.snd) := by
  induction groups with
  | nil => exact List.Perm.refl _
  | cons group groups induction =>
      rw [addToGroup]
      split
      · simp only [List.flatMap_cons, List.append_assoc, List.singleton_append]
        exact List.perm_middle
      · simp only [List.flatMap_cons]
        exact (induction.append_left group.2).trans List.perm_middle

theorem groupByFile_perm (violations : List Violation) :
    ((groupByFile violations).flatMap Prod.snd).Perm violations := by
  have grows : ∀ groups : List (Json × List Violation),
      ((violations.foldl (fun groups violation => addToGroup violation groups) groups).flatMap
        Prod.snd).Perm (groups.flatMap Prod.snd ++ violations) := by
    induction violations with
    | nil => simp
    | cons violation violations induction =>
        intro groups
        refine (induction _).trans ?_
        exact ((addToGroup_perm violation groups).append_right violations).trans
          List.perm_middle.symm
  exact grows []

theorem capPerFile_subperm (most : Nat) (violations : List Violation) :
    (capPerFile most violations).Subperm violations := by
  have parts : ∀ groups : List (Json × List Violation),
      (groups.flatMap fun group => (bySeverity group.2).take most).Subperm
        (groups.flatMap Prod.snd) := by
    intro groups
    induction groups with
    | nil => exact List.Subperm.refl _
    | cons group groups induction =>
        have ordered : (bySeverity group.2).Perm group.2 := List.mergeSort_perm _ _
        exact ((List.take_sublist most _).subperm.trans ordered.subperm).append induction
  exact (parts _).trans (groupByFile_perm violations).subperm

theorem filterViolations_subperm (kept : filterViolations filters violations = .ok filtered) :
    filtered.Subperm violations := by
  unfold filterViolations at kept
  obtain ⟨_, _, kept⟩ := bind_eq_ok_iff.mp kept
  obtain ⟨included, first, kept⟩ := bind_eq_ok_iff.mp kept
  obtain ⟨_, _, kept⟩ := bind_eq_ok_iff.mp kept
  obtain ⟨left, second, kept⟩ := bind_eq_ok_iff.mp kept
  obtain ⟨limit, _, kept⟩ := bind_eq_ok_iff.mp kept
  have chosen : left.Subperm violations :=
    ((selectRules_sublist second).trans (selectRules_sublist first)).subperm
  cases limit with
  | none =>
      cases kept
      exact chosen
  | some most =>
      obtain ⟨_, _, kept⟩ := bind_eq_ok_iff.mp kept
      cases kept
      exact (capPerFile_subperm most left).trans chosen

/-! ## Resolutions -/

namespace Resolution

variable {resolution : Resolution}

theorem mapText_eq_ok {transform : List Char → List Char} {value result : Json}
    (mapped : mapText transform value = .ok result) : ∃ text, result = .text text := by
  obtain ⟨_, _, made⟩ := bind_eq_ok_iff.mp mapped
  cases made
  exact ⟨_, rfl⟩

theorem isClean_noteValue {note value : Json} (found : noteValue note = .ok value) :
    value.IsClean := by
  unfold noteValue at found
  split at found
  · obtain ⟨_, _, found⟩ := bind_eq_ok_iff.mp found
    split at found
    · cases found
      exact Json.isClean_text _
    · cases found
      exact Json.isClean_null
  · cases found
    exact Json.isClean_null

theorem isClean_fix {rule : FixableRule} {action : FixAction} (clean : violation.IsClean)
    (made : fix violation rule = .ok action) : action.Has Json.IsClean := by
  cases rule with
  | inlineColour =>
      obtain ⟨value, noted, made⟩ := bind_eq_ok_iff.mp made
      obtain ⟨name, named, made⟩ := bind_eq_ok_iff.mp made
      obtain ⟨text, rfl⟩ := mapText_eq_ok named
      cases made
      exact ⟨(isClean_noteValue noted).orElse clean.matched, Json.isClean_text text⟩
  | arbitraryValues =>
      obtain ⟨_, _, made⟩ := bind_eq_ok_iff.mp made
      obtain ⟨_, _, made⟩ := bind_eq_ok_iff.mp made
      cases made
      exact ⟨clean.matched, Json.isClean_text _⟩
  | repeatedClasses =>
      obtain ⟨_, _, made⟩ := bind_eq_ok_iff.mp made
      cases made
      exact ⟨clean.matched, Json.isClean_text _⟩
  | _ =>
      obtain ⟨_, named, made⟩ := bind_eq_ok_iff.mp made
      obtain ⟨text, rfl⟩ := mapText_eq_ok named
      cases made
      exact ⟨clean.matched, Json.isClean_text text⟩

theorem canonical_roundTo (places : Nat) (value : Binary64) :
    (value.roundTo places).Canonical := by
  cases value with
  | finite negative mantissa exponent => exact Binary64.canonical_ofDecimal _ _ _
  | _ => trivial

theorem canonical_confidenceIn {action : FixAction} {confidence : Binary64}
    (found : confidenceIn violation action = .ok confidence) : confidence.Canonical := by
  obtain ⟨_, _, found⟩ := bind_eq_ok_iff.mp found
  obtain ⟨_, _, found⟩ := bind_eq_ok_iff.mp found
  obtain ⟨_, _, found⟩ := bind_eq_ok_iff.mp found
  cases found
  exact canonical_roundTo 4 _

theorem isClean_ofViolation (clean : violation.IsClean)
    (found : ofViolation violation = .ok (some resolution)) :
    resolution.action.Has Json.IsClean ∧ resolution.confidence.Canonical := by
  unfold ofViolation at found
  obtain ⟨key, _, found⟩ := bind_eq_ok_iff.mp found
  split at found
  · cases found
  · obtain ⟨action, made, found⟩ := bind_eq_ok_iff.mp found
    split at found
    · obtain ⟨confidence, sure, found⟩ := bind_eq_ok_iff.mp found
      cases found
      exact ⟨isClean_fix clean made, canonical_confidenceIn sure⟩
    · cases found

end Resolution

theorem isClean_preview {action : FixAction} {preview : Preview} (clean : violation.IsClean)
    (actionClean : action.Has Json.IsClean) (shown : Preview.ofAction violation action = .ok preview) :
    preview.before.IsClean ∧ preview.after.IsClean := by
  cases action with
  | replace source replacement =>
      cases shown
      exact ⟨clean.matched, actionClean.2⟩
  | extract pattern utility =>
      cases shown
      exact actionClean
  | tokenize value token =>
      obtain ⟨_, _, shown⟩ := bind_eq_ok_iff.mp shown
      cases shown
      exact ⟨clean.matched, Json.isClean_text _⟩
  | remove className =>
      cases shown
      exact ⟨actionClean, Json.isClean_text _⟩

/-! ## Steps -/

theorem isClean_stepFor {id : String} {resolution : Resolution} (clean : violation.IsClean)
    (found : Resolution.ofViolation violation = .ok (some resolution))
    (made : stepFor id violation resolution = .ok step) : step.IsClean := by
  obtain ⟨action, confidence⟩ := Resolution.isClean_ofViolation clean found
  obtain ⟨preview, shown, made⟩ := bind_eq_ok_iff.mp made
  obtain ⟨before, after⟩ := isClean_preview clean action shown
  cases made
  exact {
    id := Json.isClean_text id
    file := clean.filePath
    line := clean.line
    column := clean.column
    ruleId := clean.ruleId
    action
    confidence
    before
    after
    dependencies := nofun }

theorem stepsFrom_clean {next : Nat} (clean : ∀ violation ∈ violations, violation.IsClean)
    (made : stepsFrom next violations = .ok steps) :
    (∀ step ∈ steps, step.IsClean) ∧ steps.length ≤ violations.length := by
  induction violations generalizing next steps with
  | nil =>
      cases made
      exact ⟨nofun, Nat.le_refl _⟩
  | cons violation violations induction =>
      obtain ⟨first, later⟩ := List.forall_mem_cons.mp clean
      rw [stepsFrom] at made
      obtain ⟨resolution, found, made⟩ := bind_eq_ok_iff.mp made
      cases resolution with
      | none =>
          obtain ⟨each, count⟩ := induction later made
          exact ⟨each, Nat.le_succ_of_le count⟩
      | some resolution =>
          obtain ⟨step, built, made⟩ := bind_eq_ok_iff.mp made
          obtain ⟨rest, further, made⟩ := bind_eq_ok_iff.mp made
          cases made
          obtain ⟨each, count⟩ := induction later further
          exact ⟨List.forall_mem_cons.mpr ⟨isClean_stepFor first found built, each⟩,
            Nat.succ_le_succ count⟩

theorem renumberFrom_clean (next : Nat) (clean : ∀ step ∈ steps, step.IsClean) :
    ∀ step ∈ renumberFrom next steps, step.IsClean := by
  induction steps generalizing next with
  | nil => nofun
  | cons step steps induction =>
      obtain ⟨first, later⟩ := List.forall_mem_cons.mp clean
      refine List.forall_mem_cons.mpr ⟨?_, induction (next + 1) later⟩
      exact { first with id := Json.isClean_text _, dependencies := nofun }

theorem length_renumberFrom (next : Nat) (steps : List Step) :
    (renumberFrom next steps).length = steps.length := by
  induction steps generalizing next with
  | nil => rfl
  | cons step steps induction => exact congrArg Nat.succ (induction (next + 1))

theorem tokenTable_clean {table tokens : Table} (clean : ∀ step ∈ steps, step.IsClean)
    (known : ∀ row ∈ table, row.2.IsClean) (made : tokenTable table steps = .ok tokens) :
    ∀ row ∈ tokens, row.2.IsClean := by
  induction steps generalizing table with
  | nil =>
      cases made
      exact known
  | cons step steps induction =>
      obtain ⟨first, later⟩ := List.forall_mem_cons.mp clean
      rw [tokenTable] at made
      split at made
      · obtain ⟨key, _, made⟩ := bind_eq_ok_iff.mp made
        refine induction later (fun row member => ?_) made
        rcases Table.mem_set member with here | old
        · rw [here]
          exact first.id
        · exact known row old
      · exact induction later known made

theorem linkStep_clean {tokens : Table} {linked : Step} (clean : step.IsClean)
    (known : ∀ row ∈ tokens, row.2.IsClean) (made : linkStep tokens step = .ok linked) :
    linked.IsClean := by
  unfold linkStep at made
  split at made
  · obtain ⟨defining, found, made⟩ := bind_eq_ok_iff.mp made
    split at made
    · cases made
      exact clean
    · rename_i some
      cases made
      refine { clean with dependencies := fun list given => ?_ }
      cases given
      refine ⟨fun none => some (by simpa using none), fun value member => ?_⟩
      obtain ⟨row, among, rfl⟩ := List.mem_map.mp member
      rw [(filterM_eq_ok.mp found).2] at among
      exact known row (List.mem_filter.mp among).1
  · cases made
    exact clean

theorem link_clean {linked : List Step} (clean : ∀ step ∈ steps, step.IsClean)
    (made : link steps = .ok linked) :
    (∀ step ∈ linked, step.IsClean) ∧ linked.length = steps.length := by
  obtain ⟨tokens, found, mapped⟩ := bind_eq_ok_iff.mp made
  have known := tokenTable_clean clean (by nofun) found
  constructor
  · intro step member
    obtain ⟨old, among, from_⟩ := (mem_of_mapM mapped).2 step member
    exact linkStep_clean (clean old among) known from_
  · exact (mapM_eq_ok.mp mapped).length_eq.symm

/-- The steps of a draft are clean, and are no more than the violations. -/
theorem draft_clean {strategy : Strategy} {draft : PlanDraft}
    (clean : ∀ violation ∈ violations, violation.IsClean)
    (made : Plan.draft violations strategy filters = .ok draft) :
    (∀ step ∈ draft.steps, step.IsClean) ∧ draft.steps.length ≤ violations.length ∧
      draft.counts.violations = violations.length := by
  obtain ⟨filtered, kept, made⟩ := bind_eq_ok_iff.mp made
  obtain ⟨resolved, found, made⟩ := bind_eq_ok_iff.mp made
  obtain ⟨linked, linking, made⟩ := bind_eq_ok_iff.mp made
  cases made
  have chosen := filterViolations_subperm kept
  obtain ⟨each, count⟩ := stepsFrom_clean (fun violation member => clean violation (chosen.subset member))
    found
  have gated : ∀ step ∈ gate strategy resolved, step.IsClean :=
    fun step member => each step (List.mem_filter.mp member).1
  obtain ⟨cleanLinked, same⟩ := link_clean (renumberFrom_clean 0 gated) linking
  refine ⟨cleanLinked, ?_, rfl⟩
  calc linked.length = (renumber (gate strategy resolved)).length := same
    _ = (gate strategy resolved).length := length_renumberFrom 0 _
    _ ≤ resolved.length := List.length_filter_le _ _
    _ ≤ filtered.length := count
    _ ≤ violations.length := chosen.length_le

/-! ## Summaries -/

/-- Whether values are counts of at most so many. -/
def IsCount (most : Nat) (value : Json) : Prop := ∃ count ≤ most, value = .integer (count : Nat)

theorem IsCount.mono {value : Json} {more : Nat} (counted : IsCount most value)
    (below : most ≤ more) : IsCount more value := by
  obtain ⟨count, bound, rfl⟩ := counted
  exact ⟨count, Nat.le_trans bound below, rfl⟩

theorem IsCount.isClean {value : Json} (counted : IsCount most value) (few : HasFewDigits most) :
    value.IsClean := by
  obtain ⟨count, bound, rfl⟩ := counted
  exact (few.of_le bound).isClean

theorem isCount_next {value : Option Json} (counted : ∀ found, value = some found → IsCount most found) :
    IsCount (most + 1) (.integer ((value.getD (.integer 0)).whole?.getD 0 + 1)) := by
  cases value with
  | none => exact ⟨1, Nat.le_add_left 1 most, rfl⟩
  | some found =>
      obtain ⟨count, bound, rfl⟩ := counted found rfl
      exact ⟨count + 1, Nat.succ_le_succ bound, rfl⟩

/-- What holds of a summary after so many steps have been counted. -/
structure Counts (most : Nat) (summary : PlanSummary) : Prop where
  byRule : ∃ fields, summary.byRule = Table.ofFields fields ∧ (fields.map Prod.fst).Nodup ∧
    ∀ field ∈ fields, IsCount most field.2
  bySeverity : ∃ counts, summary.bySeverity = Table.ofFields (PlanSummary.severityRows counts) ∧
    ∀ severity, IsCount most (counts severity)

theorem countIn_rules {fields : List (String × Json)} (rule : String)
    (apart : (fields.map Prod.fst).Nodup) (counted : ∀ field ∈ fields, IsCount most field.2) :
    ∃ later, countIn (Table.ofFields fields) rule = Table.ofFields later ∧
      (later.map Prod.fst).Nodup ∧ ∀ field ∈ later, IsCount (most + 1) field.2 := by
  unfold countIn
  rw [Table.get?_ofFields, Table.set_ofFields]
  refine ⟨_, rfl, ?_, fun field member => ?_⟩
  · rw [Json.map_fst_setField]
    split
    · exact apart
    · rename_i fresh
      exact List.nodup_append.mpr ⟨apart, by simp, by
        rintro first member second single rfl
        exact fresh (List.mem_singleton.mp single ▸ member)⟩
  · rcases Json.mem_setField member with new | old
    · rw [new]
      refine isCount_next fun found known => ?_
      obtain ⟨field, among, rfl⟩ := Json.mem_of_lookup known
      exact counted field among
    · exact (counted field old).mono (Nat.le_succ most)

theorem countIn_severities {counts : Severity → Json} (severity : Severity)
    (counted : ∀ severity, IsCount most (counts severity)) :
    ∃ later, countIn (Table.ofFields (PlanSummary.severityRows counts)) severity.name =
        Table.ofFields (PlanSummary.severityRows later) ∧
      ∀ severity, IsCount (most + 1) (later severity) := by
  have found : Json.lookup severity.name (PlanSummary.severityRows counts) =
      some (counts severity) := by
    cases severity <;> rfl
  have replaced : ∀ value, Json.setField severity.name value (PlanSummary.severityRows counts) =
      PlanSummary.severityRows (Function.update counts severity value) := by
    intro value
    cases severity <;> rfl
  unfold countIn
  rw [Table.get?_ofFields, Table.set_ofFields, found, replaced]
  refine ⟨_, rfl, fun other => ?_⟩
  by_cases here : other = severity
  · subst here
    rw [Function.update_self]
    exact isCount_next fun value known => Option.some.inj known ▸ counted other
  · rw [Function.update_of_ne here]
    exact (counted other).mono (Nat.le_succ most)

theorem Counts.after_step {summary next : PlanSummary} (counts : Counts most summary)
    (counted : countStep summary step = .ok next) :
    Counts (most + 1) next ∧ next.totalViolations = summary.totalViolations ∧
      next.addressableViolations = summary.addressableViolations ∧
        next.filesAffected = summary.filesAffected := by
  obtain ⟨fields, rules, apart, each⟩ := counts.byRule
  obtain ⟨before, severities, all⟩ := counts.bySeverity
  obtain ⟨rule, _, counted⟩ := bind_eq_ok_iff.mp counted
  cases counted
  refine ⟨⟨?_, ?_⟩, rfl, rfl, rfl⟩
  · show ∃ fields, countIn summary.byRule rule = _ ∧ _
    rw [rules]
    exact countIn_rules rule apart each
  · show ∃ counts, countIn summary.bySeverity step.severity.name = _ ∧ _
    rw [severities]
    exact countIn_severities step.severity all

theorem Counts.after_steps {summary last : PlanSummary} (counts : Counts most summary)
    (counted : steps.foldlM countStep summary = .ok last) :
    Counts (most + steps.length) last ∧ last.totalViolations = summary.totalViolations ∧
      last.addressableViolations = summary.addressableViolations ∧
        last.filesAffected = summary.filesAffected := by
  induction steps generalizing summary most with
  | nil =>
      cases counted
      exact ⟨counts, rfl, rfl, rfl⟩
  | cons step steps induction =>
      rw [List.foldlM_cons] at counted
      obtain ⟨next, first, rest⟩ := bind_eq_ok_iff.mp counted
      obtain ⟨countsNext, total, addressable, files⟩ := counts.after_step first
      obtain ⟨countsLast, totalLast, addressableLast, filesLast⟩ := induction countsNext rest
      rw [Nat.add_right_comm, Nat.add_assoc] at countsLast
      exact ⟨countsLast, totalLast.trans total, addressableLast.trans addressable,
        filesLast.trans files⟩

theorem length_distinct_le (values : List Json) : (Json.distinct values).length ≤ values.length := by
  induction values with
  | nil => exact Nat.le_refl _
  | cons value values induction =>
      simp only [Json.distinct]
      split
      · exact Nat.le_succ_of_le induction
      · exact Nat.succ_le_succ induction

/-- Rows that count are clean, under the names that spell their rules. -/
theorem isClean_ruleRows {fields : List (String × Json)} (apart : (fields.map Prod.fst).Nodup)
    (clean : ∀ field ∈ fields, field.2.IsClean) :
    Json.IsClean (.object
      (fields.map fun field => (Json.nameOf (Text.codes field.1.toList), field.2))) := by
  have spells : Function.Injective fun rule : String => Json.nameOf (Text.codes rule.toList) := by
    intro rule other equal
    have characters := congrArg Text.characters? (Json.nameOf_injective equal)
    rw [Text.characters?_codes, Text.characters?_codes, Option.some.injEq] at characters
    exact String.toList_injective characters
  have distinct := apart.map spells
  rw [List.map_map] at distinct
  constructor
  · rw [Json.IsTidy, Json.haveTidyValues_iff, List.map_map, List.forall_mem_map]
    refine ⟨⟨distinct, ?_⟩, fun field member => (clean field member).tidy⟩
    rw [List.forall_mem_map]
    exact fun field _ => ⟨_, Text.isApart_codes _, rfl⟩
  · rw [Json.IsLegible, Json.haveLegible_iff, List.forall_mem_map]
    exact fun field member => ⟨Json.isPlainName_nameOf _, (clean field member).legible⟩

/-- The summary of no more steps than violations is clean, if the number of the
violations can be written. -/
theorem summarize_clean {count : Nat} {summary : PlanSummary} (few : HasFewDigits count)
    (below : steps.length ≤ count) (made : summarize (.integer count) steps = .ok summary) :
    summary.IsClean := by
  obtain ⟨files, keys, counted⟩ := bind_eq_ok_iff.mp made
  have start : ∀ total addressable affected, Counts 0
      { totalViolations := total, addressableViolations := addressable
        filesAffected := affected } := by
    intro total addressable affected
    exact ⟨⟨[], rfl, List.nodup_nil, nofun⟩,
      ⟨fun _ => .integer 0, rfl, fun _ => ⟨0, Nat.le_refl 0, rfl⟩⟩⟩
  obtain ⟨counts, total, addressable, affected⟩ := (start _ _ _).after_steps counted
  rw [Nat.zero_add] at counts
  have fewSteps := few.of_le below
  obtain ⟨fields, rules, apart, each⟩ := counts.byRule
  obtain ⟨numbers, severities, all⟩ := counts.bySeverity
  have fewFiles : (Json.distinct files).length ≤ steps.length := by
    rw [(mapM_eq_ok.mp keys).length_eq]
    exact length_distinct_le files
  rw [Table.ofFields_eq_ofNames] at rules
  exact {
    totalViolations := total ▸ few.isClean
    addressableViolations := addressable ▸ fewSteps.isClean
    filesAffected := affected ▸ (fewSteps.of_le fewFiles).isClean
    byRule := ⟨_, rules,
      isClean_ruleRows apart fun field member => (each field member).isClean fewSteps⟩
    bySeverity := ⟨numbers, severities, fun severity => (all severity).isClean fewSteps⟩ }

/-! ## Plans -/

theorem buildPlan_filters {strategy : Strategy} {plan : Plan} {session ready : Session}
    (built : Proposal.buildPlan violations strategy filters session = .ok plan ready) :
    plan.filters = filters := by
  obtain ⟨_, _, _, built⟩ := Activity.bind_eq_ok.mp built
  obtain ⟨_, _, _, built⟩ := Activity.bind_eq_ok.mp built
  obtain ⟨_, _, _, built⟩ := Activity.bind_eq_ok.mp built
  obtain ⟨_, _, _, built⟩ := Activity.bind_eq_ok.mp built
  obtain ⟨rfl, _⟩ := Activity.pure_eq_ok.mp built
  rfl

/-- A plan that is built of clean violations is clean. -/
theorem buildPlan_clean {strategy : Strategy} {included excluded : Option (List String)}
    {most : Option Int} {plan : Plan} {session ready : Session}
    (clean : ∀ violation ∈ violations, violation.IsClean)
    (few : HasFewDigits violations.length) (say : filters.Say included excluded most)
    (fewChanges : ∀ limit, most = some limit → HasFewDigits limit)
    (built : Proposal.buildPlan violations strategy filters session = .ok plan ready) :
    plan.IsClean included excluded most := by
  obtain ⟨draft, _, drafted, built⟩ := Activity.bind_eq_ok.mp built
  obtain ⟨_, _, _, built⟩ := Activity.bind_eq_ok.mp built
  obtain ⟨summary, _, summed, built⟩ := Activity.bind_eq_ok.mp built
  obtain ⟨stamp, _, _, built⟩ := Activity.bind_eq_ok.mp built
  obtain ⟨rfl, _⟩ := Activity.pure_eq_ok.mp built
  obtain ⟨steps, below, count⟩ := draft_clean clean (Activity.value_eq_ok.mp drafted).1
  have summarized := (Activity.value_eq_ok.mp summed).1
  unfold PlanDraft.summary at summarized
  rw [count] at summarized
  exact {
    steps
    say
    few := fewChanges
    summary := summarize_clean few below summarized
    createdAt := Json.isClean_text stamp
    version := rfl }

/-- A plan that was built and then stored is loaded as it was: its version, date,
strategy, steps and summary are the same, and its filters are those of the caller.
It has the same digest.  The storing of such a plan fails only as the writing of
its file does. -/
theorem stored_plan_loads {strategy : Strategy} {included excluded : Option (List String)}
    {most : Option Int} {plan : Plan} {session ready : Session}
    (clean : ∀ violation ∈ violations, violation.IsClean)
    (few : HasFewDigits violations.length) (say : filters.Say included excluded most)
    (fewChanges : ∀ limit, most = some limit → HasFewDigits limit)
    (built : Proposal.buildPlan violations strategy filters session = .ok plan ready) :
    ∃ document digest, plan.toJson = .ok document ∧ plan.digest = .ok digest ∧
      (∀ path before after, plan.store path before = .ok () after →
        ∃ loaded later, Plan.load path after = .ok loaded later ∧
          loaded = { plan with filters := .ofNames included excluded most } ∧
            loaded.digest = .ok digest) ∧
      ∀ path before failure after, plan.store path before = .error failure after →
        Activity.writeFile path document.pretty before = .error failure after := by
  have whole := buildPlan_clean clean few say fewChanges built
  have kept := whole.keeps
  obtain ⟨digest, digested⟩ := whole.digest
  refine ⟨_, digest, kept.toJson, digested, fun path before after stored => ?_,
    fun path before failure after stopped => kept.store_error stopped⟩
  obtain ⟨later, loaded, _⟩ := kept.load stored
  exact ⟨_, later, loaded, rfl, kept.digest.trans digested⟩

/-- A project without files. -/
def bareProject : Session where
  workspace := ⟨[(["p"], .directory)]⟩
  project := ⟨.root, ["p"]⟩
  now := 0
  temporaryTag := "0"

/-- Two classes that are repeated. -/
def repetition : Violation where
  ruleId := .text "north/extract-repeated-classes"
  ruleKey := .text "extract-repeated-classes"
  severity := .error
  message := .text ""
  filePath := .text "f"
  line := 1
  column := 0
  className := .text "x y"

/-- What is seen of a plan that is built and stored. -/
def storedView {α : Type} (violations : List Violation) (strategy : Strategy) (filters : Filters)
    (path : Path) (session : Session) (look : Plan → α) : Option α :=
  match Proposal.buildPlan violations strategy filters session with
  | .error _ _ => none
  | .ok plan ready =>
      match plan.store path ready with
      | .error _ _ => none
      | .ok _ _ => some (look plan)

theorem storedView_eq_some {α : Type} {strategy : Strategy} {path : Path} {session : Session}
    {look : Plan → α} {seen : α}
    (viewed : storedView violations strategy filters path session look = some seen) :
    ∃ plan ready after, Proposal.buildPlan violations strategy filters session = .ok plan ready ∧
      plan.store path ready = .ok () after ∧ look plan = seen := by
  unfold storedView at viewed
  cases built : Proposal.buildPlan violations strategy filters session with
  | error failure stopped =>
      rw [built] at viewed
      cases viewed
  | ok plan ready =>
      simp only [built] at viewed
      cases stored : plan.store path ready with
      | error failure stopped =>
          rw [stored] at viewed
          cases viewed
      | ok done after =>
          rw [stored] at viewed
          exact ⟨plan, ready, after, rfl, stored, Option.some.inj viewed⟩

theorem repetition_stored :
    storedView [repetition] .aggressive (.ofNames none (some ["r"]) (some 2))
      ⟨.root, ["p", "plan"]⟩ bareProject (fun plan => plan.steps.length) = some 1 := by
  decide +kernel

theorem stored_plan_loads_repetition :
    ∃ plan ready after later,
      Proposal.buildPlan [repetition] .aggressive (.ofNames none (some ["r"]) (some 2))
          bareProject = .ok plan ready ∧
        plan.steps.length = 1 ∧
        plan.store ⟨.root, ["p", "plan"]⟩ ready = .ok () after ∧
        Plan.load ⟨.root, ["p", "plan"]⟩ after = .ok plan later := by
  obtain ⟨plan, ready, after, built, stored, count⟩ := storedView_eq_some repetition_stored
  have short : ∀ value : Int, value.natAbs < 10 → HasFewDigits value := fun value small =>
    Nat.lt_of_lt_of_le small (Nat.le_self_pow (by decide) 10)
  have clean : ∀ violation ∈ [repetition], violation.IsClean := by
    intro violation member
    obtain rfl := List.mem_singleton.mp member
    exact ⟨Json.isClean_text _, Json.isClean_text _, Json.isClean_text _, short 1 (by decide),
      short 0 (by decide)⟩
  obtain ⟨_, _, _, _, loads, _⟩ := stored_plan_loads clean (short 1 (by decide))
    (Filters.ofNames_say none (some ["r"]) (some 2))
    (fun limit given => Option.some.inj given ▸ short 2 (by decide)) built
  obtain ⟨loaded, later, loading, same, _⟩ := loads _ _ _ stored
  have whole : loaded = plan := by
    rw [same, ← buildPlan_filters built]
  exact ⟨plan, ready, after, later, built, count, stored, whole ▸ loading⟩

theorem toJson_of_unwritable (included excluded : Option (List String)) {limit : Int}
    (unwritable : isWritable limit = false) :
    (Filters.ofNames included excluded (some limit)).toJson = .error .integerUnwritable := by
  have say := Filters.ofNames_say included excluded (some limit)
  have stopped : (Filters.ofNames included excluded (some limit)).maxChanges.asWritable =
      .error .integerUnwritable := by
    simp [say.limit, Filters.limitValue, Json.asWritable, unwritable]
  unfold Filters.toJson
  rw [Filters.toField_of_names say.included, Filters.toField_of_names say.excluded, stopped]
  rfl

theorem buildPlan_nil (strategy : Strategy) (limit : Int) {session : Session}
    (dated : hasDate session.now = true) :
    ∃ plan ready, Proposal.buildPlan [] strategy (.ofNames none none (some limit)) session =
      .ok plan ready := by
  have filtered : filterViolations (.ofNames none none (some limit)) [] = .ok [] := by
    have chosen : Filters.limit? (.ofNames none none (some limit)) true =
        .ok (if 0 < limit then some limit.toNat else none) := rfl
    refine bind_eq_ok_iff.mpr ⟨[], rfl, bind_eq_ok_iff.mpr ⟨[], rfl, bind_eq_ok_iff.mpr
      ⟨[], rfl, bind_eq_ok_iff.mpr ⟨[], rfl, bind_eq_ok_iff.mpr ⟨_, chosen, ?_⟩⟩⟩⟩⟩
    by_cases positive : 0 < limit
    · rw [if_pos positive]
      rfl
    · rw [if_neg positive]
      rfl
  have drafted : Plan.draft [] strategy (.ofNames none none (some limit)) =
      .ok ⟨[], ⟨0, 0, 0, 0⟩⟩ :=
    bind_eq_ok_iff.mpr ⟨_, filtered, rfl⟩
  have stamped : ∀ ready : Session, hasDate ready.now = true →
      Activity.timestampNow ready = .ok (timestamp ready.now) ready := by
    intro ready dated
    unfold Activity.timestampNow
    rw [Activity.get_bind, if_pos dated]
    rfl
  exact ⟨_, _, Activity.bind_eq_ok.mpr ⟨_, _, Activity.value_eq_ok.mpr ⟨drafted, rfl⟩,
    Activity.bind_eq_ok.mpr ⟨_, _, Activity.log_apply .., Activity.bind_eq_ok.mpr ⟨_, _,
      Activity.value_eq_ok.mpr ⟨rfl, rfl⟩, Activity.bind_eq_ok.mpr ⟨_, _, stamped _ dated, rfl⟩⟩⟩⟩⟩

/-- A limit that is too long to be written stands in a plan that cannot be
stored. -/
theorem unwritable_limit_not_stored :
    ∃ plan ready,
      Proposal.buildPlan [] .balanced (.ofNames none none (some leastUnwritable)) bareProject =
          .ok plan ready ∧
        ∀ path session, plan.store path session = .error (.value .integerUnwritable) session := by
  obtain ⟨plan, ready, built⟩ := buildPlan_nil .balanced leastUnwritable
    (show hasDate bareProject.now = true by decide)
  refine ⟨plan, ready, built, fun path session => ?_⟩
  have unwritable : isWritable leastUnwritable = false := by decide +kernel
  have refused : plan.toJson = .error .integerUnwritable := by
    unfold Plan.toJson
    rw [buildPlan_filters built, toJson_of_unwritable none none unwritable]
    rfl
  unfold Plan.store
  rw [refused]
  rfl

end Restyle
