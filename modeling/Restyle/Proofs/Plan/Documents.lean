import Restyle.Proofs.Activity.Failing
import Restyle.Proofs.Json.Tables
import Restyle.Proofs.Migration.Records

/-!
# The documents of plans

A plan reads back from its document as it was, up to one thing: its filters come
back with the values that were written of them.  What a plan must hold for this is
said part by part, and for the whole by `Plan.Keeps`.  A plan with the filters of a
caller is a case of it, `Plan.IsClean`, and has a digest.
-/

namespace Restyle

/-- Whether an integer can be written and read again. -/
def HasFewDigits (value : Int) : Prop := value.natAbs < 10 ^ digitLimit

theorem HasFewDigits.of_le {count most : Nat} (few : HasFewDigits most) (below : count ≤ most) :
    HasFewDigits count := by
  unfold HasFewDigits at *
  exact Nat.lt_of_le_of_lt (by simpa using below) few

theorem HasFewDigits.isWritable {value : Int} (few : HasFewDigits value) :
    isWritable value = true := by
  unfold HasFewDigits at few
  unfold Restyle.isWritable leastUnwritable
  generalize digitLimit = limit at few ⊢
  exact decide_eq_true few

theorem HasFewDigits.isClean {value : Int} (few : HasFewDigits value) :
    (Json.integer value).IsClean := ⟨few, trivial⟩

namespace FixAction

/-- Whether all values of a fix are of a sort. -/
def Has (sort : Json → Prop) : FixAction → Prop
  | .replace source replacement => sort source ∧ sort replacement
  | .extract pattern utility => sort pattern ∧ sort utility
  | .tokenize value token => sort value ∧ sort token
  | .remove className => sort className

theorem Has.mono {sort other : Json → Prop} (implies : ∀ value, sort value → other value)
    {action : FixAction} (has : action.Has sort) : action.Has other := by
  cases action with
  | remove className => exact implies _ has
  | _ => exact ⟨implies _ has.1, implies _ has.2⟩

theorem ofJson_toJson (action : FixAction) : ofJson action.toJson = .ok action := by
  cases action <;> rfl

theorem isTidy_toJson {action : FixAction} (tidy : action.Has Json.IsTidy) :
    action.toJson.IsTidy := by
  cases action with
  | remove className =>
      rw [toJson, Json.IsTidy]
      exact ⟨Json.areNames_plain (by simp [Text.spellingMark]), trivial, tidy, trivial⟩
  | _ =>
      rw [toJson, Json.IsTidy]
      exact ⟨Json.areNames_plain (by simp [Text.spellingMark]), trivial, tidy.1, tidy.2, trivial⟩

theorem isLegible_toJson {action : FixAction} (legible : action.Has Json.IsLegible) :
    action.toJson.IsLegible := by
  cases action with
  | remove className => exact ⟨⟨rfl, trivial⟩, ⟨rfl, legible⟩, trivial⟩
  | _ => exact ⟨⟨rfl, trivial⟩, ⟨rfl, legible.1⟩, ⟨rfl, legible.2⟩, trivial⟩

end FixAction

theorem isTidy_of_mem_optionalField {name : String} {value : Json} {field : String × Json}
    (tidy : value.IsTidy) (member : field ∈ optionalField name value) : field.2.IsTidy := by
  unfold optionalField at member
  split at member
  · cases member
  · obtain rfl := List.mem_singleton.mp member
    exact tidy

theorem isLegible_of_mem_optionalField {name : String} {value : Json} {field : String × Json}
    (plain : Json.isPlainName name = true) (legible : value.IsLegible)
    (member : field ∈ optionalField name value) :
    Json.isPlainName field.1 = true ∧ field.2.IsLegible := by
  unfold optionalField at member
  split at member
  · cases member
  · obtain rfl := List.mem_singleton.mp member
    exact ⟨plain, legible⟩

theorem Severity.ofJson_name (severity : Severity) :
    Severity.ofJson (.text severity.name) = .ok severity := by
  cases severity <;> decide

theorem Strategy.ofJson?_name (strategy : Strategy) :
    Strategy.ofJson? (.text strategy.name) = some strategy := by
  cases strategy <;> decide

namespace Step

/-- Whether all values of a step are of a sort, and its numbers can be written and read
again. -/
structure Has (sort : Json → Prop) (step : Step) : Prop where
  id : sort step.id
  file : sort step.file
  line : HasFewDigits step.line
  column : HasFewDigits step.column
  ruleId : sort step.ruleId
  action : step.action.Has sort
  confidence : step.confidence.Canonical
  before : sort step.preview.before
  after : sort step.preview.after
  dependencies : ∀ list, step.dependencies = some list → list ≠ [] ∧ ∀ value ∈ list, sort value

theorem Has.mono {sort other : Json → Prop} (implies : ∀ value, sort value → other value)
    {step : Step} (has : step.Has sort) : step.Has other where
  id := implies _ has.id
  file := implies _ has.file
  line := has.line
  column := has.column
  ruleId := implies _ has.ruleId
  action := has.action.mono implies
  confidence := has.confidence
  before := implies _ has.before
  after := implies _ has.after
  dependencies list given :=
    (has.dependencies list given).imp_right fun each value member => implies _ (each value member)

/-- Whether a step can be written and read again. -/
abbrev IsTidy (step : Step) : Prop := step.Has Json.IsTidy

/-- Whether, besides, a step can be told from its bytes. -/
abbrev IsClean (step : Step) : Prop := step.Has Json.IsClean

theorem ofJson_toJson {step : Step} (filled : step.dependencies ≠ some []) :
    ofJson step.toJson = .ok step := by
  have listed : readDependencies (if step.dependencyList.isEmpty then []
      else [("dependencies", .array step.dependencyList)]) = .ok step.dependencies := by
    unfold dependencyList
    cases given : step.dependencies with
    | none => rfl
    | some list =>
        cases list with
        | nil => exact absurd given filled
        | cons first later => rfl
  unfold toJson
  generalize (if step.dependencyList.isEmpty then []
    else [("dependencies", Json.array step.dependencyList)]) = rest at listed ⊢
  unfold ofJson
  refine bind_eq_ok_iff.mpr ⟨_, rfl, ?_⟩
  refine bind_eq_ok_iff.mpr ⟨step.id, rfl, ?_⟩
  refine bind_eq_ok_iff.mpr ⟨step.file, rfl, ?_⟩
  refine bind_eq_ok_iff.mpr ⟨.integer step.line, rfl, ?_⟩
  refine bind_eq_ok_iff.mpr ⟨step.line, rfl, ?_⟩
  refine bind_eq_ok_iff.mpr ⟨step.column, rfl, ?_⟩
  refine bind_eq_ok_iff.mpr ⟨step.ruleId, rfl, ?_⟩
  refine bind_eq_ok_iff.mpr ⟨.text step.severity.name, rfl, ?_⟩
  refine bind_eq_ok_iff.mpr ⟨step.severity, step.severity.ofJson_name, ?_⟩
  refine bind_eq_ok_iff.mpr ⟨step.action.toJson, rfl, ?_⟩
  refine bind_eq_ok_iff.mpr ⟨step.action, step.action.ofJson_toJson, ?_⟩
  refine bind_eq_ok_iff.mpr ⟨.real step.confidence, rfl, ?_⟩
  refine bind_eq_ok_iff.mpr ⟨step.confidence, rfl, ?_⟩
  refine bind_eq_ok_iff.mpr ⟨step.preview, rfl, ?_⟩
  exact bind_eq_ok_iff.mpr ⟨step.dependencies, listed, rfl⟩

theorem isTidy_toJson {step : Step} (tidy : step.IsTidy) : step.toJson.IsTidy := by
  have dependencies : Json.AreTidy step.dependencyList := by
    unfold dependencyList
    cases given : step.dependencies with
    | none => trivial
    | some list => exact Json.areTidy_iff.mpr (tidy.dependencies list given).2
  have preview : Json.IsTidy (.object
      [("before", step.preview.before), ("after", step.preview.after)]) := by
    rw [Json.IsTidy]
    exact ⟨Json.areNames_plain (by simp [Text.spellingMark]), tidy.before, tidy.after, trivial⟩
  have line : Json.IsTidy (.integer step.line) := tidy.line
  have column : Json.IsTidy (.integer step.column) := tidy.column
  have confidence : Json.IsTidy (.real step.confidence) := tidy.confidence
  rw [toJson, Json.IsTidy]
  split
  · exact ⟨Json.areNames_plain (by simp [Text.spellingMark]), tidy.id, tidy.file, line, column,
      tidy.ruleId, trivial, FixAction.isTidy_toJson tidy.action, confidence, preview, trivial⟩
  · refine ⟨Json.areNames_plain (by simp [Text.spellingMark]), tidy.id, tidy.file, line, column,
      tidy.ruleId, trivial, FixAction.isTidy_toJson tidy.action, confidence, preview, ?_, trivial⟩
    rw [Json.IsTidy]
    exact dependencies

theorem isLegible_toJson {step : Step} (legible : step.Has Json.IsLegible) :
    step.toJson.IsLegible := by
  have dependencies : Json.AreLegible step.dependencyList := by
    unfold dependencyList
    cases given : step.dependencies with
    | none => trivial
    | some list => exact Json.areLegible_iff.mpr (legible.dependencies list given).2
  have preview : Json.IsLegible (.object
      [("before", step.preview.before), ("after", step.preview.after)]) :=
    ⟨⟨rfl, legible.before⟩, ⟨rfl, legible.after⟩, trivial⟩
  have later : Json.HaveLegible (if step.dependencyList.isEmpty then []
      else [("dependencies", .array step.dependencyList)]) := by
    split
    · trivial
    · exact ⟨⟨rfl, dependencies⟩, trivial⟩
  exact ⟨⟨rfl, legible.id⟩, ⟨rfl, legible.file⟩, ⟨rfl, trivial⟩, ⟨rfl, trivial⟩,
    ⟨rfl, legible.ruleId⟩, ⟨rfl, trivial⟩, ⟨rfl, FixAction.isLegible_toJson legible.action⟩,
    ⟨rfl, legible.confidence⟩, ⟨rfl, preview⟩, later⟩

end Step

namespace Json

theorem orElse_object (fields : List (String × Json)) :
    (object fields).orElse (.object []) = .object fields := by
  cases fields <;> rfl

theorem orElse_array (items : List Json) : (array items).orElse (.array []) = .array items := by
  cases items <;> rfl

end Json

namespace PlanSummary

def severityRows (counts : Severity → Json) : List (String × Json) :=
  Severity.all.map fun severity => (severity.name, counts severity)

theorem areNames_severityRows (counts : Severity → Json) :
    Json.AreNames ((severityRows counts).map Prod.fst) :=
  Json.areNames_plain (by simp [severityRows, Severity.all, Severity.name, Text.spellingMark])

theorem ofNames_severityRows (counts : Severity → Json) :
    Table.ofNames (severityRows counts) = Table.ofFields (severityRows counts) := by
  have plain : ∀ severity : Severity, Json.nameText severity.name = .text severity.name := by
    intro severity
    cases severity <;> exact Json.nameText_plain (by simp [Severity.name, Text.spellingMark])
  simp only [Table.ofNames, Table.ofFields, severityRows, List.map_map]
  refine List.map_congr_left fun severity _ => ?_
  simp only [Function.comp, plain]

/-- Whether a summary can be written and read again, its severities being those
that there are and maybe others. -/
structure Keeps (summary : PlanSummary) : Prop where
  totalViolations : summary.totalViolations.IsTidy
  addressableViolations : summary.addressableViolations.IsTidy
  filesAffected : summary.filesAffected.IsTidy
  byRule : ∃ rows, summary.byRule = Table.ofNames rows ∧ Json.IsTidy (.object rows)
  bySeverity : ∃ rows more, summary.bySeverity = Table.ofNames rows ∧ Json.IsTidy (.object rows) ∧
    rows.map Prod.fst = Severity.all.map Severity.name ++ more

theorem Keeps.ofJson_toJson {summary : PlanSummary} (keeps : summary.Keeps) :
    ofJson summary.toJson = .ok summary := by
  obtain ⟨rules, hasRules, ruleRows⟩ := keeps.byRule
  obtain ⟨severities, more, hasSeverities, severityRows, names⟩ := keeps.bySeverity
  rw [Json.IsTidy] at ruleRows severityRows
  have start : PlanSummary.bySeverity {} =
      Table.ofNames (PlanSummary.severityRows fun _ => .integer 0) :=
    (ofNames_severityRows fun _ => .integer 0).symm
  have bySeverity : Table.update (PlanSummary.bySeverity {})
      (summary.bySeverity.toJson.orElse (.object [])) = .ok summary.bySeverity := by
    rw [hasSeverities, start, ← Table.update_toJson (areNames_severityRows fun _ => .integer 0)
      names severityRows.1, Table.toJson_ofNames severityRows.1, Json.orElse_object]
  have byRule : Table.update [] (summary.byRule.toJson.orElse (.object [])) =
      .ok summary.byRule := by
    have none : Json.AreNames (([] : List (String × Json)).map Prod.fst) := Json.areNames_nil
    rw [hasRules, ← Table.update_toJson none rfl ruleRows.1,
      Table.toJson_ofNames ruleRows.1, Json.orElse_object]
    rfl
  unfold ofJson toJson
  refine bind_eq_ok_iff.mpr ⟨_, rfl, ?_⟩
  refine bind_eq_ok_iff.mpr ⟨summary.bySeverity, bySeverity, ?_⟩
  exact bind_eq_ok_iff.mpr ⟨summary.byRule, byRule, rfl⟩

theorem Keeps.isTidy_toJson {summary : PlanSummary} (keeps : summary.Keeps) :
    summary.toJson.IsTidy := by
  obtain ⟨rules, hasRules, ruleRows⟩ := keeps.byRule
  obtain ⟨severities, _, hasSeverities, severityRows, _⟩ := keeps.bySeverity
  rw [toJson, hasRules, hasSeverities, Table.toJson_ofNames ruleRows.1,
    Table.toJson_ofNames severityRows.1, Json.IsTidy]
  exact ⟨Json.areNames_plain (by simp [Text.spellingMark]), keeps.totalViolations,
    keeps.addressableViolations, keeps.filesAffected, ruleRows, severityRows, trivial⟩

/-- Whether the values of a summary are clean, its severities being those that there
are. -/
structure IsClean (summary : PlanSummary) : Prop where
  totalViolations : summary.totalViolations.IsClean
  addressableViolations : summary.addressableViolations.IsClean
  filesAffected : summary.filesAffected.IsClean
  byRule : ∃ fields, summary.byRule = Table.ofNames fields ∧ Json.IsClean (.object fields)
  bySeverity : ∃ counts, summary.bySeverity = Table.ofFields (severityRows counts) ∧
    ∀ severity, (counts severity).IsClean

theorem IsClean.keeps {summary : PlanSummary} (clean : summary.IsClean) : summary.Keeps := by
  obtain ⟨counts, severities, counted⟩ := clean.bySeverity
  have rows : Json.IsTidy (.object (severityRows counts)) := by
    rw [Json.IsTidy]
    exact ⟨areNames_severityRows counts, (counted .error).tidy, (counted .warn).tidy,
      (counted .info).tidy, trivial⟩
  rw [← ofNames_severityRows] at severities
  obtain ⟨fields, rules, ruleRows⟩ := clean.byRule
  exact {
    totalViolations := clean.totalViolations.tidy
    addressableViolations := clean.addressableViolations.tidy
    filesAffected := clean.filesAffected.tidy
    byRule := ⟨fields, rules, ruleRows.tidy⟩
    bySeverity := ⟨_, [], severities, rows, rfl⟩ }

theorem IsClean.legible {summary : PlanSummary} (clean : summary.IsClean) :
    summary.toJson.IsLegible := by
  obtain ⟨fields, rules, ruleRows⟩ := clean.byRule
  obtain ⟨counts, severities, counted⟩ := clean.bySeverity
  have names := ruleRows.tidy
  rw [Json.IsTidy] at names
  have rows : Json.IsLegible (.object (severityRows counts)) :=
    ⟨⟨rfl, (counted .error).legible⟩, ⟨rfl, (counted .warn).legible⟩,
      ⟨rfl, (counted .info).legible⟩, trivial⟩
  rw [← ofNames_severityRows] at severities
  rw [toJson, rules, severities, Table.toJson_ofNames names.1,
    Table.toJson_ofNames (areNames_severityRows counts)]
  exact ⟨⟨rfl, clean.totalViolations.legible⟩, ⟨rfl, clean.addressableViolations.legible⟩,
    ⟨rfl, clean.filesAffected.legible⟩, ⟨rfl, ruleRows.legible⟩, ⟨rfl, rows⟩, trivial⟩

end PlanSummary

/-- Whether rules are written as a value, nothing or a list that is read as it
stands. -/
structure RuleList.Writes (rules : RuleList) (value : Json) : Prop where
  written : ∀ name, rules.toField name = .ok (optionalField name value)
  listed : value = .null ∨ ∃ items, value = .array items
  tidy : value.IsTidy

theorem Json.asWritable_of_tidy {value : Json} (tidy : value.IsTidy) :
    value.asWritable = .ok value := by
  cases value with
  | integer number =>
      rw [asWritable, if_pos]
      exact HasFewDigits.isWritable tidy
  | _ => rfl

theorem RuleList.toField_of_items {value : Json} {items : List Json} (given : value ≠ .null)
    (listed : value.items = .ok items) (tidy : ∀ item ∈ items, item.IsTidy) (name : String) :
    (RuleList.given value).toField name = .ok (optionalField name (.array items)) := by
  have written : items.mapM Json.asWritable = .ok items := by
    rw [mapM_eq_ok, List.forall₂_same]
    exact fun item member => Json.asWritable_of_tidy (tidy item member)
  have shown : RuleList.toJson? (.given value) = .ok (some (.array items)) := by
    rw [RuleList.toJson?, if_neg given]
    exact bind_eq_ok_iff.mpr ⟨_, listed, bind_eq_ok_iff.mpr ⟨_, written, rfl⟩⟩
  exact bind_eq_ok_iff.mpr ⟨_, shown, rfl⟩

theorem RuleList.writes_given {value : Json}
    (listed : value = .null ∨ ∃ items, value = .array items) (tidy : value.IsTidy) :
    (RuleList.given value).Writes value where
  written name := by
    rcases listed with rfl | ⟨items, rfl⟩
    · rfl
    · rw [Json.IsTidy, Json.areTidy_iff] at tidy
      have filled : Json.array items ≠ .null := nofun
      exact RuleList.toField_of_items filled rfl tidy name
  listed := listed
  tidy := tidy

namespace Filters

/-- The filters with the values of a document. -/
def ofValues (included excluded most : Json) : Filters where
  included := .given included
  excluded := .given excluded
  maxChanges := most

def valuesDocument (included excluded most : Json) : Json :=
  .object (optionalField "include" included ++ optionalField "exclude" excluded ++
    optionalField "maxChanges" most)

/-- Whether filters are written with some values. -/
structure Writes (filters : Filters) (included excluded most : Json) : Prop where
  included : filters.included.Writes included
  excluded : filters.excluded.Writes excluded
  limit : filters.maxChanges = most
  tidy : most.IsTidy

variable {filters : Filters} {included excluded most : Json}

/-- Filters that are read of what was written are written in the same way. -/
theorem Writes.again (writes : filters.Writes included excluded most) :
    (ofValues included excluded most).Writes included excluded most where
  included := RuleList.writes_given writes.included.listed writes.included.tidy
  excluded := RuleList.writes_given writes.excluded.listed writes.excluded.tidy
  limit := rfl
  tidy := writes.tidy

theorem Writes.toJson (writes : filters.Writes included excluded most) :
    filters.toJson = .ok (valuesDocument included excluded most) := by
  have limit : filters.maxChanges.asWritable = .ok most := by
    rw [writes.limit]
    exact Json.asWritable_of_tidy writes.tidy
  unfold Filters.toJson
  refine bind_eq_ok_iff.mpr ⟨_, writes.included.written "include", ?_⟩
  refine bind_eq_ok_iff.mpr ⟨_, writes.excluded.written "exclude", ?_⟩
  exact bind_eq_ok_iff.mpr ⟨_, limit, rfl⟩

/-- Fields that are written only when they are there are found, or are null. -/
theorem fieldOr_optional (included excluded most : Json) :
    let fields := optionalField "include" included ++ optionalField "exclude" excluded ++
      optionalField "maxChanges" most
    Json.fieldOr "include" .null fields = included ∧
      Json.fieldOr "exclude" .null fields = excluded ∧
        Json.fieldOr "maxChanges" .null fields = most := by
  unfold optionalField
  by_cases first : included = .null <;> by_cases second : excluded = .null <;>
    by_cases third : most = .null <;>
    simp [first, second, third, Json.fieldOr, Json.lookup]

theorem ofJson_valuesDocument (included excluded most : Json) :
    ofJson (valuesDocument included excluded most) = .ok (ofValues included excluded most) := by
  obtain ⟨first, second, third⟩ := fieldOr_optional included excluded most
  unfold ofJson valuesDocument
  refine bind_eq_ok_iff.mpr ⟨_, rfl, ?_⟩
  rw [first, second, third]
  rfl

theorem Writes.isTidy_document (writes : filters.Writes included excluded most) :
    (valuesDocument included excluded most).IsTidy := by
  rw [valuesDocument, Json.IsTidy, Json.haveTidyValues_iff]
  constructor
  · apply Json.areNames_plain
    unfold optionalField
    split <;> split <;> split <;> simp [Text.spellingMark]
  · intro field member
    simp only [List.mem_append] at member
    rcases member with (member | member) | member
    · exact isTidy_of_mem_optionalField writes.included.tidy member
    · exact isTidy_of_mem_optionalField writes.excluded.tidy member
    · exact isTidy_of_mem_optionalField writes.tidy member

theorem isLegible_document (legibleIncluded : included.IsLegible)
    (legibleExcluded : excluded.IsLegible) (legibleMost : most.IsLegible) :
    (valuesDocument included excluded most).IsLegible := by
  refine Json.haveLegible_iff.mpr fun field member => ?_
  simp only [List.mem_append] at member
  rcases member with (member | member) | member
  · exact isLegible_of_mem_optionalField rfl legibleIncluded member
  · exact isLegible_of_mem_optionalField rfl legibleExcluded member
  · exact isLegible_of_mem_optionalField rfl legibleMost member

end Filters

namespace Plan

/-- Whether a plan can be written and read again, its filters being written with
some values. -/
structure Keeps (plan : Plan) (included excluded most : Json) : Prop where
  steps : ∀ step ∈ plan.steps, step.IsTidy
  filters : plan.filters.Writes included excluded most
  summary : plan.summary.Keeps
  createdAt : plan.createdAt.IsTidy
  version : plan.version.IsTidy
  current : Json.same plan.version planVersion = true

section Keeps

variable {plan : Plan} {included excluded most : Json}

/-- The plan as it is read: the same, with the filters that were written. -/
def readBack (plan : Plan) (included excluded most : Json) : Plan :=
  { plan with filters := .ofValues included excluded most }

theorem Keeps.readBack (keeps : plan.Keeps included excluded most) :
    (plan.readBack included excluded most).Keeps included excluded most :=
  { keeps with filters := keeps.filters.again }

def valuesDocument (plan : Plan) (included excluded most : Json) : Json :=
  .object
    [("version", plan.version), ("createdAt", plan.createdAt),
      ("strategy", .text plan.strategy.name),
      ("config", Filters.valuesDocument included excluded most),
      ("steps", .array (plan.steps.map Step.toJson)), ("summary", plan.summary.toJson)]

theorem Keeps.toJson (keeps : plan.Keeps included excluded most) :
    plan.toJson = .ok (plan.valuesDocument included excluded most) :=
  bind_eq_ok_iff.mpr ⟨_, keeps.filters.toJson, rfl⟩

theorem Keeps.document (keeps : plan.Keeps included excluded most) :
    (plan.valuesDocument included excluded most).IsTidy := by
  have steps : Json.IsTidy (.array (plan.steps.map Step.toJson)) := by
    rw [Json.IsTidy, Json.areTidy_iff]
    intro item member
    obtain ⟨step, among, rfl⟩ := List.mem_map.mp member
    exact Step.isTidy_toJson (keeps.steps step among)
  rw [Plan.valuesDocument, Json.IsTidy]
  exact ⟨Json.areNames_plain (by simp [Text.spellingMark]), keeps.version, keeps.createdAt, trivial,
    keeps.filters.isTidy_document, steps, keeps.summary.isTidy_toJson, trivial⟩

theorem Keeps.ofJson (keeps : plan.Keeps included excluded most) :
    Plan.ofJson (plan.valuesDocument included excluded most) =
      .ok (plan.readBack included excluded most) := by
  have steps : Plan.readSteps ((Json.array (plan.steps.map Step.toJson)).orElse (.array [])) =
      .ok plan.steps := by
    rw [Json.orElse_array]
    refine bind_eq_ok_iff.mpr ⟨_, rfl, ?_⟩
    rw [mapM_eq_ok, List.forall₂_map_left_iff, List.forall₂_same]
    intro step member
    refine Step.ofJson_toJson fun empty => ?_
    exact ((keeps.steps step member).dependencies [] empty).1 rfl
  have strategy : Plan.readStrategy (.text plan.strategy.name) = .ok plan.strategy := by
    rw [Plan.readStrategy, Strategy.ofJson?_name]
  have filters : Filters.ofJson
      ((Filters.valuesDocument included excluded most).orElse (.object [])) =
        .ok (.ofValues included excluded most) := by
    rw [Filters.valuesDocument, Json.orElse_object]
    exact Filters.ofJson_valuesDocument included excluded most
  have summary : PlanSummary.ofJson (plan.summary.toJson.orElse (.object [])) =
      .ok plan.summary := by
    rw [PlanSummary.toJson, Json.orElse_object]
    exact keeps.summary.ofJson_toJson
  unfold Plan.ofJson
  refine bind_eq_ok_iff.mpr ⟨_, rfl, ?_⟩
  refine bind_eq_ok_iff.mpr ⟨plan.version, rfl, ?_⟩
  refine bind_eq_ok_iff.mpr ⟨plan.strategy, strategy, ?_⟩
  refine bind_eq_ok_iff.mpr ⟨.ofValues included excluded most, filters, ?_⟩
  refine bind_eq_ok_iff.mpr ⟨plan.steps, steps, ?_⟩
  exact bind_eq_ok_iff.mpr ⟨plan.summary, summary, rfl⟩

theorem Keeps.ofText (keeps : plan.Keeps included excluded most) :
    Plan.ofText (plan.valuesDocument included excluded most).pretty =
      .ok (plan.readBack included excluded most) :=
  Plan.ofText_pretty keeps.document keeps.current keeps.ofJson

variable {session after : Session} {path : Path}

theorem Keeps.store_eq (keeps : plan.Keeps included excluded most) :
    plan.store path session = (do
      Activity.writeFile path (plan.valuesDocument included excluded most).pretty
      Activity.log .info .planning ("Wrote migration plan to " ++ path.toString)) session := by
  unfold Plan.store
  rw [Activity.bind_of_ok (Activity.value_eq_ok.mpr ⟨keeps.toJson, rfl⟩)]

theorem Keeps.stored (keeps : plan.Keeps included excluded most)
    (stored : plan.store path session = .ok () after) :
    path.hasNull = false ∧ after.workspace.readBytes path =
      .ok (Text.encode (plan.valuesDocument included excluded most).pretty.toList) := by
  rw [keeps.store_eq] at stored
  obtain ⟨_, wrote, writing, logged⟩ := Activity.bind_eq_ok.mp stored
  obtain ⟨_, _, read⟩ := Activity.writeFile_ok writing
  rw [(Activity.log_quiet logged).workspace]
  exact ⟨Activity.writeFile_clean writing, read⟩

theorem Keeps.load (keeps : plan.Keeps included excluded most)
    (stored : plan.store path session = .ok () after) :
    ∃ later, Plan.load path after = .ok (plan.readBack included excluded most) later ∧
      after.Quiet later := by
  obtain ⟨clean, read⟩ := keeps.stored stored
  have text : after.workspace.readText path =
      .ok (plan.valuesDocument included excluded most).pretty := by
    refine Workspace.readText_eq_ok_iff.mpr ⟨_, _, read, Text.decode_encode _, ?_⟩
    rw [Text.unifyBreaks_of_not_mem (Json.return_not_mem_pretty _), String.ofList_toList]
  exact Plan.load_of_storedAt ⟨clean, _, text, keeps.ofText⟩

theorem Keeps.store_error {failure : Failure} (keeps : plan.Keeps included excluded most)
    (stopped : plan.store path session = .error failure after) :
    Activity.writeFile path (plan.valuesDocument included excluded most).pretty session =
      .error failure after := by
  rw [keeps.store_eq, Activity.bind_eq_error] at stopped
  rcases stopped with writing | ⟨_, _, _, logged⟩
  · exact writing
  · cases logged

theorem digest_congr {other : Plan} (same : plan.toJson = other.toJson) :
    plan.digest = other.digest := by
  unfold digest digestInput
  rw [same]

theorem Keeps.digest (keeps : plan.Keeps included excluded most) :
    (plan.readBack included excluded most).digest = plan.digest :=
  digest_congr (keeps.readBack.toJson.trans keeps.toJson.symm)

end Keeps

end Plan

/-! ## The filters of a caller -/

/-- Whether a list of rules names rules by text, or none are given. -/
inductive RuleList.Names : RuleList → Option (List String) → Prop where
  | absent : Names (.given .null) none
  | given (names : List String) : Names (.given (.array (names.map .text))) (some names)
  | listed (names : List String) :
      Names (.listed (names.map fun name => .value (.text name))) (some names)

namespace Filters

def ruleNames : Option (List String) → Json
  | none => .null
  | some names => .array (names.map .text)

def limitValue : Option Int → Json
  | none => .null
  | some most => .integer most

/-- The filters that a caller gives. -/
def ofNames (included excluded : Option (List String)) (most : Option Int) : Filters where
  included := .given (ruleNames included)
  excluded := .given (ruleNames excluded)
  maxChanges := limitValue most

/-- Whether filters are those of a caller, or of settings that say the same. -/
structure Say (filters : Filters) (included excluded : Option (List String)) (most : Option Int) :
    Prop where
  included : filters.included.Names included
  excluded : filters.excluded.Names excluded
  limit : filters.maxChanges = limitValue most

theorem isTidy_ruleNames (names : Option (List String)) : (ruleNames names).IsTidy := by
  cases names with
  | none => trivial
  | some names =>
      rw [ruleNames, Json.IsTidy, Json.areTidy_iff, List.forall_mem_map]
      exact fun _ _ => trivial

theorem isLegible_ruleNames (names : Option (List String)) : (ruleNames names).IsLegible := by
  cases names with
  | none => trivial
  | some names =>
      rw [ruleNames, Json.IsLegible, Json.areLegible_iff, List.forall_mem_map]
      exact fun _ _ => trivial

theorem isLegible_limitValue (most : Option Int) : (limitValue most).IsLegible := by
  cases most <;> trivial

theorem writes_of_names {rules : RuleList} {names : Option (List String)}
    (named : rules.Names names) : rules.Writes (ruleNames names) := by
  have tidy := isTidy_ruleNames names
  cases named with
  | absent => exact RuleList.writes_given (.inl rfl) tidy
  | given names => exact RuleList.writes_given (.inr ⟨_, rfl⟩) tidy
  | listed names =>
      have written : (names.map fun name => RuleItem.value (.text name)).mapM RuleItem.toJson =
          .ok (names.map Json.text) := by
        rw [mapM_eq_ok, List.forall₂_map_left_iff, List.forall₂_map_right_iff, List.forall₂_same]
        intro text _
        rfl
      have shown : RuleList.toJson? (.listed (names.map fun name => .value (.text name))) =
          .ok (some (.array (names.map .text))) :=
        bind_eq_ok_iff.mpr ⟨_, written, rfl⟩
      exact ⟨fun name => bind_eq_ok_iff.mpr ⟨_, shown, rfl⟩, .inr ⟨_, rfl⟩, tidy⟩

theorem toField_of_names {rules : RuleList} {names : Option (List String)}
    (named : rules.Names names) (name : String) :
    rules.toField name = .ok (optionalField name (ruleNames names)) :=
  (writes_of_names named).written name

variable {filters : Filters} {included excluded : Option (List String)} {most : Option Int}

theorem Say.writes (say : filters.Say included excluded most)
    (few : ∀ limit, most = some limit → HasFewDigits limit) :
    filters.Writes (ruleNames included) (ruleNames excluded) (limitValue most) where
  included := writes_of_names say.included
  excluded := writes_of_names say.excluded
  limit := say.limit
  tidy := by
    cases most with
    | none => trivial
    | some limit => exact few limit rfl

theorem ofNames_say (included excluded : Option (List String)) (most : Option Int) :
    (ofNames included excluded most).Say included excluded most where
  included := by
    cases included with
    | none => exact .absent
    | some names => exact .given names
  excluded := by
    cases excluded with
    | none => exact .absent
    | some names => exact .given names
  limit := rfl

end Filters

namespace Plan

/-- Whether the values of a plan are clean, its filters being those of a caller. -/
structure IsClean (plan : Plan) (included excluded : Option (List String)) (most : Option Int) :
    Prop where
  steps : ∀ step ∈ plan.steps, step.IsClean
  say : plan.filters.Say included excluded most
  few : ∀ limit, most = some limit → HasFewDigits limit
  summary : plan.summary.IsClean
  createdAt : plan.createdAt.IsClean
  version : plan.version = planVersion

section IsClean

variable {plan : Plan} {included excluded : Option (List String)} {most : Option Int}

theorem IsClean.keeps (clean : plan.IsClean included excluded most) :
    plan.Keeps (Filters.ruleNames included) (Filters.ruleNames excluded)
      (Filters.limitValue most) where
  steps step member := (clean.steps step member).mono fun _ => Json.IsClean.tidy
  filters := clean.say.writes clean.few
  summary := clean.summary.keeps
  createdAt := clean.createdAt.tidy
  version := by
    rw [clean.version]
    show (1 : Nat) < 10 ^ digitLimit
    exact Nat.one_lt_pow (by decide) (by decide)
  current := by
    rw [clean.version]
    rfl

theorem IsClean.legible (clean : plan.IsClean included excluded most) :
    (plan.valuesDocument (Filters.ruleNames included) (Filters.ruleNames excluded)
      (Filters.limitValue most)).IsLegible := by
  have version : plan.version.IsLegible := by
    rw [clean.version]
    trivial
  have steps : Json.IsLegible (.array (plan.steps.map Step.toJson)) := by
    rw [Json.IsLegible, Json.areLegible_iff, List.forall_mem_map]
    intro step member
    exact Step.isLegible_toJson ((clean.steps step member).mono fun _ => Json.IsClean.legible)
  have config := Filters.isLegible_document (Filters.isLegible_ruleNames included)
    (Filters.isLegible_ruleNames excluded) (Filters.isLegible_limitValue most)
  exact ⟨⟨rfl, version⟩, ⟨rfl, clean.createdAt.legible⟩, ⟨rfl, trivial⟩, ⟨rfl, config⟩,
    ⟨rfl, steps⟩, ⟨rfl, clean.summary.legible⟩, trivial⟩

theorem IsClean.digest (clean : plan.IsClean included excluded most) :
    ∃ digest, plan.digest = .ok digest :=
  digest_of_digestInput
    (digestInput_eq_ok.mpr ⟨_, clean.keeps.toJson, clean.legible.encodable, rfl⟩)

end IsClean

end Plan

end Restyle
