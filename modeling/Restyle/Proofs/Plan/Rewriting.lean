import Restyle.Proofs.Plan.Documents

/-!
# Plans that are read and written again

The reader takes values of many kinds where it wants a number, a list or a
table.  What it makes of them is written in one form, and that form is read as
it stands.  So writing a plan that was read, and reading it again, changes
nothing more.
-/

namespace Restyle

/-! ## Numbers -/

namespace Json

theorem fewDigits_small {value : Int} (small : value.natAbs < 10) : HasFewDigits value :=
  Nat.lt_of_lt_of_le small (Nat.le_self_pow (by decide) 10)

theorem natAbs_signed (negative : Bool) (magnitude : Nat) :
    (Binary64.signed negative magnitude).natAbs = magnitude := by
  cases negative <;> simp [Binary64.signed]

theorem fewDigits_truncate {value : Binary64} {whole : Int} (canonical : value.Canonical)
    (cut : value.truncate? = some whole) : HasFewDigits whole := by
  have limit : ∀ shift ≤ 971, 2 ^ 53 * 2 ^ shift ≤ 10 ^ digitLimit := by
    intro shift below
    rw [← Nat.pow_add]
    apply (Nat.pow_le_pow_left (show 2 ≤ 10 by decide) _).trans
    apply Nat.pow_le_pow_right (by decide)
    rw [digitLimit]
    omega
  cases value with
  | finite negative mantissa exponent =>
      have bounded : mantissa < 2 ^ 53 ∧ exponent.natAbs ≤ 1074 ∧ exponent ≤ 971 := by
        rcases canonical with ⟨small, least⟩ | ⟨_, small, lower, upper⟩
        · rw [Binary64.leastExponent] at least
          omega
        · rw [Binary64.leastExponent] at lower
          rw [Binary64.greatestExponent] at upper
          omega
      simp only [Binary64.truncate?, Option.some.injEq] at cut
      rw [← cut, HasFewDigits, natAbs_signed]
      apply Nat.lt_of_le_of_lt (Nat.div_le_self _ _)
      rw [Binary64.ratio]
      split
      · exact Nat.lt_of_lt_of_le bounded.1 (limit 0 (by decide))
      · apply Nat.lt_of_lt_of_le _ (limit exponent.natAbs (by omega))
        exact Nat.mul_lt_mul_of_pos_right bounded.1 (Nat.pow_pos (by decide))
  | infinite negative => cases cut
  | notANumber => cases cut

theorem ungroupedDigits?_decimal {text digits : List Char}
    (found : ungroupedDigits? text = some digits) : ∀ digit ∈ digits, digit.isDigit = true := by
  fun_induction ungroupedDigits? text generalizing digits with
  | case1 => cases found
  | case2 digit decimal =>
      cases found
      intro other member
      rw [List.mem_singleton.mp member]
      exact decimal
  | case3 => cases found
  | case4 digit rest decimal induction =>
      obtain ⟨later, known, rfl⟩ := Option.map_eq_some_iff.mp found
      exact List.forall_mem_cons.mpr ⟨decimal, induction known⟩
  | case5 => cases found
  | case6 digit rest _ _ decimal induction =>
      obtain ⟨later, known, rfl⟩ := Option.map_eq_some_iff.mp found
      exact List.forall_mem_cons.mpr ⟨decimal, induction known⟩
  | case7 => cases found

theorem fewDigits_readInteger {text : List Char} {number : Int}
    (read : readInteger text = .value number) : HasFewDigits number := by
  rw [readInteger] at read
  split at read
  split at read
  · cases read
  · rename_i digits found
    split at read
    · cases read
    · rename_i short
      cases read
      rw [HasFewDigits, natAbs_signed]
      apply Nat.lt_of_lt_of_le (digitsValue_lt digits (ungroupedDigits?_decimal found))
      exact Nat.pow_le_pow_right (by decide) (by omega)

/-- An integer that is made of a value that was read can be written. -/
theorem fewDigits_toInteger {value : Json} {number : Int} (tidy : value.IsTidy)
    (read : value.toInteger = .ok number) : HasFewDigits number := by
  cases value with
  | boolean truth =>
      cases read
      cases truth <;> exact fewDigits_small (by decide)
  | integer whole =>
      cases read
      exact tidy
  | real value =>
      cases value with
      | notANumber => cases read
      | infinite negative => cases read
      | finite negative mantissa exponent =>
          have canonical : (Binary64.finite negative mantissa exponent).Canonical := tidy
          exact fewDigits_truncate canonical (congrArg some (Except.ok.inj read))
  | text value =>
      rw [toInteger] at read
      split at read
      · rename_i found
        cases read
        exact fewDigits_readInteger found
      · cases read
      · cases read
  | torn codes =>
      rw [toInteger] at read
      split at read <;> cases read
  | _ => cases read

theorem canonical_ofInt (value : Int) : (Binary64.ofInt value).Canonical :=
  Binary64.canonical_ofRatio _ _ (by decide)

theorem canonical_readDecimal {negative : Bool} {text : List Char} {number : Binary64}
    (read : readDecimal? negative text = some number) : number.Canonical := by
  unfold readDecimal? at read
  dsimp only at read
  split at read
  all_goals
    split at read
    · cases read
    · obtain ⟨exponent, _, rfl⟩ := Option.map_eq_some_iff.mp read
      exact Binary64.canonical_ofDecimal _ _ _

theorem canonical_readReal {text : List Char} {number : Binary64}
    (read : readReal? text = some number) : number.Canonical := by
  unfold readReal? at read
  split at read
  · cases read
  · split at read
    split at read
    · rename_i found
      cases read
      unfold readNamed? at found
      split at found <;> cases found <;> trivial
    · exact canonical_readDecimal read

theorem canonical_toReal {value : Json} {number : Binary64} (tidy : value.IsTidy)
    (read : value.toReal = .ok number) : number.Canonical := by
  cases value with
  | boolean truth =>
      cases read
      exact canonical_ofInt _
  | integer whole =>
      rw [toReal, realOfInteger] at read
      split at read
      · cases read
      · cases read
        exact canonical_ofInt whole
  | real value =>
      cases read
      exact tidy
  | text value =>
      rw [toReal] at read
      split at read
      · rename_i found
        cases read
        exact canonical_readReal found
      · cases read
  | _ => cases read

theorem isTidy_required {name : String} {value : Json} {fields : List (String × Json)}
    (tidy : IsTidy (.object fields)) (found : required name fields = .ok value) : value.IsTidy :=
  isTidy_lookup tidy (required_eq_ok found)

end Json

/-! ## Steps -/

theorem FixAction.isTidy_ofJson {document : Json} {action : FixAction} (tidy : document.IsTidy)
    (read : FixAction.ofJson document = .ok action) : action.Has Json.IsTidy := by
  obtain ⟨fields, given, rest⟩ := bind_eq_ok_iff.mp read
  obtain rfl := Json.fields_eq_ok given
  clear read given
  split at rest
  · obtain ⟨source, first, rest⟩ := bind_eq_ok_iff.mp rest
    obtain ⟨replacement, second, rest⟩ := bind_eq_ok_iff.mp rest
    cases rest
    exact ⟨Json.isTidy_required tidy first, Json.isTidy_required tidy second⟩
  · obtain ⟨pattern, first, rest⟩ := bind_eq_ok_iff.mp rest
    obtain ⟨utility, second, rest⟩ := bind_eq_ok_iff.mp rest
    cases rest
    exact ⟨Json.isTidy_required tidy first, Json.isTidy_required tidy second⟩
  · obtain ⟨value, first, rest⟩ := bind_eq_ok_iff.mp rest
    obtain ⟨token, second, rest⟩ := bind_eq_ok_iff.mp rest
    cases rest
    exact ⟨Json.isTidy_required tidy first, Json.isTidy_required tidy second⟩
  · obtain ⟨className, first, rest⟩ := bind_eq_ok_iff.mp rest
    cases rest
    exact Json.isTidy_required tidy first
  · cases rest

namespace Step

variable {fields : List (String × Json)}

theorem isTidy_readPreview {preview : Preview} (tidy : Json.IsTidy (.object fields))
    (read : readPreview fields = .ok preview) :
    preview.before.IsTidy ∧ preview.after.IsTidy := by
  obtain ⟨before, first, read⟩ := bind_eq_ok_iff.mp read
  obtain ⟨after, second, read⟩ := bind_eq_ok_iff.mp read
  cases read
  have given : Json.IsTidy ((Json.fieldOr "preview" .null fields).orElse (.object [])) := by
    exact Json.isTidy_orElse (Json.isTidy_fieldOr tidy Json.isTidy_null) Json.isTidy_empty
  have part : ∀ {name : String} {found : Option Json},
      Json.field? name ((Json.fieldOr "preview" .null fields).orElse (.object [])) = .ok found →
        (found.getD (.text "")).IsTidy := by
    intro name found looked
    cases value : (Json.fieldOr "preview" .null fields).orElse (.object []) with
    | object inner =>
        rw [value] at looked given
        cases looked
        exact Json.isTidy_fieldOr given trivial
    | _ =>
        rw [value] at looked
        cases looked
  exact ⟨part first, part second⟩

theorem isTidy_readDependencies {dependencies : Option (List Json)}
    (tidy : Json.IsTidy (.object fields)) (read : readDependencies fields = .ok dependencies) :
    ∀ list, dependencies = some list → list ≠ [] ∧ ∀ value ∈ list, value.IsTidy := by
  unfold readDependencies at read
  dsimp only at read
  split at read
  · rename_i filled
    obtain ⟨items, listed, read⟩ := bind_eq_ok_iff.mp read
    cases read
    rintro _ ⟨⟩
    constructor
    · intro empty
      cases value : Json.fieldOr "dependencies" .null fields with
      | text content =>
          rw [value] at filled listed
          cases listed
          simp [Json.isFilled] at filled empty
          exact filled empty
      | torn codes =>
          rw [value] at filled listed
          cases listed
          simp [Json.isFilled] at filled empty
          exact filled empty
      | array values =>
          rw [value] at filled listed
          cases listed
          rw [empty] at filled
          cases filled
      | object rows =>
          rw [value] at filled listed
          cases listed
          simp [Json.isFilled] at filled empty
          exact filled empty
      | _ =>
          rw [value] at listed
          cases listed
    · exact Json.isTidy_items (Json.isTidy_fieldOr tidy Json.isTidy_null) listed
  · cases read
    intro list absent
    cases absent

theorem isTidy_ofJson {document : Json} {step : Step} (tidy : document.IsTidy)
    (read : Step.ofJson document = .ok step) : step.IsTidy := by
  obtain ⟨fields, given, rest⟩ := bind_eq_ok_iff.mp read
  obtain rfl := Json.fields_eq_ok given
  clear read given
  obtain ⟨id, hasId, rest⟩ := bind_eq_ok_iff.mp rest
  obtain ⟨file, hasFile, rest⟩ := bind_eq_ok_iff.mp rest
  obtain ⟨lineValue, hasLine, rest⟩ := bind_eq_ok_iff.mp rest
  obtain ⟨line, lineRead, rest⟩ := bind_eq_ok_iff.mp rest
  obtain ⟨column, columnRead, rest⟩ := bind_eq_ok_iff.mp rest
  obtain ⟨ruleId, hasRule, rest⟩ := bind_eq_ok_iff.mp rest
  obtain ⟨severityValue, _, rest⟩ := bind_eq_ok_iff.mp rest
  obtain ⟨severity, _, rest⟩ := bind_eq_ok_iff.mp rest
  obtain ⟨actionValue, hasAction, rest⟩ := bind_eq_ok_iff.mp rest
  obtain ⟨action, actionRead, rest⟩ := bind_eq_ok_iff.mp rest
  obtain ⟨confidenceValue, hasConfidence, rest⟩ := bind_eq_ok_iff.mp rest
  obtain ⟨confidence, confidenceRead, rest⟩ := bind_eq_ok_iff.mp rest
  obtain ⟨preview, previewRead, rest⟩ := bind_eq_ok_iff.mp rest
  obtain ⟨dependencies, dependenciesRead, rest⟩ := bind_eq_ok_iff.mp rest
  cases rest
  have zero : Json.IsTidy (.integer 0) := Json.fewDigits_small (by decide)
  obtain ⟨before, after⟩ := isTidy_readPreview tidy previewRead
  exact {
    id := Json.isTidy_required tidy hasId
    file := Json.isTidy_required tidy hasFile
    line := Json.fewDigits_toInteger (Json.isTidy_required tidy hasLine) lineRead
    column := Json.fewDigits_toInteger (Json.isTidy_fieldOr tidy zero) columnRead
    ruleId := Json.isTidy_required tidy hasRule
    action := FixAction.isTidy_ofJson (Json.isTidy_required tidy hasAction) actionRead
    confidence := Json.canonical_toReal (Json.isTidy_required tidy hasConfidence) confidenceRead
    before
    after
    dependencies := isTidy_readDependencies tidy dependenciesRead }

end Step

/-! ## Filters -/

/-- Rules that were read and can be written are written as a list, or not at all. -/
theorem RuleList.writes_of_toField {value : Json} {name : String} {fields : List (String × Json)}
    (tidy : value.IsTidy) (written : (RuleList.given value).toField name = .ok fields) :
    ∃ shown, (RuleList.given value).Writes shown := by
  by_cases given : value = .null
  · exact ⟨value, RuleList.writes_given (.inl given) tidy⟩
  · obtain ⟨shown, found, _⟩ := bind_eq_ok_iff.mp written
    rw [RuleList.toJson?, if_neg given] at found
    obtain ⟨items, listed, _⟩ := bind_eq_ok_iff.mp found
    have members := Json.isTidy_items tidy listed
    exact ⟨.array items, RuleList.toField_of_items given listed members, .inr ⟨items, rfl⟩,
      by rwa [Json.IsTidy, Json.areTidy_iff]⟩

theorem Filters.writes_of_toJson {document shown : Json} {filters : Filters}
    (tidy : document.IsTidy) (read : Filters.ofJson document = .ok filters)
    (written : filters.toJson = .ok shown) :
    ∃ included excluded most, filters.Writes included excluded most := by
  obtain ⟨fields, given, rest⟩ := bind_eq_ok_iff.mp read
  obtain rfl := Json.fields_eq_ok given
  cases rest
  obtain ⟨_, first, written⟩ := bind_eq_ok_iff.mp written
  obtain ⟨_, second, _⟩ := bind_eq_ok_iff.mp written
  have part : ∀ name, (Json.fieldOr name .null fields).IsTidy :=
    fun name => Json.isTidy_fieldOr tidy Json.isTidy_null
  obtain ⟨included, writesIncluded⟩ := RuleList.writes_of_toField (part "include") first
  obtain ⟨excluded, writesExcluded⟩ := RuleList.writes_of_toField (part "exclude") second
  exact ⟨included, excluded, _, writesIncluded, writesExcluded, rfl, part "maxChanges"⟩

/-! ## Summaries -/

/-- Whether a field is an object where it holds anything. -/
def Json.IsTableField (name : String) (fields : List (String × Json)) : Prop :=
  (fieldOr name .null fields).isFilled = true → ∃ rows, fieldOr name .null fields = .object rows

namespace PlanSummary

variable {fields : List (String × Json)}

theorem tableField_eq_ok {name : String} (start : List (String × Json)) {table : Table}
    (tidy : Json.IsTidy (.object fields)) (known : Json.IsTidy (.object start))
    (isTable : Json.IsTableField name fields)
    (read : tableField name (Table.ofNames start) fields = .ok table) :
    ∃ rows more, table = Table.ofNames rows ∧ Json.IsTidy (.object rows) ∧
      rows.map Prod.fst = start.map Prod.fst ++ more := by
  have given : ∃ rows, (Json.fieldOr name .null fields).orElse (.object []) = .object rows := by
    rw [Json.orElse]
    split
    · rename_i filled
      exact isTable filled
    · exact ⟨[], rfl⟩
  obtain ⟨rows, given⟩ := given
  have rowsTidy : Json.IsTidy (.object rows) := by
    rw [← given]
    exact Json.isTidy_orElse (Json.isTidy_fieldOr tidy Json.isTidy_null) Json.isTidy_empty
  rw [Json.IsTidy, Json.haveTidyValues_iff] at rowsTidy
  have tidyRows : ∀ field ∈ rows, Json.IsName field.1 ∧ field.2.IsTidy := fun field member =>
    ⟨rowsTidy.1.spelled _ (List.mem_map_of_mem member), rowsTidy.2 field member⟩
  have areNames : Json.AreNames (start.map Prod.fst) := by
    rw [Json.IsTidy] at known
    exact known.1
  rw [tableField, given, Table.update_ofNames areNames rowsTidy.1.spelled] at read
  cases read
  obtain ⟨more, names⟩ := Json.map_fst_setFields start rows
  exact ⟨_, more, rfl, Json.isTidy_setFields known tidyRows, names⟩

theorem keeps_ofJson {summary : PlanSummary} (tidy : Json.IsTidy (.object fields))
    (rules : Json.IsTableField "byRule" fields) (severities : Json.IsTableField "bySeverity" fields)
    (read : PlanSummary.ofJson (.object fields) = .ok summary) : summary.Keeps := by
  obtain ⟨_, given, rest⟩ := bind_eq_ok_iff.mp read
  cases given
  obtain ⟨bySeverity, severityRead, rest⟩ := bind_eq_ok_iff.mp rest
  obtain ⟨byRule, ruleRead, rest⟩ := bind_eq_ok_iff.mp rest
  cases rest
  have zero : Json.IsTidy (.integer 0) := Json.fewDigits_small (by decide)
  have start : Json.IsTidy (.object (severityRows fun _ => .integer 0)) := by
    rw [Json.IsTidy]
    exact ⟨areNames_severityRows _, zero, zero, zero, trivial⟩
  obtain ⟨ruleRows, _, hasRules, rulesTidy, _⟩ :=
    tableField_eq_ok [] tidy Json.isTidy_empty rules ruleRead
  exact {
    totalViolations := Json.isTidy_fieldOr tidy zero
    addressableViolations := Json.isTidy_fieldOr tidy zero
    filesAffected := Json.isTidy_fieldOr tidy zero
    byRule := ⟨ruleRows, hasRules, rulesTidy⟩
    bySeverity := tableField_eq_ok _ tidy start severities severityRead }

end PlanSummary

/-! ## Plans -/

namespace Plan

/-- Whether the tables of a summary are objects where they hold anything. -/
def HasTables (document : Json) : Prop :=
  ∀ fields summary, document = .object fields →
    Json.lookup "summary" fields = some (.object summary) →
      Json.IsTableField "byRule" summary ∧ Json.IsTableField "bySeverity" summary

theorem HasTables.inner {fields inner : List (String × Json)} (tables : HasTables (.object fields))
    (given : (Json.fieldOr "summary" .null fields).orElse (.object []) = .object inner) :
    Json.IsTableField "byRule" inner ∧ Json.IsTableField "bySeverity" inner := by
  rw [Json.orElse] at given
  split at given
  · rename_i filled
    rw [Json.fieldOr] at given filled
    cases found : Json.lookup "summary" fields with
    | none =>
        rw [found] at filled
        cases filled
    | some summary =>
        rw [found] at given
        obtain rfl : summary = .object inner := given
        exact tables fields inner rfl found
  · cases given
    constructor
    · intro filled
      cases filled
    · intro filled
      cases filled

theorem keeps_ofJson {fields : List (String × Json)} {shown : Json} {plan : Plan}
    (tidy : Json.IsTidy (.object fields)) (tables : HasTables (.object fields))
    (read : Plan.ofJson (.object fields) = .ok plan)
    (current : Json.same (Json.fieldOr "version" .null fields) planVersion = true)
    (written : plan.toJson = .ok shown) :
    ∃ included excluded most, plan.Keeps included excluded most := by
  have stepsTidy : ∀ step ∈ plan.steps, step.IsTidy := by
    intro step member
    obtain ⟨item, itemTidy, made⟩ := Plan.steps_read tidy read step member
    exact Step.isTidy_ofJson itemTidy made
  obtain ⟨_, given, rest⟩ := bind_eq_ok_iff.mp read
  cases given
  obtain ⟨version, hasVersion, rest⟩ := bind_eq_ok_iff.mp rest
  obtain ⟨strategy, _, rest⟩ := bind_eq_ok_iff.mp rest
  obtain ⟨filters, filtersRead, rest⟩ := bind_eq_ok_iff.mp rest
  obtain ⟨steps, stepsRead, rest⟩ := bind_eq_ok_iff.mp rest
  obtain ⟨summary, summaryRead, rest⟩ := bind_eq_ok_iff.mp rest
  cases rest
  have part : ∀ name, (Json.fieldOr name .null fields).IsTidy :=
    fun name => Json.isTidy_fieldOr tidy Json.isTidy_null
  obtain ⟨shownFilters, filtersWritten, _⟩ := bind_eq_ok_iff.mp written
  obtain ⟨included, excluded, most, writes⟩ := Filters.writes_of_toJson
    (Json.isTidy_orElse (part "config") Json.isTidy_empty) filtersRead filtersWritten
  have summaryKeeps : summary.Keeps := by
    obtain ⟨inner, isInner, _⟩ := bind_eq_ok_iff.mp summaryRead
    have isInner := Json.fields_eq_ok isInner
    have innerTidy := Json.isTidy_orElse (part "summary") Json.isTidy_empty
    rw [isInner] at innerTidy summaryRead
    have innerTables := tables.inner isInner
    exact PlanSummary.keeps_ofJson innerTidy innerTables.1 innerTables.2 summaryRead
  exact ⟨included, excluded, most, {
    steps := stepsTidy
    filters := writes
    summary := summaryKeeps
    createdAt := Json.isTidy_fieldOr tidy trivial
    version := Json.isTidy_required tidy hasVersion
    current := by rwa [Json.fieldOr, Json.required_eq_ok hasVersion] at current }⟩

/-- A plan file that is accepted, and whose plan has a digest, is rewritten
without a change of the digest: the plan that is loaded of the rewritten file has
the same document and digest, and storing it once more gives the same bytes.  Where
no file can be written, the cause is that of the writing. -/
theorem rewritten_plan_digest {session ready : Session} {source : Path} {plan : Plan}
    {text digest : String} {document : Json}
    (accepted : Plan.load source session = .ok plan ready)
    (content : session.workspace.readText source = .ok text)
    (parsed : Json.read text = .ok document) (tables : HasTables document)
    (digested : plan.digest = .ok digest) :
    ∃ written, plan.toJson = .ok written ∧
      (∀ path before after, plan.store path before = .ok () after →
        ∃ loaded later, Plan.load path after = .ok loaded later ∧
          loaded.toJson = .ok written ∧ loaded.digest = .ok digest ∧
            ∀ other start done, loaded.store other start = .ok () done →
              done.workspace.readBytes other = after.workspace.readBytes path) ∧
      ∀ path before failure after, plan.store path before = .error failure after →
        Activity.writeFile path written.pretty before = .error failure after := by
  obtain ⟨⟨_, _, found, made⟩, _⟩ := Plan.load_eq_ok accepted
  obtain rfl : _ = text := Except.ok.inj (found.symm.trans content)
  obtain ⟨fields, read, current, given⟩ := Plan.ofText_eq_ok made
  obtain rfl : _ = document := Except.ok.inj (read.symm.trans parsed)
  obtain ⟨_, input, _⟩ := bind_eq_ok_iff.mp digested
  obtain ⟨shown, written, _⟩ := bind_eq_ok_iff.mp input
  obtain ⟨included, excluded, most, keeps⟩ :=
    keeps_ofJson (Json.read_tidy read) tables given current written
  refine ⟨_, keeps.toJson, fun path before after stored => ?_,
    fun path before failure after stopped => keeps.store_error stopped⟩
  obtain ⟨later, loaded, _⟩ := keeps.load stored
  refine ⟨_, later, loaded, keeps.readBack.toJson, keeps.digest.trans digested,
    fun other start done repeated => ?_⟩
  rw [(keeps.stored stored).2]
  exact (keeps.readBack.stored repeated).2

/-- A plan file whose version is a truth value and whose rules are the letters of
a text. -/
def oddText : String :=
  "\x7b\"version\":true,\"config\":\x7b\"include\":\"ab\"\x7d," ++
    "\"summary\":\x7b\"byRule\":\x7b\"x\":2\x7d\x7d\x7d"

def oddPath : Path := ⟨.root, ["p", "plan"]⟩

def oddProject : Session where
  workspace := ⟨[(["p"], .directory), (["p", "plan"], .file (Text.encode oddText.toList) 420)]⟩
  project := ⟨.root, ["p"]⟩
  now := 0
  temporaryTag := "0"

/-- What is seen of a plan that is loaded, has a digest and is stored in its file. -/
def rewrittenView {α : Type} (path : Path) (session : Session) (look : Plan → α) : Option α :=
  match Plan.load path session with
  | .error _ _ => none
  | .ok plan ready =>
      match plan.digestInput, plan.store path ready with
      | .ok _, .ok _ _ => some (look plan)
      | _, _ => none

theorem rewrittenView_eq_some {α : Type} {path : Path} {session : Session} {look : Plan → α}
    {seen : α} (viewed : rewrittenView path session look = some seen) :
    ∃ plan ready after bytes, Plan.load path session = .ok plan ready ∧
      plan.digestInput = .ok bytes ∧ plan.store path ready = .ok () after ∧ look plan = seen := by
  unfold rewrittenView at viewed
  split at viewed
  · cases viewed
  · rename_i plan ready loaded
    split at viewed
    · rename_i bytes _ after input stored
      exact ⟨plan, ready, after, bytes, loaded, input, stored, Option.some.inj viewed⟩
    · cases viewed

theorem oddProject_rewritten :
    rewrittenView oddPath oddProject (fun plan => (plan.version, plan.filters.included)) =
      some (.boolean true, .given (.text "ab")) := by
  decide +kernel

theorem oddText_tables : ∃ document, Json.read oddText = .ok document ∧ HasTables document := by
  refine ⟨.object [("version", .boolean true), ("config", .object [("include", .text "ab")]),
    ("summary", .object [("byRule", .object [("x", .integer 2)])])], by decide +kernel, ?_⟩
  intro fields summary given found
  cases given
  cases found
  exact ⟨fun _ => ⟨_, rfl⟩, nofun⟩

theorem rewritten_plan_digest_odd :
    ∃ plan ready after loaded later digest,
      Plan.load oddPath oddProject = .ok plan ready ∧
        (plan.version, plan.filters.included) = (.boolean true, .given (.text "ab")) ∧
        plan.digest = .ok digest ∧ plan.store oddPath ready = .ok () after ∧
        Plan.load oddPath after = .ok loaded later ∧ loaded.digest = .ok digest := by
  obtain ⟨plan, ready, after, bytes, loading, input, stored, seen⟩ :=
    rewrittenView_eq_some oddProject_rewritten
  obtain ⟨document, parsed, tables⟩ := oddText_tables
  have content : oddProject.workspace.readText oddPath = .ok oddText := by decide +kernel
  obtain ⟨digest, digested⟩ := Plan.digest_of_digestInput input
  obtain ⟨_, _, rewrites, _⟩ :=
    rewritten_plan_digest loading content parsed tables digested
  obtain ⟨loaded, later, reloaded, _, same, _⟩ := rewrites _ _ _ stored
  exact ⟨plan, ready, after, loaded, later, digest, loading, seen, digested, stored, reloaded, same⟩

end Plan

end Restyle
