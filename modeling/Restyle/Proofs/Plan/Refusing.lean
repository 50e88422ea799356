import Restyle.Proofs.Json.Faults
import Restyle.Proofs.Plan.Rewriting

/-!
# Plan files that are refused

A plan file that is there is loaded, or it is refused as a plan, unless its content
has one of four flaws.  An integer of the text is too long to be read; a step has an
infinite place or a vast confidence; rules were given that cannot be listed; or a lone
surrogate is left in the plan.  The last two show only when the digest is taken.  Each
flaw ends the loading with its own fault.
-/

namespace Restyle

variable {fields : List (String × Json)} {fault : Fault}

/-- Whether a fault is not that of a number out of range. -/
def Fault.IsInRange (fault : Fault) : Prop := fault.category ≠ .range

theorem Fault.IsInRange.of_category {category : Fault.Category} (same : fault.category = category)
    (other : category ≠ .range) : fault.IsInRange := by
  rwa [IsInRange, same]

theorem FailsAs.inRange {α : Type} {outcome : Except Fault α} {category : Fault.Category}
    (fails : FailsAs (fun fault => fault.category = category) outcome)
    (other : category ≠ .range) : FailsAs Fault.IsInRange outcome :=
  fails.mono fun _ same => .of_category same other

/-! ## Steps -/

namespace Step

/-- Whether reading the fields of a step stops at a number out of range. -/
def Overflows (fields : List (String × Json)) (fault : Fault) : Prop :=
  (fault = .infiniteInteger ∧ Json.HasInfinitePlace fields) ∨
    (fault = .beyondReals ∧ Json.HasVastConfidence fields)

theorem readPreview_fails : FailsAs Fault.IsInRange (readPreview fields) := by
  have looked : ∀ {value : Json} {name : String}, FailsAs Fault.IsInRange (value.field? name) :=
    Json.field?_fails.inRange (by decide)
  exact looked.bind fun _ _ => looked.bind fun _ _ => .ok _

theorem readDependencies_fails : FailsAs Fault.IsInRange (readDependencies fields) := by
  unfold readDependencies
  dsimp only
  split
  · exact .bind (Json.items_fails.inRange (by decide)) fun _ _ => .ok _
  · exact .ok _

/-- The place and the confidence of a step are the only values in it that can be out of
range. -/
theorem ofJson_fails {document : Json} :
    FailsAs (fun fault => fault.IsInRange ∨
      ∃ fields, document = .object fields ∧ Overflows fields fault) (ofJson document) := by
  refine .bind ((Json.fields_fails.inRange (by decide)).mono fun _ => Or.inl) fun fields given => ?_
  obtain rfl := Json.fields_eq_ok given
  clear given
  have absent : ∀ {name : String}, FailsAs (fun fault => fault.IsInRange ∨
      ∃ other, Json.object fields = .object other ∧ Overflows other fault)
        (Json.required name fields) :=
    (Json.required_fails.inRange (by decide)).mono fun _ => Or.inl
  have placed : ∀ {fault : Fault}, (fault.category = .kind ∨ fault.category = .content) ∨
      fault = .infiniteInteger ∧ Json.HasInfinitePlace fields →
        fault.IsInRange ∨
          ∃ other, Json.object fields = .object other ∧ Overflows other fault := by
    rintro fault ((kind | content) | infinite)
    · exact Or.inl (.of_category kind (by decide))
    · exact Or.inl (.of_category content (by decide))
    · exact Or.inr ⟨fields, rfl, Or.inl infinite⟩
  refine absent.bind fun id _ => absent.bind fun file _ => absent.bind fun line hasLine => ?_
  refine .bind ((Json.place_fails (Or.inl rfl) fun _ => Json.required_eq_ok hasLine).mono
    fun _ => placed) fun _ _ => ?_
  refine .bind (Json.column_fails.mono fun _ => placed) fun _ _ => ?_
  refine absent.bind fun _ _ => absent.bind fun _ _ => ?_
  refine .bind ((Severity.ofJson_fails.inRange (by decide)).mono fun _ => Or.inl) fun _ _ => ?_
  refine absent.bind fun _ _ => .bind (FixAction.ofJson_fails.mono fun fault sort => ?_)
    fun _ _ => ?_
  · rcases sort with absence | operation | content
    · exact Or.inl (.of_category absence (by decide))
    · exact Or.inl (.of_category operation (by decide))
    · exact Or.inl (.of_category content (by decide))
  refine absent.bind fun confidence hasConfidence => ?_
  refine .bind (Json.toReal_fails.mono fun fault sort => ?_) fun _ _ => ?_
  · rcases sort with (kind | content) | ⟨rfl, vast⟩
    · exact Or.inl (.of_category kind (by decide))
    · exact Or.inl (.of_category content (by decide))
    · exact Or.inr ⟨fields, rfl,
        Or.inr ⟨rfl, confidence, Json.required_eq_ok hasConfidence, vast⟩⟩
  refine .bind (readPreview_fails.mono fun _ inRange => Or.inl inRange) fun _ _ => ?_
  exact .bind (readDependencies_fails.mono fun _ inRange => Or.inl inRange) fun _ _ => .ok _

end Step

/-! ## Summaries and filters -/

namespace Table

theorem cells_fails {index : Nat} {row : Json} : FailsAs Fault.IsInRange (cells index row) := by
  unfold cells
  split
  · exact .error nofun
  · split
    · exact .ok _
    · exact .error nofun
  · exact .error nofun

theorem setRows_fails {table : Table} {index : Nat} {rows : List Json} :
    FailsAs Fault.IsInRange (setRows table index rows) := by
  induction rows generalizing table index with
  | nil => exact .ok table
  | cons row rows induction => exact .bind cells_fails fun _ _ => induction

theorem update_fails {table : Table} {value : Json} :
    FailsAs Fault.IsInRange (update table value) := by
  have rows : FailsAs Fault.IsInRange (value.items >>= setRows table 0) :=
    .bind (Json.items_fails.inRange (by decide)) fun _ _ => setRows_fails
  cases value with
  | object inner => exact .ok _
  | _ => exact rows

end Table

theorem PlanSummary.ofJson_fails {document : Json} :
    FailsAs Fault.IsInRange (PlanSummary.ofJson document) := by
  refine .bind (Json.fields_fails.inRange (by decide)) fun _ _ => ?_
  exact .bind Table.update_fails fun _ _ => .bind Table.update_fails fun _ _ => .ok _

theorem Filters.ofJson_fails {document : Json} :
    FailsAs Fault.IsInRange (Filters.ofJson document) :=
  .bind (Json.fields_fails.inRange (by decide)) fun _ _ => .ok _

/-- Whether rules were given that cannot be listed. -/
def RuleList.IsUnlisted (rules : RuleList) (kind : Json.Kind) : Prop :=
  ∃ value, rules = .given value ∧ value ≠ .null ∧ ¬ value.HoldsItems ∧ value.kind = kind

/-- Rules that a document gives are not written only if they cannot be listed. -/
theorem RuleList.toField_eq_error_iff {value : Json} (tidy : value.IsTidy) {name : String} :
    (RuleList.given value).toField name = .error fault ↔
      ∃ kind, fault = .notIterable kind ∧ (RuleList.given value).IsUnlisted kind := by
  by_cases given : value = .null
  · subst given
    constructor
    · intro stopped
      cases stopped
    · rintro ⟨_, _, _, same, other, _⟩
      cases same
      exact absurd rfl other
  cases listed : value.items with
  | ok items =>
      rw [RuleList.toField_of_items given listed (Json.isTidy_items tidy listed)]
      constructor
      · rintro ⟨⟩
      · rintro ⟨_, _, _, same, _, single, _⟩
        cases same
        exact absurd (Json.exists_items_iff.mp ⟨items, listed⟩) single
  | error other =>
      obtain ⟨single, rfl⟩ := Json.items_eq_error_iff.mp listed
      have stops : (RuleList.given value).toField name = .error (.notIterable value.kind) := by
        refine bind_eq_error_iff.mpr (Or.inl ?_)
        rw [RuleList.toJson?, if_neg given]
        exact bind_eq_error_iff.mpr (Or.inl listed)
      rw [stops, Except.error.injEq]
      constructor
      · rintro rfl
        exact ⟨_, rfl, value, rfl, given, single, rfl⟩
      · rintro ⟨_, rfl, _, same, _, _, rfl⟩
        cases same
        rfl

/-- The rules of filters that were read are written in turn, and nothing else in them
keeps them from being written. -/
theorem Filters.toJson_eq_error_iff {included excluded most : Json}
    (tidyIncluded : included.IsTidy) (tidyExcluded : excluded.IsTidy) (tidyMost : most.IsTidy) :
    (Filters.ofValues included excluded most).toJson = .error fault ↔
      ∃ kind, fault = .notIterable kind ∧
        ((RuleList.given included).IsUnlisted kind ∨
          (∀ other, ¬ (RuleList.given included).IsUnlisted other) ∧
            (RuleList.given excluded).IsUnlisted kind) := by
  unfold Filters.toJson Filters.ofValues
  constructor
  · intro stopped
    rcases bind_eq_error_iff.mp stopped with first | ⟨shown, listed, rest⟩
    · obtain ⟨kind, rfl, unlisted⟩ := (RuleList.toField_eq_error_iff tidyIncluded).mp first
      exact ⟨kind, rfl, Or.inl unlisted⟩
    · rcases bind_eq_error_iff.mp rest with second | ⟨_, _, last⟩
      · obtain ⟨kind, rfl, unlisted⟩ := (RuleList.toField_eq_error_iff tidyExcluded).mp second
        refine ⟨kind, rfl, Or.inr ⟨fun other given => ?_, unlisted⟩⟩
        have fails : (RuleList.given included).toField "include" = .error _ :=
          (RuleList.toField_eq_error_iff tidyIncluded).mpr ⟨other, rfl, given⟩
        cases listed.symm.trans fails
      · rcases bind_eq_error_iff.mp last with fails | ⟨_, _, ⟨⟩⟩
        cases (Json.asWritable_of_tidy tidyMost).symm.trans fails
  · rintro ⟨kind, rfl, unlisted | ⟨listed, unlisted⟩⟩
    · refine bind_eq_error_iff.mpr (Or.inl ?_)
      exact (RuleList.toField_eq_error_iff tidyIncluded).mpr ⟨kind, rfl, unlisted⟩
    · cases shown : (RuleList.given included).toField "include" with
      | error other =>
          obtain ⟨kind, _, given⟩ := (RuleList.toField_eq_error_iff tidyIncluded).mp shown
          exact absurd given (listed kind)
      | ok written =>
          refine bind_eq_error_iff.mpr (Or.inr ⟨written, rfl, bind_eq_error_iff.mpr (Or.inl ?_)⟩)
          exact (RuleList.toField_eq_error_iff tidyExcluded).mpr ⟨kind, rfl, unlisted⟩

/-! ## Plans -/

namespace Plan

/-- Whether a step of a plan overflows. -/
def Overflows (fields : List (String × Json)) (fault : Fault) : Prop :=
  ∃ items step, Json.lookup "steps" fields = some (.array items) ∧ .object step ∈ items ∧
    Step.Overflows step fault

theorem readSteps_fails :
    FailsAs (fun fault => fault.IsInRange ∨ Overflows fields fault)
      (readSteps ((Json.fieldOr "steps" .null fields).orElse (.array []))) := by
  refine .bind ((Json.items_fails.inRange (by decide)).mono fun _ => Or.inl) fun items listed => ?_
  refine .mapM fun item member => Step.ofJson_fails.mono fun fault sort => ?_
  rcases sort with inRange | ⟨step, rfl, overflows⟩
  · exact Or.inl inRange
  refine Or.inr ⟨items, step, ?_, member, overflows⟩
  have given := Json.eq_array_of_mem_items listed member
  rw [Json.orElse] at given
  split at given
  · refine Json.lookup_of_fieldOr given ?_
    rintro ⟨⟩
  · cases given
    cases member

theorem readStrategy_fails {value : Json} : FailsAs Fault.IsInRange (readStrategy value) := by
  unfold readStrategy
  split
  · exact .ok _
  · exact .error nofun

theorem ofJson_fails :
    FailsAs (fun fault => fault.IsInRange ∨ Overflows fields fault)
      (Plan.ofJson (.object fields)) := by
  refine .bind (.ok fields) fun _ given => ?_
  cases given
  refine .bind ((Json.required_fails.inRange (by decide)).mono fun _ => Or.inl) fun _ _ => ?_
  refine .bind (readStrategy_fails.mono fun _ inRange => Or.inl inRange) fun _ _ => ?_
  refine .bind (Filters.ofJson_fails.mono fun _ inRange => Or.inl inRange) fun _ _ => ?_
  refine .bind readSteps_fails fun _ _ => ?_
  exact .bind (PlanSummary.ofJson_fails.mono fun _ inRange => Or.inl inRange) fun _ _ => .ok _

/-- Whether a lone surrogate stands in the document of a plan. -/
def IsTorn (plan : Plan) : Prop :=
  ∃ document, plan.toJson = .ok document ∧ document.HoldsSurrogate

/-- What the content of a plan file may have in it for which the file is not refused
as a plan. -/
inductive Flaw (text : String) : Fault → Prop where
  /-- An integer has too many digits to be read. -/
  | longInteger {digits : Nat} (read : Json.read text = .error (.tooLong digits)) :
      Flaw text (.integerTooLong digits)
  /-- The fields are read up to a number of a step that is out of range. -/
  | overflow {fields : List (String × Json)} {fault : Fault}
      (read : Json.read text = .ok (.object fields))
      (current : Json.same (Json.fieldOr "version" .null fields) planVersion = true)
      (stopped : Plan.ofJson (.object fields) = .error fault) (overflows : Overflows fields fault) :
      Flaw text fault
  /-- The plan is read, and the rules to choose cannot be listed. -/
  | included {plan : Plan} {kind : Json.Kind} (made : ofText text = .ok plan)
      (unlisted : plan.filters.included.IsUnlisted kind) : Flaw text (.notIterable kind)
  /-- The plan is read, and only the rules to leave out cannot be listed. -/
  | excluded {plan : Plan} {kind : Json.Kind} (made : ofText text = .ok plan)
      (listed : ∀ other, ¬ plan.filters.included.IsUnlisted other)
      (unlisted : plan.filters.excluded.IsUnlisted kind) : Flaw text (.notIterable kind)
  /-- The plan is read, and a lone surrogate stands in its document. -/
  | torn {plan : Plan} (made : ofText text = .ok plan) (isTorn : plan.IsTorn) :
      Flaw text .unencodable

variable {text : String} {plan : Plan}

theorem Overflows.category (overflows : Overflows fields fault) : fault.category = .range := by
  obtain ⟨_, _, _, _, ⟨rfl, _⟩ | ⟨rfl, _⟩⟩ := overflows <;> rfl

theorem ofText_fails :
    FailsAs (fun failure => (∃ cause, failure = .planFormat cause) ∨
      ∃ fault, failure = .value fault ∧ Flaw text fault) (ofText text) := by
  unfold ofText readDocument
  cases read : Json.read text with
  | error error =>
      cases error with
      | tooLong digits => exact .error (Or.inr ⟨_, rfl, .longInteger read⟩)
      | malformed cause line column offset => exact .error (Or.inl ⟨_, rfl⟩)
  | ok document =>
      refine .bind (.ok document) fun _ given => ?_
      cases given
      cases document with
      | object fields =>
          dsimp only
          split
          · rename_i current
            cases stopped : Plan.ofJson (.object fields) with
            | ok plan => exact .ok plan
            | error fault =>
                refine .error ?_
                unfold fieldFailure
                split
                · rename_i range
                  rcases ofJson_fails fault stopped with inRange | overflows
                  · exact absurd range inRange
                  · exact Or.inr ⟨fault, rfl, .overflow read current stopped overflows⟩
                · exact Or.inl ⟨_, rfl⟩
          · exact .error (Or.inl ⟨_, rfl⟩)
      | _ => exact .error (Or.inl ⟨_, rfl⟩)

theorem ofText_of_long {digits : Nat} (read : Json.read text = .error (.tooLong digits)) :
    ofText text = .error (.value (.integerTooLong digits)) := by
  unfold ofText readDocument
  rw [read]
  rfl

theorem ofText_of_overflow (read : Json.read text = .ok (.object fields))
    (current : Json.same (Json.fieldOr "version" .null fields) planVersion = true)
    (stopped : Plan.ofJson (.object fields) = .error fault) (overflows : Overflows fields fault) :
    ofText text = .error (.value fault) := by
  unfold ofText readDocument
  rw [read]
  show (if Json.same (Json.fieldOr "version" .null fields) planVersion then _ else _) = _
  rw [if_pos current, stopped]
  show Except.error (fieldFailure fault) = _
  rw [fieldFailure, if_pos overflows.category]

theorem filters_of_ofText (made : ofText text = .ok plan) :
    ∃ included excluded most, plan.filters = .ofValues included excluded most ∧
      included.IsTidy ∧ excluded.IsTidy ∧ most.IsTidy := by
  obtain ⟨fields, read, _, given⟩ := ofText_eq_ok made
  have tidy := Json.read_tidy read
  obtain ⟨_, known, rest⟩ := bind_eq_ok_iff.mp given
  cases known
  obtain ⟨_, _, rest⟩ := bind_eq_ok_iff.mp rest
  obtain ⟨_, _, rest⟩ := bind_eq_ok_iff.mp rest
  obtain ⟨filters, filtersRead, rest⟩ := bind_eq_ok_iff.mp rest
  obtain ⟨_, _, rest⟩ := bind_eq_ok_iff.mp rest
  obtain ⟨_, _, rest⟩ := bind_eq_ok_iff.mp rest
  cases rest
  obtain ⟨inner, isInner, rest⟩ := bind_eq_ok_iff.mp filtersRead
  cases rest
  have config : ((Json.fieldOr "config" .null fields).orElse (.object [])).IsTidy :=
    Json.isTidy_orElse (Json.isTidy_fieldOr tidy Json.isTidy_null) Json.isTidy_empty
  rw [Json.fields_eq_ok isInner] at config
  have part : ∀ name, (Json.fieldOr name .null inner).IsTidy :=
    fun _ => Json.isTidy_fieldOr config Json.isTidy_null
  exact ⟨_, _, _, rfl, part "include", part "exclude", part "maxChanges"⟩

/-- A plan has no document only where its filters are not written. -/
theorem toJson_eq_error_iff :
    plan.toJson = .error fault ↔ plan.filters.toJson = .error fault := by
  unfold toJson
  rw [bind_eq_error_iff]
  constructor
  · rintro (filters | ⟨_, _, ⟨⟩⟩)
    exact filters
  · exact Or.inl

theorem digestInput_eq_error_iff :
    plan.digestInput = .error fault ↔
      plan.toJson = .error fault ∨ fault = .unencodable ∧ plan.IsTorn := by
  unfold digestInput
  rw [bind_eq_error_iff]
  refine or_congr_right ⟨?_, ?_⟩
  · rintro ⟨document, written, stopped⟩
    split at stopped
    · cases stopped
    · rename_i torn
      cases stopped
      exact ⟨rfl, document, written,
        Json.isEncodable_eq_false_iff.mp (Bool.eq_false_of_not_eq_true torn)⟩
  · rintro ⟨rfl, document, written, holds⟩
    refine ⟨document, written, ?_⟩
    rw [Json.isEncodable_eq_false_iff.mpr holds]
    rfl

/-- The digest of a plan that was read is missing only where its rules cannot be listed,
or else where it cannot be written in bytes. -/
theorem digest_eq_error_iff (made : ofText text = .ok plan) :
    plan.digest = .error fault ↔
      (∃ kind, fault = .notIterable kind ∧
        (plan.filters.included.IsUnlisted kind ∨
          (∀ other, ¬ plan.filters.included.IsUnlisted other) ∧
            plan.filters.excluded.IsUnlisted kind)) ∨
      fault = .unencodable ∧ plan.IsTorn := by
  obtain ⟨included, excluded, most, isFilters, tidyIncluded, tidyExcluded, tidyMost⟩ :=
    filters_of_ofText made
  have inputs : plan.digest = .error fault ↔ plan.digestInput = .error fault := by
    unfold digest
    rw [bind_eq_error_iff]
    constructor
    · rintro (input | ⟨_, _, ⟨⟩⟩)
      exact input
    · exact Or.inl
  rw [inputs, digestInput_eq_error_iff, toJson_eq_error_iff, isFilters]
  exact or_congr_left (Filters.toJson_eq_error_iff tidyIncluded tidyExcluded tidyMost)

/-! ## Loading -/

/-- Whether bytes are the text of an object whose version is that of plans. -/
def IsDocument (bytes : List UInt8) : Prop :=
  ∃ fields, Text.ReadsAs bytes (.ok (.object fields)) ∧
    Json.same (Json.fieldOr "version" .null fields) planVersion = true

def loadDigest (path : Path) : Activity (Plan × String) := do
  let plan ← load path
  let digest ← Activity.value plan.digest
  return (plan, digest)

variable {session after : Session} {path : Path} {bytes : List UInt8} {failure : Failure}

theorem load_of_unreadable {reason : ReadFailure} (clean : path.hasNull = false)
    (present : session.workspace.readBytes path = .ok bytes)
    (content : session.workspace.readText path = .error reason) :
    load path session = .error (.planFormat (.unreadable reason)) session := by
  have there := Workspace.isMissing_of_present present content
  unfold load
  rw [Activity.bind_of_ok (Activity.readText_apply clean), content]
  simp only [there, Bool.false_eq_true, if_false]
  rfl

theorem loadDigest_of_unreadable {reason : ReadFailure} (clean : path.hasNull = false)
    (present : session.workspace.readBytes path = .ok bytes)
    (content : session.workspace.readText path = .error reason) :
    loadDigest path session = .error (.planFormat (.unreadable reason)) session :=
  Activity.bind_of_error (load_of_unreadable clean present content)

theorem load_of_stopped (clean : path.hasNull = false)
    (content : session.workspace.readText path = .ok text)
    (stopped : ofText text = .error failure) :
    load path session = .error failure session := by
  unfold load
  rw [Activity.bind_of_ok (Activity.readText_apply clean), content]
  dsimp only
  rw [stopped]
  rfl

theorem loadDigest_of_stopped (clean : path.hasNull = false)
    (content : session.workspace.readText path = .ok text)
    (stopped : ofText text = .error failure) :
    loadDigest path session = .error failure session :=
  Activity.bind_of_error (load_of_stopped clean content stopped)

theorem loadDigest_of_plan (stored : StoredAt session.workspace path plan) :
    loadDigest path session =
      match plan.digest with
      | .ok digest => .ok (plan, digest) (plan.noted path session)
      | .error fault => .error (.value fault) (plan.noted path session) := by
  unfold loadDigest
  rw [Activity.bind_of_ok (load_apply stored)]
  cases plan.digest <;> rfl

/-- A flaw of the text is what the loading ends with. -/
theorem Flaw.loadDigest (flaw : Flaw text fault) (clean : path.hasNull = false)
    (content : session.workspace.readText path = .ok text) :
    ∃ after, loadDigest path session = .error (.value fault) after := by
  have undigested : ∀ {plan : Plan}, ofText text = .ok plan → plan.digest = .error fault →
      ∃ after, Plan.loadDigest path session = .error (.value fault) after := by
    intro plan made stopped
    rw [loadDigest_of_plan ⟨clean, text, content, made⟩, stopped]
    exact ⟨_, rfl⟩
  cases flaw with
  | longInteger read => exact ⟨_, loadDigest_of_stopped clean content (ofText_of_long read)⟩
  | overflow read current stopped overflows =>
      exact ⟨_, loadDigest_of_stopped clean content
        (ofText_of_overflow read current stopped overflows)⟩
  | included made unlisted =>
      exact undigested made ((digest_eq_error_iff made).mpr (Or.inl ⟨_, rfl, Or.inl unlisted⟩))
  | excluded made listed unlisted =>
      exact undigested made
        ((digest_eq_error_iff made).mpr (Or.inl ⟨_, rfl, Or.inr ⟨listed, unlisted⟩⟩))
  | torn made isTorn =>
      exact undigested made ((digest_eq_error_iff made).mpr (Or.inr ⟨rfl, isTorn⟩))

theorem flaw_of_digest (made : ofText text = .ok plan) (stopped : plan.digest = .error fault) :
    Flaw text fault := by
  obtain ⟨_, rfl, unlisted | ⟨listed, unlisted⟩⟩ | ⟨rfl, isTorn⟩ :=
    (digest_eq_error_iff made).mp stopped
  · exact .included made unlisted
  · exact .excluded made listed unlisted
  · exact .torn made isTorn

/-- A plan file that is there is loaded with its digest, or it is refused as a plan,
unless its text has a flaw, and every flaw is what the loading ends with.  Only the text
of an object of the version of plans is loaded. -/
theorem bad_plan_refused_unless_flawed (clean : path.hasNull = false)
    (present : session.workspace.readBytes path = .ok bytes) :
    (∀ plan after, load path session = .ok plan after → IsDocument bytes) ∧
      (∀ failure after, loadDigest path session = .error failure after →
        (∃ cause, failure = .planFormat cause) ∨
          ∃ text fault, session.workspace.readText path = .ok text ∧ Flaw text fault ∧
            failure = .value fault) ∧
      ∀ text fault, session.workspace.readText path = .ok text → Flaw text fault →
        ∃ after, loadDigest path session = .error (.value fault) after := by
  refine ⟨fun plan after loaded => ?_, fun failure after stopped => ?_,
    fun text fault content flaw => flaw.loadDigest clean content⟩
  · obtain ⟨⟨_, text, content, made⟩, _⟩ := load_eq_ok loaded
    obtain ⟨fields, read, current, _⟩ := ofText_eq_ok made
    exact ⟨fields, (Workspace.readsAs_iff present).mpr ⟨text, content, read⟩, current⟩
  · cases content : session.workspace.readText path with
    | error reason =>
        cases (loadDigest_of_unreadable clean present content).symm.trans stopped
        exact Or.inl ⟨_, rfl⟩
    | ok text =>
        cases made : ofText text with
        | error other =>
            cases (loadDigest_of_stopped clean content made).symm.trans stopped
            rcases ofText_fails _ made with refused | ⟨fault, rfl, flaw⟩
            · exact Or.inl refused
            · exact Or.inr ⟨text, fault, rfl, flaw, rfl⟩
        | ok plan =>
            rw [loadDigest_of_plan ⟨clean, text, content, made⟩] at stopped
            cases digested : plan.digest with
            | ok digest =>
                rw [digested] at stopped
                cases stopped
            | error fault =>
                rw [digested] at stopped
                cases stopped
                exact Or.inr ⟨text, fault, rfl, flaw_of_digest made digested, rfl⟩

def flawedPath : Path := ⟨.root, ["p", "plan"]⟩

/-- A project with a plan file. -/
def flawedProject (text : String) : Session where
  workspace := ⟨[(["p"], .directory), (["p", "plan"], .file (Text.encode text.toList) 420)]⟩
  project := ⟨.root, ["p"]⟩
  now := 0
  temporaryTag := "0"

/-- A plan that chooses a number in place of rules. -/
def unlistedText : String :=
  "\x7b\"version\":1,\"config\":\x7b\"include\":5\x7d\x7d"

/-- A plan with a step on an infinite line. -/
def endlessText : String :=
  "\x7b\"version\":1,\"steps\":[\x7b\"id\":\"a\",\"file\":\"a\",\"line\":1e400\x7d]\x7d"

/-- A plan whose date is one half of a pair. -/
def tornText : String :=
  "\x7b\"version\":1,\"createdAt\":\"\\ud800\"\x7d"

def loadFailure (path : Path) (session : Session) : Option Failure :=
  match loadDigest path session with
  | .ok _ _ => none
  | .error failure _ => some failure

theorem loadFailure_eq_some :
    loadFailure path session = some failure ↔
      ∃ after, loadDigest path session = .error failure after := by
  unfold loadFailure
  cases loadDigest path session with
  | ok result after => simp
  | error other after => simp

theorem bad_plan_refused_unless_flawed_unlisted :
    IsDocument (Text.encode unlistedText.toList) ∧
      ∃ fault after, Flaw unlistedText fault ∧ fault = .notIterable .integer ∧
        loadDigest flawedPath (flawedProject unlistedText) = .error (.value fault) after := by
  have seen : loadFailure flawedPath (flawedProject unlistedText) =
      some (.value (.notIterable .integer)) := by decide +kernel
  have content : (flawedProject unlistedText).workspace.readText flawedPath = .ok unlistedText := by
    decide +kernel
  have present : (flawedProject unlistedText).workspace.readBytes flawedPath =
      .ok (Text.encode unlistedText.toList) := by decide +kernel
  obtain ⟨after, stopped⟩ := loadFailure_eq_some.mp seen
  obtain ⟨loads, refuses, _⟩ := bad_plan_refused_unless_flawed (by decide) present
  rcases refuses _ _ stopped with ⟨_, ⟨⟩⟩ | ⟨text, fault, again, flaw, same⟩
  cases same
  obtain rfl : unlistedText = text := Except.ok.inj (content.symm.trans again)
  have made : ∃ plan, ofText unlistedText = .ok plan := by
    cases flaw with
    | overflow _ _ _ overflows => cases overflows.category
    | included made _ => exact ⟨_, made⟩
    | excluded made _ _ => exact ⟨_, made⟩
  obtain ⟨plan, made⟩ := made
  have loaded := load_apply ⟨by decide, unlistedText, content, made⟩
  exact ⟨loads _ _ loaded, _, after, flaw, rfl, stopped⟩

/-- A plan with an infinite line is not refused as a plan. -/
theorem endless_plan_not_refused :
    ∃ after, loadDigest flawedPath (flawedProject endlessText) =
      .error (.value .infiniteInteger) after :=
  loadFailure_eq_some.mp (by decide +kernel)

example : loadFailure flawedPath (flawedProject tornText) = some (.value .unencodable) := by
  decide +kernel

end Plan

end Restyle
