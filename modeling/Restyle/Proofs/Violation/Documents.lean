import Restyle.Proofs.Plan.Resolving
import Restyle.Proofs.Plan.Rewriting
import Restyle.Proofs.Violation.Reading

/-!
# Violations that are read back

Reading a record settles its rule: the identifier holds something, and a key that holds
nothing is all that the identifier has beside the family.  A settled violation is read
back from its document.  The text of a report is read back as well, in whatever form it
is written, as long as no line and no column has more digits than can be read.
-/

namespace Restyle

variable {violation : Violation} {violations : List Violation} {record document : Json}
  {fields : List (String × Json)} {ruleId ruleKey : Json} {text : String}

namespace Violation

/-! ## Rules -/

/-- Whether a rule is as reading leaves it. -/
structure IsSettled (ruleId ruleKey : Json) : Prop where
  filled : ruleId.isFilled = true
  key : ruleKey.isFilled = true ∨ ∃ key, ruleKeyOf ruleId = .ok key ∧ ruleKey = .text key

theorem isFilled_rule (key : String) : (Json.text (ruleFamily ++ key)).isFilled = true := by
  simp [Json.isFilled, ruleFamily]

theorem isSettled_of_readRule (read : readRule fields = .ok (ruleId, ruleKey)) :
    IsSettled ruleId ruleKey := by
  unfold readRule at read
  dsimp only at read
  generalize (Json.fieldOr "ruleKey" .null fields).orElse (.text "") = given at read
  have named : ((Json.fieldOr "ruleId" .null fields).orElse
      (.text (ruleFamily ++ given.shown))).isFilled = true := by
    rw [Json.orElse]
    split
    · assumption
    · exact isFilled_rule given.shown
  split at read
  · rename_i filled
    cases read
    exact ⟨named, Or.inl filled⟩
  · obtain ⟨key, known, rest⟩ := bind_eq_ok_iff.mp read
    cases rest
    exact ⟨named, Or.inr ⟨key, known, rfl⟩⟩

theorem readRule_of_settled (settled : IsSettled ruleId ruleKey)
    (id : Json.fieldOr "ruleId" .null fields = ruleId)
    (key : Json.fieldOr "ruleKey" .null fields = ruleKey) :
    readRule fields = .ok (ruleId, ruleKey) := by
  unfold readRule
  rw [id, key]
  dsimp only
  rw [Json.orElse, Json.orElse, if_pos settled.filled]
  cases filled : ruleKey.isFilled with
  | true =>
      rw [if_pos rfl, if_pos filled]
      rfl
  | false =>
      rcases settled.key with other | ⟨made, known, rfl⟩
      · cases filled.symm.trans other
      · exact bind_eq_ok_iff.mpr ⟨made, known, rfl⟩

/-! ## Records -/

/-- The fields of the document of a violation. -/
def toFields (violation : Violation) : List (String × Json) :=
  [("ruleId", violation.ruleId), ("ruleKey", violation.ruleKey),
      ("severity", .text violation.severity.name), ("message", violation.message),
      ("filePath", violation.filePath), ("line", .integer violation.line),
      ("column", .integer violation.column)] ++
    optionalField "className" violation.className ++ optionalField "note" violation.note ++
    optionalField "context" violation.context

theorem toJson_eq (violation : Violation) : violation.toJson = .object violation.toFields := rfl

theorem fieldOr_optional (violation : Violation) :
    Json.fieldOr "className" .null violation.toFields = violation.className ∧
      Json.fieldOr "note" .null violation.toFields = violation.note ∧
        Json.fieldOr "context" .null violation.toFields = violation.context := by
  unfold toFields optionalField
  by_cases first : violation.className = .null <;> by_cases second : violation.note = .null <;>
    by_cases third : violation.context = .null <;>
    simp [first, second, third, Json.fieldOr, Json.lookup]

theorem ofFields_toFields (settled : IsSettled violation.ruleId violation.ruleKey) :
    ofFields violation.toFields = .ok violation := by
  obtain ⟨className, note, context⟩ := violation.fieldOr_optional
  unfold ofFields
  refine bind_eq_ok_iff.mpr ⟨_, readRule_of_settled settled rfl rfl, ?_⟩
  refine bind_eq_ok_iff.mpr ⟨violation.severity, violation.severity.ofJson_name, ?_⟩
  refine bind_eq_ok_iff.mpr ⟨violation.filePath, rfl, ?_⟩
  refine bind_eq_ok_iff.mpr ⟨.integer violation.line, rfl, ?_⟩
  refine bind_eq_ok_iff.mpr ⟨violation.line, rfl, ?_⟩
  refine bind_eq_ok_iff.mpr ⟨violation.column, rfl, ?_⟩
  rw [className, note, context]
  rfl

theorem isSettled_of_ofFields (read : ofFields fields = .ok violation) :
    IsSettled violation.ruleId violation.ruleKey := by
  obtain ⟨⟨ruleId, ruleKey⟩, rule, rest⟩ := bind_eq_ok_iff.mp read
  obtain ⟨_, _, rest⟩ := bind_eq_ok_iff.mp rest
  obtain ⟨_, _, rest⟩ := bind_eq_ok_iff.mp rest
  obtain ⟨_, _, rest⟩ := bind_eq_ok_iff.mp rest
  obtain ⟨_, _, rest⟩ := bind_eq_ok_iff.mp rest
  obtain ⟨_, _, rest⟩ := bind_eq_ok_iff.mp rest
  cases rest
  exact isSettled_of_readRule rule

/-! ## Digits -/

/-- Whether the line and the column of a violation have digits that can be read. -/
def HasReadablePlace (violation : Violation) : Prop :=
  HasFewDigits violation.line ∧ HasFewDigits violation.column

/-- Of a value that was read no longer line or column can be made. -/
theorem hasReadablePlace_of_ofJson (tidy : record.IsTidy) (read : ofJson record = .ok violation) :
    violation.HasReadablePlace := by
  obtain ⟨fields, given, rest⟩ := bind_eq_ok_iff.mp read
  obtain rfl := Json.fields_eq_ok given
  obtain ⟨_, _, rest⟩ := bind_eq_ok_iff.mp rest
  obtain ⟨_, _, rest⟩ := bind_eq_ok_iff.mp rest
  obtain ⟨_, _, rest⟩ := bind_eq_ok_iff.mp rest
  obtain ⟨shownLine, hasLine, rest⟩ := bind_eq_ok_iff.mp rest
  obtain ⟨line, lineRead, rest⟩ := bind_eq_ok_iff.mp rest
  obtain ⟨column, columnRead, rest⟩ := bind_eq_ok_iff.mp rest
  cases rest
  have none : HasFewDigits 0 := Json.fewDigits_small (by decide)
  have zero : Json.IsTidy (.integer 0) := none
  exact ⟨Json.fewDigits_toInteger (Json.isTidy_required tidy hasLine) lineRead,
    Json.fewDigits_toInteger (Json.isTidy_fieldOr tidy zero) columnRead⟩

theorem isTidy_recordsOf {records : List Json} (tidy : document.IsTidy)
    (given : recordsOf document = .ok records) : ∀ record ∈ records, record.IsTidy := by
  cases document with
  | array items =>
      cases given
      rw [Json.IsTidy] at tidy
      exact Json.areTidy_iff.mp tidy
  | object fields =>
      rw [recordsOf] at given
      split at given
      · rename_i items listed
        cases given
        exact Json.isTidy_items
          (Json.isTidy_orElse (Json.isTidy_fieldOr tidy Json.isTidy_null)
            Json.isTidy_emptyArray) listed
      · cases given
  | _ => cases given

theorem hasReadablePlace_of_ofText (made : ofText text = .ok violations) :
    ∀ violation ∈ violations, violation.HasReadablePlace := by
  obtain ⟨document, records, read, given, accepted⟩ := ofText_eq_ok_iff.mp made
  have tidy := isTidy_recordsOf (Json.read_tidy read) given
  intro violation member
  obtain ⟨record, among, found⟩ := (mem_of_mapM (mapM_eq_ok.mpr accepted)).2 violation member
  exact hasReadablePlace_of_ofJson (tidy record among) found

/-! ## Reports -/

/-- Whether the fields of a violation that hold text are texts, those that may be absent
if they are there, and the identifier and the key of the rule hold something. -/
structure IsWorded (violation : Violation) : Prop extends violation.IsTextual where
  ruleIdFilled : violation.ruleId.isFilled = true
  ruleKeyFilled : violation.ruleKey.isFilled = true
  message : ∃ text, violation.message = .text text
  context : violation.context.IsOptionalText

theorem isTidy_of_isOptionalText {value : Json} (optional : value.IsOptionalText) :
    value.IsTidy := by
  rcases optional with rfl | isText
  · trivial
  · exact Json.isTidy_of_isText isText

namespace IsWorded

theorem isSettled (worded : violation.IsWorded) : IsSettled violation.ruleId violation.ruleKey :=
  ⟨worded.ruleIdFilled, Or.inl worded.ruleKeyFilled⟩

theorem isTidy_toJson (worded : violation.IsWorded) (readable : violation.HasReadablePlace) :
    violation.toJson.IsTidy := by
  have line : Json.IsTidy (.integer violation.line) := readable.1
  have column : Json.IsTidy (.integer violation.column) := readable.2
  rw [toJson_eq, Json.IsTidy, Json.haveTidyValues_iff]
  constructor
  · apply Json.areNames_plain
    unfold toFields optionalField
    split <;> split <;> split <;> simp [Text.spellingMark]
  · unfold toFields
    simp only [List.mem_append, or_imp, forall_and]
    refine ⟨⟨⟨?_, fun field => ?_⟩, fun field => ?_⟩, fun field => ?_⟩
    · simp only [List.forall_mem_cons, List.not_mem_nil, false_implies, implies_true, and_true]
      exact ⟨Json.isTidy_of_isText worded.ruleId, Json.isTidy_of_isText worded.ruleKey, trivial,
        Json.isTidy_of_isText worded.message, Json.isTidy_of_isText worded.filePath, line, column⟩
    · exact isTidy_of_mem_optionalField (isTidy_of_isOptionalText worded.className)
    · exact isTidy_of_mem_optionalField (isTidy_of_isOptionalText worded.note)
    · exact isTidy_of_mem_optionalField (isTidy_of_isOptionalText worded.context)

end IsWorded

/-- The documents under which violations are reported: a list of their records, or an
object with the list. -/
inductive Reports (violations : List Violation) : Json → Prop where
  | bare : Reports violations (.array (violations.map toJson))
  | named : Reports violations (.object [("violations", .array (violations.map toJson))])

theorem Reports.isReport (reports : Reports violations document) :
    IsReport document (violations.map toJson) := by
  cases reports with
  | bare => exact .bare
  | named => exact .named rfl

theorem Reports.isTidy (reports : Reports violations document)
    (tidy : ∀ violation ∈ violations, violation.toJson.IsTidy) : document.IsTidy := by
  have records : Json.IsTidy (.array (violations.map toJson)) := by
    rw [Json.IsTidy, Json.areTidy_iff, List.forall_mem_map]
    exact tidy
  cases reports with
  | bare => exact records
  | named =>
      rw [Json.IsTidy]
      exact ⟨Json.areNames_plain (by simp [Text.spellingMark]), records, trivial⟩

/-- A report is read back from its text, in whatever form it is written, exactly when
every line and column in it can be read.  And a violation that was read from a record is
read again from its own. -/
theorem reported_violations_read_back :
    (∀ violations document escape text, (∀ violation ∈ violations, IsWorded violation) →
      Reports violations document → Json.Escapes escape → Json.Writes escape document text →
        (ofText (String.ofList text) = .ok violations ↔
          ∀ violation ∈ violations, violation.HasReadablePlace)) ∧
      ∀ fields violation, ofFields fields = .ok violation →
        ∃ written, violation.toJson = .object written ∧ ofFields written = .ok violation := by
  refine ⟨fun violations document escape text worded reports escapes written => ?_,
    fun fields violation read => ?_⟩
  · refine ⟨hasReadablePlace_of_ofText, fun readable => ?_⟩
    have tidy := reports.isTidy fun violation member =>
      (worded violation member).isTidy_toJson (readable violation member)
    refine ofText_eq_ok_iff.mpr
      ⟨document, _, written.read escapes tidy, reports.isReport.recordsOf, ?_⟩
    rw [List.forall₂_map_left_iff, List.forall₂_same]
    exact fun violation member => ofFields_toFields (worded violation member).isSettled
  · exact ⟨violation.toFields, rfl, ofFields_toFields (isSettled_of_ofFields read)⟩

def onLine (line : Int) : Violation where
  ruleId := .text "north/no-raw-palette"
  ruleKey := .text "no-raw-palette"
  severity := .warn
  message := .text ""
  filePath := .text "a.tsx"
  line := line
  column := 0
  className := .text "bg-red-500"

theorem isWorded_onLine (line : Int) : (onLine line).IsWorded where
  ruleId := ⟨_, rfl⟩
  ruleKey := ⟨_, rfl⟩
  filePath := ⟨_, rfl⟩
  className := Or.inr ⟨_, rfl⟩
  note := Or.inl rfl
  ruleIdFilled := rfl
  ruleKeyFilled := rfl
  message := ⟨_, rfl⟩
  context := Or.inl rfl

/-- A record whose rule has a family only, and no key. -/
def keylessFields : List (String × Json) :=
  [("ruleId", .text "north/"), ("filePath", .text "a.tsx"), ("line", .boolean true)]

theorem reported_violations_read_back_line :
    ofText (Json.pretty (.array ([onLine 7].map toJson))) = .ok [onLine 7] ∧
      ∃ violation written, ofFields keylessFields = .ok violation ∧
        violation.ruleKey = .text "" ∧ violation.toJson = .object written ∧
          ofFields written = .ok violation := by
  have worded : ∀ violation ∈ [onLine 7], violation.IsWorded :=
    List.forall_mem_singleton.mpr (isWorded_onLine 7)
  have readable : ∀ violation ∈ [onLine 7], violation.HasReadablePlace :=
    List.forall_mem_singleton.mpr
      ⟨Json.fewDigits_small (by decide), Json.fewDigits_small (by decide)⟩
  obtain ⟨reports, records⟩ := reported_violations_read_back
  refine ⟨(reports [onLine 7] _ _ _ worded .bare Json.escapes_ascii
    (Json.linesText_writes 0 _)).mpr readable, ?_⟩
  have read : ofFields keylessFields = .ok
      { ruleId := .text "north/", ruleKey := .text "", severity := .warn, message := .text "",
        filePath := .text "a.tsx", line := 1, column := 0 } := by decide
  obtain ⟨written, shown, again⟩ := records _ _ read
  exact ⟨_, written, read, rfl, shown, again⟩

/-- No text is read as a violation on a line of too many digits. -/
theorem long_line_not_read :
    (onLine leastUnwritable).IsWorded ∧ ∀ text, ofText text ≠ .ok [onLine leastUnwritable] := by
  refine ⟨isWorded_onLine _, fun text made => ?_⟩
  obtain ⟨few, _⟩ := hasReadablePlace_of_ofText made _ List.mem_cons_self
  have unwritable : isWritable leastUnwritable = false := by decide +kernel
  cases unwritable.symm.trans few.isWritable

end Violation

end Restyle
