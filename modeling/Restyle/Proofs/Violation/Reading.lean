import Restyle.Proofs.Json.Faults
import Restyle.Proofs.Migration.Records
import Restyle.Violation.Source

/-!
# Violations that are refused

The text of a source is read as one violation for each record, or it is refused, and a
report is refused for the first record that is no violation.  Four flaws of a text are
not refused so: an integer too long to be read, violations that cannot be listed, and,
in the first record that is no violation, an infinite place or a rule identifier that
is no text and has no key beside it.
-/

namespace Restyle

variable {fields : List (String × Json)} {fault : Fault} {record document : Json}
  {records : List Json} {violation : Violation} {violations : List Violation}
  {index : Nat} {failure : Failure} {text : String}

namespace Violation

/-! ## Records -/

/-- Whether the rule identifier of a record is no text, and there is no key. -/
def HasNamelessRule (fields : List (String × Json)) (kind : Json.Kind) : Prop :=
  ∃ rule, Json.lookup "ruleId" fields = some rule ∧ rule.isFilled = true ∧
    rule.kind = kind ∧ kind ≠ .text ∧ (Json.fieldOr "ruleKey" .null fields).isFilled = false

/-- Whether a fault in a record is one that is not reported with the record. -/
def Slips (fields : List (String × Json)) (fault : Fault) : Prop :=
  (fault = .infiniteInteger ∧ Json.HasInfinitePlace fields) ∨
    ∃ kind, fault = .noMember kind "removeprefix" ∧ HasNamelessRule fields kind

theorem Slips.unreported (slips : Slips fields fault) : isReported fault = false := by
  obtain ⟨rfl, _⟩ | ⟨kind, rfl, _⟩ := slips <;> rfl

theorem isReported_of_category (sort : fault.category = .absence ∨ fault.category = .content ∨
    fault.category = .kind) : isReported fault = true := by
  unfold isReported
  rcases sort with same | same | same <;> rw [same] <;> rfl

theorem asTextFor_fails {value : Json} {member : String} :
    FailsAs (fun fault => fault = .noMember value.kind member ∧ value.kind ≠ .text)
      (value.asTextFor member) := by
  cases value with
  | text text => exact .ok text
  | torn codes => exact .ok _
  | _ => exact .error ⟨rfl, nofun⟩

theorem readRule_fails :
    FailsAs (fun fault => ∃ kind, fault = .noMember kind "removeprefix" ∧
      HasNamelessRule fields kind) (readRule fields) := by
  unfold readRule
  dsimp only
  split
  · exact .ok _
  · rename_i unkeyed
    refine .bind (.bind (asTextFor_fails.mono ?_) fun _ _ => .ok _) fun _ _ => .ok _
    rintro _ ⟨rfl, other⟩
    have keyless : (Json.fieldOr "ruleKey" .null fields).isFilled = false := by
      cases filled : (Json.fieldOr "ruleKey" .null fields).isFilled with
      | false => rfl
      | true => simp [Json.orElse, filled] at unkeyed
    cases filled : (Json.fieldOr "ruleId" .null fields).isFilled with
    | false => simp [Json.orElse, filled, Json.kind] at other
    | true =>
        rw [Json.orElse, if_pos filled] at other ⊢
        refine ⟨_, rfl, _, Json.lookup_of_fieldOr rfl ?_, filled, rfl, other, keyless⟩
        intro absent
        rw [absent] at filled
        cases filled

/-- The rule and the place of a record are the only values in it whose faults are not
reported. -/
theorem ofFields_fails :
    FailsAs (fun fault => isReported fault = true ∨ Slips fields fault) (ofFields fields) := by
  have absent : ∀ {name : String},
      FailsAs (fun fault => isReported fault = true ∨ Slips fields fault)
        (Json.required name fields) :=
    Json.required_fails.mono fun _ absence => Or.inl (isReported_of_category (Or.inl absence))
  have placed : ∀ {fault : Fault}, (fault.category = .kind ∨ fault.category = .content) ∨
      fault = .infiniteInteger ∧ Json.HasInfinitePlace fields →
        isReported fault = true ∨ Slips fields fault := by
    rintro fault ((kind | content) | infinite)
    · exact Or.inl (isReported_of_category (Or.inr (Or.inr kind)))
    · exact Or.inl (isReported_of_category (Or.inr (Or.inl content)))
    · exact Or.inr (Or.inl infinite)
  refine .bind (readRule_fails.mono fun _ nameless => Or.inr (Or.inr nameless)) fun _ _ => ?_
  refine .bind (Severity.ofJson_fails.mono fun _ content =>
    Or.inl (isReported_of_category (Or.inr (Or.inl content)))) fun _ _ => ?_
  refine absent.bind fun _ _ => absent.bind fun line hasLine => ?_
  refine .bind ((Json.place_fails (Or.inl rfl) fun _ => Json.required_eq_ok hasLine).mono
    fun _ => placed) fun _ _ => ?_
  exact .bind (Json.column_fails.mono fun _ => placed) fun _ _ => .ok _

/-- Whether a record is no object or the fields of it are no violation. -/
def IsRefused : Json → Prop
  | .object fields => ∃ fault, ofFields fields = .error fault
  | _ => True

/-- The causes for which a record is refused. -/
inductive Refuses (index : Nat) : Json → ViolationCause → Prop where
  | notRecord {record : Json} (single : ∀ fields, record ≠ .object fields) :
      Refuses index record (.notRecord index)
  | badRecord {fields : List (String × Json)} {fault : Fault}
      (stopped : ofFields fields = .error fault) :
      Refuses index (.object fields) (.badRecord index fault)

theorem Refuses.message {cause : ViolationCause} (refuses : Refuses index record cause) :
    ∃ rest, cause.message = "Violation #" ++ toString index ++ " is " ++ rest := by
  cases refuses with
  | notRecord single =>
      have parts : " is not an object" = " is " ++ "not an object" := rfl
      refine ⟨"not an object", ?_⟩
      show "Violation #" ++ toString index ++ " is not an object" = _
      rw [parts]
      exact String.append_assoc.symm
  | @badRecord fields fault stopped =>
      have parts : " is malformed: " = " is " ++ "malformed: " := rfl
      refine ⟨"malformed: " ++ fault.message, ?_⟩
      show "Violation #" ++ toString index ++ " is malformed: " ++ fault.message = _
      rw [parts]
      simp only [String.append_assoc]

theorem exists_ofJson_iff : (∃ violation, ofJson record = .ok violation) ↔ ¬ IsRefused record := by
  cases record with
  | object fields =>
      show (∃ violation, ofFields fields = .ok violation) ↔
        ¬ ∃ fault, ofFields fields = .error fault
      cases ofFields fields <;> simp
  | _ => exact ⟨nofun, fun given => absurd trivial given⟩

theorem ofRecord_eq_ok_iff :
    ofRecord index record = .ok violation ↔ ofJson record = .ok violation := by
  cases record with
  | object fields =>
      show _ ↔ ofFields fields = .ok violation
      rw [ofRecord]
      cases ofFields fields with
      | ok other =>
          dsimp only
          rw [Except.ok.injEq, Except.ok.injEq]
      | error fault =>
          dsimp only
          split <;> exact ⟨nofun, nofun⟩
  | _ => exact ⟨nofun, nofun⟩

theorem ofRecord_of_refused (index : Nat) (refused : IsRefused record) :
    (∃ cause, ofRecord index record = .error (.violationSource cause) ∧
      Refuses index record cause) ∨
      ∃ fields fault, record = .object fields ∧ ofFields fields = .error fault ∧
        Slips fields fault ∧ ofRecord index record = .error (.value fault) := by
  cases record with
  | object fields =>
      obtain ⟨fault, stopped⟩ := refused
      rw [ofRecord, stopped]
      dsimp only
      cases reported : isReported fault with
      | true => exact Or.inl ⟨_, rfl, .badRecord stopped⟩
      | false =>
          rcases ofFields_fails fault stopped with other | slips
          · cases reported.symm.trans other
          · exact Or.inr ⟨fields, fault, rfl, stopped, slips, rfl⟩
  | _ => exact Or.inl ⟨_, rfl, .notRecord nofun⟩

/-! ## Lists of records -/

structure IsFirstRefused (records : List Json) (index : Nat) (record : Json) : Prop where
  at_index : records[index]? = some record
  refused : IsRefused record
  least : ∀ earlier other, earlier < index → records[earlier]? = some other → ¬ IsRefused other

theorem IsFirstRefused.cons {first : Json} (accepted : ¬ IsRefused first)
    (rest : IsFirstRefused records index record) :
    IsFirstRefused (first :: records) (index + 1) record where
  at_index := rest.at_index
  refused := rest.refused
  least earlier other below found := by
    cases earlier with
    | zero =>
        cases found
        exact accepted
    | succ earlier => exact rest.least earlier other (Nat.lt_of_succ_lt_succ below) found

theorem IsFirstRefused.tail {first : Json}
    (whole : IsFirstRefused (first :: records) (index + 1) record) :
    IsFirstRefused records index record where
  at_index := whole.at_index
  refused := whole.refused
  least earlier other below := whole.least (earlier + 1) other (Nat.succ_lt_succ below)

/-- A list has one violation for each record, or a first record that is refused. -/
theorem accepted_or_refused (records : List Json) :
    (∃ violations, List.Forall₂ (fun record violation => ofJson record = .ok violation)
      records violations) ∨ ∃ index record, IsFirstRefused records index record := by
  induction records with
  | nil => exact Or.inl ⟨[], .nil⟩
  | cons first records induction =>
      by_cases refused : IsRefused first
      · exact Or.inr ⟨0, first, rfl, refused, nofun⟩
      · rcases induction with ⟨violations, accepted⟩ | ⟨index, record, found⟩
        · obtain ⟨violation, read⟩ := exists_ofJson_iff.mpr refused
          exact Or.inl ⟨violation :: violations, .cons read accepted⟩
        · exact Or.inr ⟨index + 1, record, found.cons refused⟩

theorem ofRecords_eq_ok_iff {start : Nat} :
    ofRecords start records = .ok violations ↔
      List.Forall₂ (fun record violation => ofJson record = .ok violation) records violations := by
  induction records generalizing start violations with
  | nil =>
      rw [ofRecords, List.forall₂_nil_left_iff, Except.ok.injEq, eq_comm]
  | cons record records induction =>
      rw [ofRecords, bind_eq_ok_iff, List.forall₂_cons_left_iff]
      constructor
      · rintro ⟨violation, read, rest⟩
        obtain ⟨others, accepted, ⟨⟩⟩ := bind_eq_ok_iff.mp rest
        exact ⟨violation, others, ofRecord_eq_ok_iff.mp read, induction.mp accepted, rfl⟩
      · rintro ⟨violation, others, read, accepted, rfl⟩
        exact ⟨violation, ofRecord_eq_ok_iff.mpr read,
          bind_eq_ok_iff.mpr ⟨others, induction.mpr accepted, rfl⟩⟩

theorem ofRecords_of_first {start : Nat} (first : IsFirstRefused records index record)
    (stopped : ofRecord (start + index) record = .error failure) :
    ofRecords start records = .error failure := by
  induction records generalizing start index with
  | nil => cases first.at_index
  | cons head records induction =>
      rw [ofRecords]
      cases index with
      | zero =>
          obtain rfl : head = record := Option.some.inj first.at_index
          exact bind_eq_error_iff.mpr (Or.inl stopped)
      | succ index =>
          have accepted := first.least 0 head (Nat.succ_pos index) rfl
          obtain ⟨violation, read⟩ := exists_ofJson_iff.mpr accepted
          refine bind_eq_error_iff.mpr (Or.inr ⟨violation, ofRecord_eq_ok_iff.mpr read, ?_⟩)
          refine bind_eq_error_iff.mpr (Or.inl (induction first.tail ?_))
          rwa [Nat.add_right_comm]

/-! ## Reports -/

/-- Whether a document is a report with these records: an array of them, or an object
with such an array under `violations`. -/
inductive IsReport : Json → List Json → Prop where
  | bare {records : List Json} : IsReport (.array records) records
  | named {fields : List (String × Json)} {records : List Json}
      (listed : Json.lookup "violations" fields = some (.array records)) :
      IsReport (.object fields) records

theorem IsReport.recordsOf (report : IsReport document records) :
    recordsOf document = .ok records := by
  cases report with
  | bare => rfl
  | named listed =>
      rw [Violation.recordsOf, Json.fieldOr, listed]
      cases records <;> rfl

theorem isReport_of_object (given : recordsOf document = .ok records)
    (member : .object fields ∈ records) : IsReport document records := by
  cases document with
  | array items =>
      cases given
      exact .bare
  | object outer =>
      rw [recordsOf] at given
      split at given
      · rename_i items listed
        cases given
        have array := Json.eq_array_of_mem_items listed member
        rw [Json.orElse] at array
        split at array
        · exact .named (Json.lookup_of_fieldOr array nofun)
        · cases array
          cases member
      · cases given
  | _ => cases given

theorem recordsOf_fails :
    FailsAs (fun failure => (∃ cause, failure = .violationSource cause) ∨
      ∃ fields value, document = .object fields ∧ Json.lookup "violations" fields = some value ∧
        value.isFilled = true ∧ ¬ value.HoldsItems ∧ failure = .value (.notIterable value.kind))
      (recordsOf document) := by
  cases document with
  | array items => exact .ok items
  | object fields =>
      rw [recordsOf]
      cases filled : (Json.fieldOr "violations" .null fields).isFilled with
      | false =>
          rw [Json.orElse, filled]
          exact .ok []
      | true =>
          rw [Json.orElse, if_pos filled]
          split
          · exact .ok _
          · rename_i fault stopped
            obtain ⟨single, rfl⟩ := Json.items_eq_error_iff.mp stopped
            refine .error (Or.inr
              ⟨fields, _, rfl, Json.lookup_of_fieldOr rfl ?_, filled, single, rfl⟩)
            intro absent
            rw [absent] at filled
            cases filled
  | _ => exact .error (Or.inl ⟨_, rfl⟩)

theorem recordsOf_unlisted {value : Json} (given : Json.lookup "violations" fields = some value)
    (filled : value.isFilled = true) (single : ¬ value.HoldsItems) :
    recordsOf (.object fields) = .error (.value (.notIterable value.kind)) := by
  have stopped := Json.items_eq_error_iff.mpr ⟨single, rfl⟩
  rw [recordsOf, Json.fieldOr, given, Option.getD_some, Json.orElse, if_pos filled, stopped]

/-- What a text may have in it for which it is not refused as a source of violations. -/
inductive Flaw (text : String) : Fault → Prop where
  /-- An integer has too many digits to be read. -/
  | longInteger {digits : Nat} (read : Json.read text = .error (.tooLong digits)) :
      Flaw text (.integerTooLong digits)
  /-- The violations are given and cannot be listed. -/
  | unlisted {fields : List (String × Json)} {value : Json}
      (read : Json.read text = .ok (.object fields))
      (given : Json.lookup "violations" fields = some value) (filled : value.isFilled = true)
      (single : ¬ value.HoldsItems) : Flaw text (.notIterable value.kind)
  /-- A fault slips through in the first record that is refused. -/
  | slip {document : Json} {records : List Json} {index : Nat} {fields : List (String × Json)}
      {fault : Fault} (read : Json.read text = .ok document)
      (report : IsReport document records) (first : IsFirstRefused records index (.object fields))
      (stopped : ofFields fields = .error fault) (slips : Slips fields fault) : Flaw text fault

theorem ofText_of_document (read : Json.read text = .ok document) :
    ofText text = recordsOf document >>= ofRecords 0 := by
  unfold ofText readDocument
  rw [read]
  rfl

theorem ofText_of_records (read : Json.read text = .ok document)
    (given : recordsOf document = .ok records) : ofText text = ofRecords 0 records := by
  rw [ofText_of_document read, given]
  rfl

theorem ofText_eq_ok_iff :
    ofText text = .ok violations ↔
      ∃ document records, Json.read text = .ok document ∧ recordsOf document = .ok records ∧
        List.Forall₂ (fun record violation => ofJson record = .ok violation)
          records violations := by
  constructor
  · intro made
    obtain ⟨document, reading, rest⟩ := bind_eq_ok_iff.mp made
    obtain ⟨records, given, rest⟩ := bind_eq_ok_iff.mp rest
    refine ⟨document, records, ?_, given, ofRecords_eq_ok_iff.mp rest⟩
    unfold readDocument at reading
    split at reading
    · rename_i value read
      rw [read, Except.ok.inj reading]
    · cases reading
    · cases reading
  · rintro ⟨document, records, read, given, accepted⟩
    rw [ofText_of_records read given]
    exact ofRecords_eq_ok_iff.mpr accepted

theorem ofText_of_first (read : Json.read text = .ok document)
    (given : recordsOf document = .ok records) (first : IsFirstRefused records index record) :
    (∃ cause, ofText text = .error (.violationSource cause) ∧ Refuses index record cause) ∨
      ∃ fault, Flaw text fault ∧ ofText text = .error (.value fault) := by
  rw [ofText_of_records read given]
  have ends : ∀ {failure}, ofRecord index record = .error failure →
      ofRecords 0 records = .error failure :=
    fun stopped => ofRecords_of_first first (by rwa [Nat.zero_add])
  rcases ofRecord_of_refused index first.refused with
    ⟨cause, stopped, refuses⟩ | ⟨fields, fault, rfl, faulty, slips, stopped⟩
  · exact Or.inl ⟨cause, ends stopped, refuses⟩
  · have report := isReport_of_object given (List.mem_of_getElem? first.at_index)
    exact Or.inr ⟨fault, .slip read report first faulty slips, ends stopped⟩

theorem ofText_fails :
    FailsAs (fun failure => (∃ cause, failure = .violationSource cause) ∨
      ∃ fault, Flaw text fault ∧ failure = .value fault) (ofText text) := by
  intro failure stopped
  cases read : Json.read text with
  | error error =>
      unfold ofText readDocument at stopped
      rw [read] at stopped
      cases error with
      | tooLong digits =>
          cases stopped
          exact Or.inr ⟨_, .longInteger read, rfl⟩
      | malformed cause line column offset =>
          cases stopped
          exact Or.inl ⟨_, rfl⟩
  | ok document =>
      cases given : recordsOf document with
      | error other =>
          rw [ofText_of_document read, given] at stopped
          cases stopped
          rcases recordsOf_fails _ given with
            refused | ⟨fields, value, rfl, found, filled, single, rfl⟩
          · exact Or.inl refused
          · exact Or.inr ⟨_, .unlisted read found filled single, rfl⟩
      | ok records =>
          rcases accepted_or_refused records with ⟨violations, accepted⟩ | ⟨index, record, first⟩
          · have made := ofText_eq_ok_iff.mpr ⟨document, records, read, given, accepted⟩
            cases made.symm.trans stopped
          · rcases ofText_of_first read given first with ⟨cause, ends, _⟩ | ⟨fault, flaw, ends⟩
            · cases ends.symm.trans stopped
              exact Or.inl ⟨cause, rfl⟩
            · cases ends.symm.trans stopped
              exact Or.inr ⟨fault, flaw, rfl⟩

theorem Flaw.ofText (flaw : Flaw text fault) : ofText text = .error (.value fault) := by
  cases flaw with
  | longInteger read =>
      unfold Violation.ofText readDocument
      rw [read]
      rfl
  | unlisted read given filled single =>
      rw [ofText_of_document read, recordsOf_unlisted given filled single]
      rfl
  | @slip _ _ _ fields _ read report first stopped slips =>
      rw [ofText_of_records read report.recordsOf]
      refine ofRecords_of_first first ?_
      rw [ofRecord, stopped]
      dsimp only
      rw [slips.unreported]
      rfl

/-- The text of a source is read as one violation for each record, or it is refused,
unless it has a flaw, and every flaw is what the reading ends with.  A report in which a
record is refused is refused with the number of the first such record. -/
theorem bad_source_refused_unless_flawed (text : String) :
    (∀ violations, Violation.ofText text = .ok violations ↔
      ∃ document records, Json.read text = .ok document ∧ recordsOf document = .ok records ∧
        List.Forall₂ (fun record violation => ofJson record = .ok violation)
          records violations) ∧
      (∀ failure, Violation.ofText text = .error failure →
        (∃ cause, failure = .violationSource cause) ∨
          ∃ fault, Flaw text fault ∧ failure = .value fault) ∧
      (∀ fault, Flaw text fault → Violation.ofText text = .error (.value fault)) ∧
      ∀ document records index record, Json.read text = .ok document →
        IsReport document records → IsFirstRefused records index record →
          (∃ cause rest, Violation.ofText text = .error (.violationSource cause) ∧
            Refuses index record cause ∧
              cause.message = "Violation #" ++ toString index ++ " is " ++ rest) ∨
            ∃ fault, Flaw text fault := by
  refine ⟨fun violations => ofText_eq_ok_iff, ofText_fails, fun fault flaw => flaw.ofText,
    fun document records index record read report first => ?_⟩
  rcases ofText_of_first read report.recordsOf first with ⟨cause, stopped, refuses⟩ | flawed
  · obtain ⟨rest, message⟩ := refuses.message
    exact Or.inl ⟨cause, rest, stopped, refuses, message⟩
  · obtain ⟨fault, flaw, _⟩ := flawed
    exact Or.inr ⟨fault, flaw⟩

/-- A report of a violation and of a number. -/
def mixedReport : String :=
  "[\x7b\"filePath\":\"a\",\"line\":1\x7d,5,\x7b\x7d]"

/-- A report of a violation on an infinite line. -/
def endlessReport : String :=
  "[\x7b\"filePath\":\"a\",\"line\":1e400\x7d]"

theorem bad_source_refused_unless_flawed_mixed :
    (¬ ∃ fault, Flaw mixedReport fault) ∧
      ∃ cause rest, ofText mixedReport = .error (.violationSource cause) ∧
        cause.message = "Violation #1 is " ++ rest := by
  have refused : ofText mixedReport = .error (.violationSource (.notRecord 1)) := by
    decide +kernel
  obtain ⟨_, _, flaws, names⟩ := bad_source_refused_unless_flawed mixedReport
  have unflawed : ¬ ∃ fault, Flaw mixedReport fault := by
    rintro ⟨fault, flaw⟩
    cases refused.symm.trans (flaws fault flaw)
  have read : Json.read mixedReport = .ok (.array
      [.object [("filePath", .text "a"), ("line", .integer 1)], .integer 5, .object []]) := by
    decide +kernel
  have accepted : ∃ violation,
      ofJson (.object [("filePath", .text "a"), ("line", .integer 1)]) = .ok violation :=
    ⟨_, rfl⟩
  have first : IsFirstRefused
      [.object [("filePath", .text "a"), ("line", .integer 1)], .integer 5, .object []] 1
      (.integer 5) :=
    .cons (exists_ofJson_iff.mp accepted) ⟨rfl, trivial, nofun⟩
  rcases names _ _ 1 _ read .bare first with ⟨cause, rest, stopped, _, message⟩ | flawed
  · exact ⟨unflawed, cause, rest, stopped, message⟩
  · exact absurd flawed unflawed

/-- A report with an infinite line is not refused as a source. -/
theorem endless_report_not_refused :
    ofText endlessReport = .error (.value .infiniteInteger) := by
  decide +kernel

end Violation

end Restyle
