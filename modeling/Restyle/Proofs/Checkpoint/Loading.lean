import Restyle.Proofs.Json.Faults
import Restyle.Proofs.Migration.Records

/-!
# Checkpoints that are loaded

Loading a checkpoint always ends well, as long as no integer in its file is too long to be
read.  A file is either a usable checkpoint, which is found and nothing is said, or it is
passed over with one warning.  A checkpoint of texts that was saved is found as it was.
-/

namespace Restyle

namespace Checkpoint

variable {fields : List (String × Json)} {document : Json} {text : String} {name : String}
  {checkpoint : Checkpoint} {session after : Session} {path : Path} {bytes : List UInt8}

/-! ## Documents -/

/-- Whether a field holds steps or holds nothing. -/
def IsListed (name : String) (fields : List (String × Json)) : Prop :=
  ∀ value, Json.lookup name fields = some value → value.isFilled = true → value.HoldsItems

/-- Whether a document is that of a checkpoint. -/
def IsRecord (document : Json) : Prop :=
  ∃ fields, document = .object fields ∧ (∃ digest, Json.lookup "planHash" fields = some digest) ∧
    IsListed "completedSteps" fields ∧ IsListed "failedSteps" fields ∧
      IsListed "skippedSteps" fields

theorem exists_stepList_iff : (∃ ids, stepList name fields = .ok ids) ↔ IsListed name fields := by
  have empty : Json.HoldsItems (.array []) := Or.inl rfl
  unfold stepList IsListed Json.fieldOr
  rw [Json.exists_items_iff]
  cases found : Json.lookup name fields with
  | none => exact ⟨fun _ => nofun, fun _ => empty⟩
  | some value =>
      rw [Option.getD_some, Json.orElse]
      cases filled : value.isFilled with
      | true =>
          rw [if_pos rfl]
          constructor
          · rintro holds _ ⟨⟩ _
            exact holds
          · exact fun listed => listed value rfl filled
      | false =>
          rw [if_neg Bool.false_ne_true]
          constructor
          · rintro _ _ ⟨⟩ other
            cases filled.symm.trans other
          · exact fun _ => empty

theorem exists_ofJson_iff :
    (∃ checkpoint, ofJson document = .ok checkpoint) ↔ IsRecord document := by
  constructor
  · rintro ⟨checkpoint, read⟩
    obtain ⟨fields, given, rest⟩ := bind_eq_ok_iff.mp read
    obtain ⟨digest, hasDigest, rest⟩ := bind_eq_ok_iff.mp rest
    obtain ⟨completed, first, rest⟩ := bind_eq_ok_iff.mp rest
    obtain ⟨failed, second, rest⟩ := bind_eq_ok_iff.mp rest
    obtain ⟨skipped, third, _⟩ := bind_eq_ok_iff.mp rest
    exact ⟨fields, Json.fields_eq_ok given, ⟨digest, Json.required_eq_ok hasDigest⟩,
      exists_stepList_iff.mp ⟨_, first⟩, exists_stepList_iff.mp ⟨_, second⟩,
      exists_stepList_iff.mp ⟨_, third⟩⟩
  · rintro ⟨fields, rfl, ⟨digest, found⟩, first, second, third⟩
    obtain ⟨completed, first⟩ := exists_stepList_iff.mpr first
    obtain ⟨failed, second⟩ := exists_stepList_iff.mpr second
    obtain ⟨skipped, third⟩ := exists_stepList_iff.mpr third
    have hasDigest : Json.required "planHash" fields = .ok digest := by
      rw [Json.required, found]
    exact ⟨_, bind_eq_ok_iff.mpr ⟨fields, rfl, bind_eq_ok_iff.mpr ⟨digest, hasDigest,
      bind_eq_ok_iff.mpr ⟨completed, first, bind_eq_ok_iff.mpr ⟨failed, second,
        bind_eq_ok_iff.mpr ⟨skipped, third, rfl⟩⟩⟩⟩⟩⟩

theorem isTolerated_of_category {fault : Fault} (sort : fault.category = .absence ∨
    fault.category = .kind ∨ fault.category = .operation) : isTolerated fault = true := by
  unfold isTolerated
  rcases sort with same | same | same <;> rw [same] <;> rfl

/-- Every fault in the document of a checkpoint is tolerated. -/
theorem ofJson_fails : FailsAs (fun fault => isTolerated fault = true) (ofJson document) := by
  have listed : ∀ {name : String} {fields : List (String × Json)},
      FailsAs (fun fault => isTolerated fault = true) (stepList name fields) :=
    Json.items_fails.mono fun _ kind => isTolerated_of_category (Or.inr (Or.inl kind))
  refine .bind (Json.fields_fails.mono fun _ operation =>
    isTolerated_of_category (Or.inr (Or.inr operation))) fun fields _ => ?_
  refine .bind (Json.required_fails.mono fun _ absence =>
    isTolerated_of_category (Or.inl absence)) fun _ _ => ?_
  exact listed.bind fun _ _ => listed.bind fun _ _ => listed.bind fun _ _ => .ok _

/-- The session once a checkpoint is passed over. -/
def warned (session : Session) (message : String) : Session :=
  { session with log := session.log ++ [⟨.warning, .records, message⟩] }

theorem load_of_unreadable {reason : ReadFailure} (clean : path.hasNull = false)
    (present : session.workspace.readBytes path = .ok bytes)
    (content : session.workspace.readText path = .error reason) :
    load path session = .ok none (warned session
      ("Could not read checkpoint " ++ path.toString ++ ": " ++ reason.message)) := by
  have there := Workspace.isMissing_of_present present content
  unfold load
  rw [Activity.bind_of_ok (Activity.readText_apply clean), content]
  simp only [there, Bool.false_eq_true, if_false]
  rfl

/-- Whether everything in a checkpoint is text. -/
structure IsOfTexts (checkpoint : Checkpoint) : Prop where
  planPath : ∃ text, checkpoint.planPath = .text text
  planDigest : ∃ text, checkpoint.planDigest = .text text
  lastUpdated : ∃ text, checkpoint.lastUpdated = .text text
  steps : ∀ id ∈ checkpoint.completed ++ checkpoint.failed ++ checkpoint.skipped,
    ∃ text, id = .text text

theorem IsOfTexts.isTidy_toJson (texts : checkpoint.IsOfTexts) : checkpoint.toJson.IsTidy := by
  exact Checkpoint.isTidy_toJson
    (fun id member => Json.isTidy_of_isText (texts.steps id member))
    (Json.isTidy_of_isText texts.planPath) (Json.isTidy_of_isText texts.planDigest)
    (Json.isTidy_of_isText texts.lastUpdated)

end Checkpoint

end Restyle
