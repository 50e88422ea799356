import Restyle.Proofs.Computation
import Restyle.Proofs.Json.Documents
import Restyle.Proofs.Migration.Preparation
import Restyle.Proofs.Text.Utf8

/-!
# Checkpoints that are saved and found again

A checkpoint whose lists hold what plans and checkpoints can hold is found
again as it was saved.
-/

namespace Restyle

namespace Json

theorem mem_of_lookup {name : String} {value : Json} {fields : List (String × Json)}
    (found : lookup name fields = some value) : ∃ field ∈ fields, field.2 = value := by
  induction fields with
  | nil => cases found
  | cons field fields induction =>
      obtain ⟨key, first⟩ := field
      rw [lookup] at found
      split at found
      · cases found
        exact ⟨_, List.mem_cons_self, rfl⟩
      · obtain ⟨field, member, same⟩ := induction found
        exact ⟨field, List.mem_cons_of_mem _ member, same⟩

theorem isTidy_lookup {name : String} {value : Json} {fields : List (String × Json)}
    (tidy : IsTidy (.object fields)) (found : lookup name fields = some value) : IsTidy value := by
  obtain ⟨field, member, rfl⟩ := mem_of_lookup found
  rw [IsTidy, haveTidyValues_iff] at tidy
  exact tidy.2 field member

theorem isTidy_fieldOr {name : String} {default : Json} {fields : List (String × Json)}
    (tidy : IsTidy (.object fields)) (fallback : IsTidy default) :
    IsTidy (fieldOr name default fields) := by
  unfold fieldOr
  cases found : lookup name fields with
  | none => exact fallback
  | some value => exact isTidy_lookup tidy found

theorem isTidy_orElse {value other : Json} (tidy : IsTidy value) (fallback : IsTidy other) :
    IsTidy (value.orElse other) := by
  unfold orElse
  split
  · exact tidy
  · exact fallback

theorem isTidy_null : IsTidy .null := trivial

theorem isTidy_emptyArray : IsTidy (.array []) := by
  rw [IsTidy]
  trivial

theorem isTidy_of_isText {value : Json} (isText : ∃ text, value = .text text) : IsTidy value := by
  obtain ⟨text, rfl⟩ := isText
  trivial

theorem isTidy_items {value : Json} {values : List Json} (tidy : IsTidy value)
    (listed : value.items = .ok values) : ∀ item ∈ values, IsTidy item := by
  intro item member
  cases value with
  | array items =>
      cases listed
      rw [IsTidy, areTidy_iff] at tidy
      exact tidy item member
  | text value =>
      cases listed
      obtain ⟨character, _, rfl⟩ := List.mem_map.mp member
      trivial
  | torn codes =>
      cases listed
      obtain ⟨code, _, rfl⟩ := List.mem_map.mp member
      exact isTidy_ofCodes (Text.isApart_single code)
  | object fields =>
      cases listed
      obtain ⟨field, among, rfl⟩ := List.mem_map.mp member
      rw [IsTidy] at tidy
      exact isTidy_ofCodes (tidy.1.spelled _ (List.mem_map_of_mem among)).apart
  | _ => cases listed

theorem fields_eq_ok {value : Json} {fields : List (String × Json)}
    (found : value.fields = .ok fields) : value = .object fields := by
  cases value with
  | object given =>
      cases found
      rfl
  | _ => cases found

theorem required_eq_ok {name : String} {value : Json} {fields : List (String × Json)}
    (found : required name fields = .ok value) : lookup name fields = some value := by
  unfold required at found
  split at found
  · rename_i found'
    cases found
    exact found'
  · cases found

end Json

namespace Checkpoint

/-- A checkpoint whose lists can be written and read again. -/
def HasTidyLists (checkpoint : Checkpoint) : Prop :=
  ∀ id ∈ checkpoint.completed ++ checkpoint.failed ++ checkpoint.skipped, Json.IsTidy id

theorem stepList_array (name : String) (ids : List Json) (fields : List (String × Json))
    (found : Json.lookup name fields = some (.array ids)) : stepList name fields = .ok ids := by
  unfold stepList
  rw [Json.fieldOr, found]
  cases ids <;> rfl

theorem ofJson_toJson (checkpoint : Checkpoint) : ofJson checkpoint.toJson = .ok checkpoint := by
  unfold ofJson toJson
  rw [bind_eq_ok_iff]
  refine ⟨_, rfl, ?_⟩
  rw [bind_eq_ok_iff]
  refine ⟨checkpoint.planDigest, rfl, ?_⟩
  rw [bind_eq_ok_iff]
  refine ⟨checkpoint.completed, stepList_array _ _ _ rfl, ?_⟩
  rw [bind_eq_ok_iff]
  refine ⟨checkpoint.failed, stepList_array _ _ _ rfl, ?_⟩
  rw [bind_eq_ok_iff]
  exact ⟨checkpoint.skipped, stepList_array _ _ _ rfl, rfl⟩

theorem isTidy_toJson {checkpoint : Checkpoint} (lists : checkpoint.HasTidyLists)
    (planPath : Json.IsTidy checkpoint.planPath) (planDigest : Json.IsTidy checkpoint.planDigest)
    (lastUpdated : Json.IsTidy checkpoint.lastUpdated) : Json.IsTidy checkpoint.toJson := by
  unfold HasTidyLists at lists
  simp only [List.mem_append] at lists
  have completed : Json.AreTidy checkpoint.completed :=
    Json.areTidy_iff.mpr fun id member => lists id (Or.inl (Or.inl member))
  have failed : Json.AreTidy checkpoint.failed :=
    Json.areTidy_iff.mpr fun id member => lists id (Or.inl (Or.inr member))
  have skipped : Json.AreTidy checkpoint.skipped :=
    Json.areTidy_iff.mpr fun id member => lists id (Or.inr member)
  rw [toJson, Json.IsTidy]
  refine ⟨Json.areNames_plain (by simp [Text.spellingMark]), planPath, planDigest, ?_, ?_, ?_,
    lastUpdated, trivial⟩
  · rw [Json.IsTidy]
    exact completed
  · rw [Json.IsTidy]
    exact failed
  · rw [Json.IsTidy]
    exact skipped

theorem ofText_pretty {checkpoint : Checkpoint} (tidy : Json.IsTidy checkpoint.toJson) :
    ofText checkpoint.toJson.pretty = .ok (.ok checkpoint) := by
  unfold ofText
  rw [Json.read_pretty tidy]
  simp only [ofJson_toJson]

theorem storedAt_of_bytes {workspace : Workspace} {path : Path} {checkpoint : Checkpoint}
    (tidy : Json.IsTidy checkpoint.toJson)
    (read : workspace.readBytes path = .ok (Text.encode checkpoint.toJson.pretty.toList)) :
    storedAt workspace path = .ok (some checkpoint) := by
  have text : workspace.readText path = .ok checkpoint.toJson.pretty := by
    refine Workspace.readText_eq_ok_iff.mpr ⟨_, _, read, Text.decode_encode _, ?_⟩
    rw [Text.unifyBreaks_of_not_mem (Json.return_not_mem_pretty _), String.ofList_toList]
  unfold storedAt
  rw [text]
  simp only [ofText_pretty tidy]

/-- What is found in a checkpoint file depends on its bytes only. -/
theorem storedAt_congr {workspace other : Workspace} {path : Path}
    (kept : workspace.readBytes path = other.readBytes path) :
    Checkpoint.storedAt workspace path = Checkpoint.storedAt other path := by
  unfold Checkpoint.storedAt Workspace.readText
  rw [kept]

theorem stepList_tidy {name : String} {fields : List (String × Json)} {ids : List Json}
    (tidy : Json.IsTidy (.object fields)) (listed : stepList name fields = .ok ids) :
    ∀ id ∈ ids, Json.IsTidy id := by
  unfold stepList at listed
  exact Json.isTidy_items
    (Json.isTidy_orElse (Json.isTidy_fieldOr tidy Json.isTidy_null) Json.isTidy_emptyArray) listed

theorem hasTidyLists_of_storedAt {workspace : Workspace} {path : Path} {checkpoint : Checkpoint}
    (stored : storedAt workspace path = .ok (some checkpoint)) : checkpoint.HasTidyLists := by
  unfold storedAt at stored
  split at stored
  · cases stored
  · rename_i text _
    split at stored
    · cases stored
    · cases stored
    · rename_i found parsed
      cases stored
      unfold ofText at parsed
      split at parsed
      · cases parsed
      · cases parsed
      · rename_i document read
        have tidy := Json.read_tidy read
        split at parsed
        · rename_i known
          cases parsed
          obtain ⟨fields, given, rest⟩ := bind_eq_ok_iff.mp known
          obtain rfl := Json.fields_eq_ok given
          obtain ⟨_, _, rest⟩ := bind_eq_ok_iff.mp rest
          obtain ⟨completed, first, rest⟩ := bind_eq_ok_iff.mp rest
          obtain ⟨failed, second, rest⟩ := bind_eq_ok_iff.mp rest
          obtain ⟨skipped, third, rest⟩ := bind_eq_ok_iff.mp rest
          cases rest
          intro id member
          simp only [List.mem_append] at member
          rcases member with (member | member) | member
          · exact stepList_tidy tidy first id member
          · exact stepList_tidy tidy second id member
          · exact stepList_tidy tidy third id member
        · split at parsed <;> cases parsed

end Checkpoint

theorem Plan.StoredAt.unique {workspace : Workspace} {path : Path} {plan other : Plan}
    (stored : Plan.StoredAt workspace path plan) (again : Plan.StoredAt workspace path other) :
    plan = other := by
  obtain ⟨_, text, read, parsed⟩ := stored
  obtain ⟨_, text', read', parsed'⟩ := again
  rw [read] at read'
  cases read'
  rw [parsed] at parsed'
  cases parsed'
  rfl

theorem Plan.StoredAt.of_bytes {workspace other : Workspace} {path : Path} {plan : Plan}
    (same : workspace.readBytes path = other.readBytes path)
    (stored : Plan.StoredAt workspace path plan) : Plan.StoredAt other path plan := by
  unfold Plan.StoredAt Workspace.readText at stored ⊢
  rw [← same]
  exact stored

theorem Step.tidy_id {document : Json} {step : Step} (tidy : Json.IsTidy document)
    (read : Step.ofJson document = .ok step) : Json.IsTidy step.id := by
  obtain ⟨fields, given, rest⟩ := bind_eq_ok_iff.mp read
  obtain rfl := Json.fields_eq_ok given
  obtain ⟨id, found, rest⟩ := bind_eq_ok_iff.mp rest
  have known : step.id = id := by
    iterate 13 obtain ⟨_, _, rest⟩ := bind_eq_ok_iff.mp rest
    cases rest
    rfl
  rw [known]
  exact Json.isTidy_lookup tidy (Json.required_eq_ok found)

theorem Plan.ofText_eq_ok {text : String} {plan : Plan} (parsed : Plan.ofText text = .ok plan) :
    ∃ fields, Json.read text = .ok (.object fields) ∧
      Json.same (Json.fieldOr "version" .null fields) planVersion = true ∧
        Plan.ofJson (.object fields) = .ok plan := by
  obtain ⟨document, read, rest⟩ := bind_eq_ok_iff.mp parsed
  have found : Json.read text = .ok document := by
    unfold readDocument at read
    split at read
    · rename_i found
      cases read
      exact found
    · cases read
    · cases read
  cases document with
  | object fields =>
      dsimp only at rest
      split at rest
      · rename_i current
        split at rest
        · rename_i given
          cases rest
          exact ⟨fields, found, current, given⟩
        · cases rest
      · cases rest
  | _ => cases rest

/-- A plan reads back from the text of its document. -/
theorem Plan.ofText_pretty {fields : List (String × Json)} {plan : Plan}
    (tidy : Json.IsTidy (.object fields))
    (current : Json.same (Json.fieldOr "version" .null fields) planVersion = true)
    (parsed : Plan.ofJson (.object fields) = .ok plan) :
    Plan.ofText (Json.pretty (.object fields)) = .ok plan := by
  unfold Plan.ofText readDocument
  rw [Json.read_pretty tidy]
  show (if Json.same (Json.fieldOr "version" .null fields) planVersion then _ else _) = _
  rw [if_pos current, parsed]
  rfl

theorem Plan.storedAt_pretty {workspace : Workspace} {path : Path}
    {fields : List (String × Json)} {plan : Plan} (clean : path.hasNull = false)
    (tidy : Json.IsTidy (.object fields))
    (current : Json.same (Json.fieldOr "version" .null fields) planVersion = true)
    (parsed : Plan.ofJson (.object fields) = .ok plan)
    (read : workspace.readBytes path = .ok (Text.encode (Json.pretty (.object fields)).toList)) :
    Plan.StoredAt workspace path plan := by
  refine ⟨clean, _, ?_, Plan.ofText_pretty tidy current parsed⟩
  refine Workspace.readText_eq_ok_iff.mpr ⟨_, _, read, Text.decode_encode _, ?_⟩
  rw [Text.unifyBreaks_of_not_mem (Json.return_not_mem_pretty _), String.ofList_toList]

theorem Plan.steps_read {fields : List (String × Json)} {plan : Plan}
    (tidy : Json.IsTidy (.object fields)) (read : Plan.ofJson (.object fields) = .ok plan) :
    ∀ step ∈ plan.steps, ∃ item : Json, item.IsTidy ∧ Step.ofJson item = .ok step := by
  obtain ⟨_, known, rest⟩ := bind_eq_ok_iff.mp read
  cases known
  obtain ⟨_, _, rest⟩ := bind_eq_ok_iff.mp rest
  obtain ⟨_, _, rest⟩ := bind_eq_ok_iff.mp rest
  obtain ⟨_, _, rest⟩ := bind_eq_ok_iff.mp rest
  obtain ⟨steps, listed, rest⟩ := bind_eq_ok_iff.mp rest
  obtain ⟨_, _, rest⟩ := bind_eq_ok_iff.mp rest
  cases rest
  obtain ⟨items, itemized, mapped⟩ := bind_eq_ok_iff.mp listed
  intro step member
  obtain ⟨item, among, made⟩ := (mem_of_mapM mapped).2 step member
  refine ⟨item, Json.isTidy_items ?_ itemized item among, made⟩
  have none : Json.IsTidy .null := trivial
  have empty : Json.IsTidy (.array []) := trivial
  exact Json.isTidy_orElse (Json.isTidy_fieldOr tidy none) empty

theorem Plan.StoredAt.tidy_ids {workspace : Workspace} {path : Path} {plan : Plan}
    (stored : Plan.StoredAt workspace path plan) : ∀ step ∈ plan.steps, Json.IsTidy step.id := by
  obtain ⟨_, text, _, parsed⟩ := stored
  obtain ⟨fields, read, _, given⟩ := Plan.ofText_eq_ok parsed
  intro step member
  obtain ⟨item, tidy, made⟩ := Plan.steps_read (Json.read_tidy read) given step member
  exact Step.tidy_id tidy made

end Restyle
