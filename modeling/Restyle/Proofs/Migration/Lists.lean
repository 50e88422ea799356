import Mathlib.Data.List.Nodup
import Restyle.Proofs.Json.Keys
import Restyle.Proofs.Migration.Running

/-!
# The lists of a run

A run keeps three lists of identifiers and changes them by marking only.
`Executes.records` says which marks the execution of steps makes, and
`Commits.marks` which ones writing out makes; what holds of the lists is
derived from these.
-/

namespace Restyle

/-- The identifiers of the steps that were completed, have failed or were
skipped. -/
structure Lists where
  completed : List Json := []
  failed : List Json := []
  skipped : List Json := []

namespace Lists

/-- All identifiers of the lists. -/
def all (lists : Lists) : List Json := lists.completed ++ lists.failed ++ lists.skipped

/-- Takes an identifier off the lists. -/
def without (lists : Lists) (id : Json) : Lists where
  completed := Json.removeFirst id lists.completed
  failed := Json.removeFirst id lists.failed
  skipped := Json.removeFirst id lists.skipped

/-- Moves an identifier to the list of a status. -/
def mark (lists : Lists) (id : Json) (status : StepStatus) : Lists :=
  let rest := lists.without id
  match status with
  | .applied => { rest with completed := rest.completed ++ [id] }
  | .failed => { rest with failed := rest.failed ++ [id] }
  | .skipped => { rest with skipped := rest.skipped ++ [id] }
  | .pending => rest

def markResults (lists : Lists) (results : List StepResult) : Lists :=
  results.foldl (fun current result => current.mark result.stepId result.status) lists

end Lists

def RunState.lists (state : RunState) : Lists where
  completed := state.completed
  failed := state.failed
  skipped := state.skipped

def Checkpoint.lists (checkpoint : Checkpoint) : Lists where
  completed := checkpoint.completed
  failed := checkpoint.failed
  skipped := checkpoint.skipped

namespace Json

theorem removeFirst_of_absent {value : Json} {values : List Json}
    (absent : ∀ other ∈ values, same value other = false) : removeFirst value values = values := by
  induction values with
  | nil => rfl
  | cons first values induction =>
      obtain ⟨differs, later⟩ := List.forall_mem_cons.mp absent
      rw [removeFirst, differs, induction later]
      rfl

theorem mem_of_mem_removeFirst {value other : Json} {values : List Json}
    (member : other ∈ removeFirst value values) : other ∈ values := by
  induction values with
  | nil => exact member
  | cons first values induction =>
      rw [removeFirst] at member
      split at member
      · exact List.mem_cons_of_mem _ member
      · rcases List.mem_cons.mp member with rfl | later
        · exact List.mem_cons_self
        · exact List.mem_cons_of_mem _ (induction later)

theorem mem_removeFirst {value other : Json} {values : List Json} (member : other ∈ values)
    (differs : same value other = false) : other ∈ removeFirst value values := by
  induction values with
  | nil => exact member
  | cons first values induction =>
      rw [removeFirst]
      rcases List.mem_cons.mp member with rfl | later
      · rw [if_neg (by simp [differs])]
        exact List.mem_cons_self
      · split
        · exact later
        · exact List.mem_cons_of_mem _ (induction later)

/-- In a list that holds a key at most once, removing the first one removes
all. -/
theorem removeFirst_eq_filter {value : Json} {values : List Json} (isKey : value.isKey = true)
    (distinct : (values.map key?).Nodup) :
    removeFirst value values = values.filter fun other => !same value other := by
  induction values with
  | nil => rfl
  | cons first values induction =>
      rw [List.map_cons, List.nodup_cons] at distinct
      rw [removeFirst, List.filter_cons]
      cases found : same value first with
      | false =>
          rw [if_neg (by decide), if_pos (by decide), induction distinct.2]
      | true =>
          rw [if_pos rfl, if_neg (by decide)]
          refine (List.filter_eq_self.mpr fun other member => ?_).symm
          have absent : ¬ same value other = true := by
            rw [same_iff isKey, (same_iff isKey).mp found]
            intro equal
            exact distinct.1 (equal ▸ List.mem_map_of_mem member)
          simpa using absent

end Json

namespace Lists

variable {lists : Lists} {id other : Json} {status : StepStatus}

theorem all_mark (lists : Lists) (id : Json) (status : StepStatus) :
    (lists.mark id status).all.Perm (id :: (lists.without id).all) ∨
      (lists.mark id status).all = (lists.without id).all := by
  cases status with
  | applied =>
      refine Or.inl ?_
      simp only [mark, all, List.append_assoc]
      exact List.perm_middle
  | failed =>
      refine Or.inl ?_
      simp only [mark, all, List.append_assoc, List.singleton_append]
      rw [← List.append_assoc, ← List.append_assoc]
      exact List.perm_middle
  | skipped =>
      refine Or.inl ?_
      simp only [mark, all]
      rw [← List.append_assoc]
      exact List.perm_append_singleton id _
  | pending => exact Or.inr rfl

theorem mem_all_without (member : other ∈ (lists.without id).all) : other ∈ lists.all := by
  simp only [all, List.mem_append] at member ⊢
  exact member.imp (Or.imp Json.mem_of_mem_removeFirst Json.mem_of_mem_removeFirst)
    Json.mem_of_mem_removeFirst

theorem mem_all_mark (member : other ∈ (lists.mark id status).all) :
    other = id ∨ other ∈ lists.all := by
  rcases lists.all_mark id status with perm | same
  · exact (List.mem_cons.mp (perm.subset member)).imp_right mem_all_without
  · exact Or.inr (mem_all_without (same ▸ member))

theorem mem_completed_mark (member : other ∈ lists.completed)
    (differs : Json.same id other = false) : other ∈ (lists.mark id status).completed := by
  have kept := Json.mem_removeFirst member differs
  cases status with
  | applied => exact List.mem_append_left _ kept
  | _ => exact kept

theorem completed_of_mem_mark (member : other ∈ (lists.mark id status).completed) :
    other = id ∨ other ∈ lists.completed := by
  cases status with
  | applied =>
      rcases List.mem_append.mp member with kept | new
      · exact Or.inr (Json.mem_of_mem_removeFirst kept)
      · exact Or.inl (List.mem_singleton.mp new)
  | _ => exact Or.inr (Json.mem_of_mem_removeFirst member)

theorem completed_of_mem_markResults {results : List StepResult}
    (member : other ∈ (lists.markResults results).completed) :
    (∃ result ∈ results, other = result.stepId) ∨ other ∈ lists.completed := by
  induction results generalizing lists with
  | nil => exact Or.inr member
  | cons result results induction =>
      rcases induction member with ⟨later, among, same⟩ | marked
      · exact Or.inl ⟨later, List.mem_cons_of_mem _ among, same⟩
      · exact (completed_of_mem_mark marked).imp_left fun same => ⟨result, List.mem_cons_self, same⟩

theorem mem_completed_markResults {results : List StepResult} (member : other ∈ lists.completed)
    (differs : ∀ result ∈ results, Json.same result.stepId other = false) :
    other ∈ (lists.markResults results).completed := by
  induction results generalizing lists with
  | nil => exact member
  | cons result results induction =>
      exact induction (mem_completed_mark member (differs result List.mem_cons_self))
        fun later among => differs later (List.mem_cons_of_mem _ among)

theorem markResults_append (lists : Lists) (first second : List StepResult) :
    lists.markResults (first ++ second) = (lists.markResults first).markResults second := by
  rw [markResults, List.foldl_append]
  rfl

/-- Of results of different steps the applied ones are completed. -/
theorem mem_completed_of_applied {results : List StepResult} {result : StepResult}
    (keys : ∀ result ∈ results, result.stepId.isKey = true)
    (distinct : (results.map (·.stepId.key?)).Nodup) (member : result ∈ results)
    (applied : result.status = .applied) :
    result.stepId ∈ (lists.markResults results).completed := by
  induction results generalizing lists with
  | nil => cases member
  | cons first results induction =>
      rw [List.map_cons, List.nodup_cons] at distinct
      rcases List.mem_cons.mp member with rfl | later
      · have marked : result.stepId ∈ (lists.mark result.stepId result.status).completed := by
          rw [applied]
          exact List.mem_append_right _ List.mem_cons_self
        show _ ∈ ((lists.mark result.stepId result.status).markResults results).completed
        refine mem_completed_markResults marked fun other among => ?_
        have differs : ¬ Json.same other.stepId result.stepId = true := by
          rw [Json.same_iff (keys other (List.mem_cons_of_mem _ among))]
          intro equal
          exact distinct.1 (equal ▸ List.mem_map_of_mem among)
        simpa using differs
      · exact induction (fun other among => keys other (List.mem_cons_of_mem _ among)) distinct.2
          later

theorem mem_all_markResults {results : List StepResult}
    (member : other ∈ (lists.markResults results).all) :
    (∃ result ∈ results, other = result.stepId) ∨ other ∈ lists.all := by
  induction results generalizing lists with
  | nil => exact Or.inr member
  | cons result results induction =>
      rcases induction member with ⟨later, among, same⟩ | marked
      · exact Or.inl ⟨later, List.mem_cons_of_mem _ among, same⟩
      · exact (mem_all_mark marked).imp_left fun same => ⟨result, List.mem_cons_self, same⟩

end Lists

namespace RunState

@[simp]
theorem lists_mark (state : RunState) (id : Json) (status : StepStatus) :
    (state.mark id status).lists = state.lists.mark id status := by
  cases status <;> rfl

@[simp]
theorem lists_record (state : RunState) (step : Step) (status : StepStatus)
    (error : Option String) (size : Option EditSize) :
    (state.record step status error size).lists = state.lists.mark step.id status := by
  rw [record, lists_mark]
  rfl

@[simp]
theorem lists_keepSideEffect (state : RunState) (effect : Option SideEffect) :
    (state.keepSideEffect effect).lists = state.lists := by
  rcases effect with _ | (_ | _) <;> rfl

end RunState

namespace Migration

variable {backup : Bool} {step : Step} {steps : List Step} {state opened next final : RunState}
  {session after last : Session} {path : Path} {content : List Char}

theorem Opens.lists {workspace : Workspace} (buffered : Opens workspace path state opened content) :
    opened.lists = state.lists := by
  cases buffered <;> rfl

theorem afterEdit_results (kept : RunState) (step : Step) (path : Path) (edit : Edit) :
    (afterEdit kept step path edit).results =
      kept.results ++
        [RunState.resultOf step .applied none (some ⟨edit.removed, edit.added⟩)] := by
  rw [afterEdit, RunState.record_results, RunState.keepSideEffect_results]
  rfl

theorem afterEdit_lists (kept : RunState) (step : Step) (path : Path) (edit : Edit) :
    (afterEdit kept step path edit).lists = kept.lists.mark step.id .applied := by
  rw [afterEdit, RunState.lists_record, RunState.lists_keepSideEffect]
  rfl

theorem Processed.records (processed : Processed backup step state session next after) :
    ∃ result, next.results = state.results ++ [result] ∧ result.subject = step.subject ∧
      next.lists = state.lists.mark result.stepId result.status := by
  cases processed with
  | blocked _ _ => exact ⟨_, RunState.record_results .., rfl, RunState.lists_record ..⟩
  | declined _ _ => exact ⟨_, RunState.record_results .., rfl, RunState.lists_record ..⟩
  | unreadable _ _ _ _ _ _ => exact ⟨_, RunState.record_results .., rfl, RunState.lists_record ..⟩
  | unlocated free key buffered missed quiet =>
      rw [← buffered.results, ← buffered.lists]
      exact ⟨_, RunState.record_results .., rfl, RunState.lists_record ..⟩
  | edited free key buffered made before copied quiet =>
      obtain ⟨⟨backedUp, rfl⟩, _⟩ := backUp_outcome (fun _ => True) copied
      rw [← buffered.results, ← buffered.lists]
      exact ⟨_, afterEdit_results .., rfl, afterEdit_lists ..⟩

/-- The steps that are executed get a result each, in order, and are marked with
their status. -/
theorem Executes.records (executed : Executes backup state session steps final last) :
    ∃ outcomes, final.results = state.results ++ outcomes ∧
      outcomes.map StepResult.subject = steps.map Step.subject ∧
        final.lists = state.lists.markResults outcomes := by
  induction executed with
  | nil quiet => exact ⟨[], by simp, rfl, rfl⟩
  | cons first later induction =>
      obtain ⟨result, results, subject, lists⟩ := first.records
      obtain ⟨outcomes, rest, subjects, marked⟩ := induction
      refine ⟨result :: outcomes, ?_, ?_, ?_⟩
      · rw [rest, results, List.append_assoc]
        rfl
      · rw [List.map_cons, List.map_cons, subject, subjects]
      · rw [marked, lists]
        rfl

theorem refuse_stepId (project path : Path) (error : String) (result : StepResult) :
    (result.refuse project path error).stepId = result.stepId :=
  congrArg Prod.fst (refuse_subject project path error result)

theorem refuse_status {project : Path} {error : String} {result : StepResult}
    (applied : result.IsAppliedAt project path) :
    (result.refuse project path error).status = .failed := by
  rw [StepResult.refuse, if_pos applied]

/-- A refused write marks the applied results of its file as failed. -/
theorem lists_refuse (state : RunState) (project path : Path) (error : String) :
    (state.refuse project path error).lists =
      state.lists.markResults ((state.results.filter fun result =>
        decide (result.IsAppliedAt project path)).map (StepResult.refuse project path error)) := by
  have marks : ∀ (results : List StepResult) (current : RunState),
      (current.markRefused project path results).lists =
        current.lists.markResults ((results.filter fun result =>
          decide (result.IsAppliedAt project path)).map (StepResult.refuse project path error)) := by
    intro results
    induction results with
    | nil => exact fun _ => rfl
    | cons result results induction =>
        intro current
        by_cases applied : result.IsAppliedAt project path
        · rw [List.filter_cons_of_pos (by simpa using applied), List.map_cons]
          have next := induction (current.mark result.stepId .failed)
          rw [RunState.lists_mark] at next
          simp only [Lists.markResults, List.foldl_cons, refuse_stepId, refuse_status applied]
          simp only [Lists.markResults] at next
          rw [← next, RunState.markRefused, RunState.markRefused, List.foldl_cons, if_pos applied]
        · rw [List.filter_cons_of_neg (by simpa using applied), ← induction current,
            RunState.markRefused, RunState.markRefused, List.foldl_cons, if_neg applied]
  exact marks state.results state

/-- The completed list holds the steps with an applied result, the results
being of different steps. -/
structure Reflects (state : RunState) : Prop where
  keys : ∀ result ∈ state.results, result.stepId.isKey = true
  distinct : (state.results.map (·.stepId.key?)).Nodup
  completed : ∀ result ∈ state.results, result.status = .applied →
    result.stepId ∈ state.lists.completed

theorem Reflects.refuse (reflects : Reflects state) (project path : Path) (error : String) :
    Reflects (state.refuse project path error) := by
  have ids : ∀ result : StepResult, (result.refuse project path error).stepId = result.stepId :=
    refuse_stepId project path error
  have results : (state.refuse project path error).results =
      state.results.map (StepResult.refuse project path error) := rfl
  refine ⟨?_, ?_, ?_⟩
  · intro result member
    obtain ⟨old, among, rfl⟩ := List.mem_map.mp (results ▸ member)
    rw [ids]
    exact reflects.keys old among
  · rw [results, List.map_map]
    have same : ((·.stepId.key?) ∘ StepResult.refuse project path error) =
        fun result : StepResult => result.stepId.key? := by
      funext result
      exact congrArg Json.key? (ids result)
    rw [same]
    exact reflects.distinct
  · intro result member applied
    obtain ⟨old, among, rfl⟩ := List.mem_map.mp (results ▸ member)
    rw [ids, lists_refuse]
    have stays : ¬ old.IsAppliedAt project path := by
      intro refused
      rw [refuse_status refused] at applied
      cases applied
    have kept : old.refuse project path error = old := by
      rw [StepResult.refuse, if_neg stays]
    rw [kept] at applied
    refine Lists.mem_completed_markResults (reflects.completed old among applied) ?_
    intro marked member
    obtain ⟨other, found, rfl⟩ := List.mem_map.mp member
    obtain ⟨listed, refused⟩ := List.mem_filter.mp found
    rw [ids]
    have apart : other ≠ old := by
      rintro rfl
      exact stays (by simpa using refused)
    have differs : ¬ Json.same other.stepId old.stepId = true := by
      rw [Json.same_iff (reflects.keys other listed)]
      intro equal
      exact apart (List.inj_on_of_nodup_map reflects.distinct listed among equal)
    simpa using differs

theorem map_stepId_of_subjects {outcomes : List StepResult}
    (subjects : outcomes.map StepResult.subject = steps.map Step.subject) :
    outcomes.map (·.stepId) = steps.map (·.id) := by
  have projected := congrArg (List.map Prod.fst) subjects
  rw [List.map_map, List.map_map] at projected
  exact projected

theorem Executes.reflects (executed : Executes backup state session steps final last)
    (fresh : state.results = []) (keys : ∀ step ∈ steps, step.id.isKey = true)
    (distinct : (steps.map (·.id.key?)).Nodup) : Reflects final := by
  obtain ⟨outcomes, results, subjects, lists⟩ := executed.records
  rw [fresh, List.nil_append] at results
  have ids := map_stepId_of_subjects subjects
  have keyed : ∀ result ∈ outcomes, result.stepId.isKey = true := by
    intro result member
    have listed : result.stepId ∈ steps.map (·.id) := ids ▸ List.mem_map_of_mem member
    obtain ⟨step, among, same⟩ := List.mem_map.mp listed
    rw [← same]
    exact keys step among
  have apart : (outcomes.map (·.stepId.key?)).Nodup := by
    have same := congrArg (List.map Json.key?) ids
    rw [List.map_map, List.map_map] at same
    exact (congrArg List.Nodup same).mpr distinct
  refine ⟨results ▸ keyed, results ▸ apart, ?_⟩
  intro result member applied
  rw [results] at member
  rw [lists]
  exact Lists.mem_completed_of_applied keyed apart member applied

variable {buffers : List Buffer} {written : List Path} {refused : List (Path × String)}

theorem Commits.reflects (committed : Commits state session buffers final last written refused)
    (reflects : Reflects state) : Reflects final := by
  induction committed with
  | nil => exact reflects
  | unchanged _ _ induction => exact induction reflects
  | stored _ _ _ _ induction => exact induction reflects
  | refused _ _ _ _ induction => exact induction (reflects.refuse _ _ _)

theorem Commits.marks (committed : Commits state session buffers final last written refused) :
    ∃ marked : List StepResult, final.lists = state.lists.markResults marked ∧
      ∀ result ∈ marked, ∃ old ∈ state.results, result.stepId = old.stepId := by
  induction committed with
  | nil => exact ⟨[], rfl, by simp⟩
  | unchanged _ _ induction => exact induction
  | stored _ _ _ _ induction => exact induction
  | @refused state final session stopped ready last buffer buffers written refused failure error
      changed stop quiet later induction =>
      obtain ⟨marked, lists, known⟩ := induction
      rw [lists_refuse, ← Lists.markResults_append] at lists
      refine ⟨_, lists, fun result member => ?_⟩
      rcases List.mem_append.mp member with first | second
      · obtain ⟨old, found, rfl⟩ := List.mem_map.mp first
        exact ⟨old, (List.mem_filter.mp found).1, refuse_stepId ..⟩
      · obtain ⟨middle, found, same⟩ := known result second
        obtain ⟨old, among, rfl⟩ := List.mem_map.mp found
        exact ⟨old, among, same.trans (refuse_stepId ..)⟩

end Migration

end Restyle
