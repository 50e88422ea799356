import Restyle.Proofs.Migration.Progress

/-!
# Histories of runs

Runs of any kind follow one another, and between them anything may change but
the checkpoint file, which holds nothing but what a run has saved.  Then every
checkpoint that is saved is orderly: no step is listed twice, and each is a
step of the plan that the checkpoint belongs to.
-/

namespace Restyle

namespace Lists

variable {lists : Lists} {id : Json}

/-- Lists in which no identifier comes twice, neither in one list nor in two. -/
def Orderly (lists : Lists) : Prop :=
  lists.all.Pairwise fun first second => Json.same first second = false

/-- Keys that are different in pairs. -/
structure Distinct (lists : Lists) : Prop where
  keys : ∀ id ∈ lists.all, id.isKey = true
  apart : (lists.all.map Json.key?).Nodup

theorem distinct_empty : Distinct {} := ⟨by simp [all], by simp [all]⟩

theorem Distinct.orderly (distinct : lists.Distinct) : lists.Orderly := by
  have apart := List.pairwise_map.mp distinct.apart
  refine apart.imp_of_mem fun {first second} member _ differs => ?_
  have different : ¬ Json.same first second = true := by
    rw [Json.same_iff (distinct.keys first member)]
    exact differs
  simpa using different

theorem Distinct.without_all (distinct : lists.Distinct) (isKey : id.isKey = true) :
    (lists.without id).all = lists.all.filter fun other => !Json.same id other := by
  have apart := distinct.apart
  simp only [all, List.map_append, List.nodup_append] at apart
  unfold without all
  rw [List.filter_append, List.filter_append, Json.removeFirst_eq_filter isKey apart.1.1,
    Json.removeFirst_eq_filter isKey apart.1.2.1, Json.removeFirst_eq_filter isKey apart.2.1]

theorem Distinct.mark (distinct : lists.Distinct) (isKey : id.isKey = true) (status : StepStatus) :
    (lists.mark id status).Distinct := by
  have rest := distinct.without_all isKey
  have restKeys : ∀ other ∈ (lists.without id).all, other.isKey = true :=
    fun other member => distinct.keys other (mem_all_without member)
  have restApart : ((lists.without id).all.map Json.key?).Nodup := by
    rw [rest]
    exact distinct.apart.sublist (List.filter_sublist.map _)
  have fresh : id.key? ∉ (lists.without id).all.map Json.key? := by
    rw [rest]
    intro found
    obtain ⟨other, member, equal⟩ := List.mem_map.mp found
    have differs := (List.mem_filter.mp member).2
    rw [(Json.same_iff isKey).mpr equal.symm] at differs
    cases differs
  rcases lists.all_mark id status with perm | same
  · refine ⟨fun other member => ?_, ?_⟩
    · rcases List.mem_cons.mp (perm.subset member) with rfl | old
      · exact isKey
      · exact restKeys other old
    · rw [(perm.map Json.key?).nodup_iff, List.map_cons, List.nodup_cons]
      exact ⟨fresh, restApart⟩
  · exact ⟨same ▸ restKeys, same ▸ restApart⟩

theorem Distinct.markResults {results : List StepResult} (distinct : lists.Distinct)
    (keys : ∀ result ∈ results, result.stepId.isKey = true) :
    (lists.markResults results).Distinct := by
  induction results generalizing lists with
  | nil => exact distinct
  | cons result results induction =>
      obtain ⟨first, later⟩ := List.forall_mem_cons.mp keys
      exact induction (distinct.mark first result.status) later

end Lists

namespace Migration

/-- A call of a run: what it is asked for and the session that it meets. -/
structure Call where
  options : MigrationOptions
  index : IndexRebuild
  session : Session

/-- The checkpoint that a call saves, if it comes to that. -/
def Call.saved? (layout : Layout) (call : Call) : Option Checkpoint :=
  match run call.options layout call.index call.session with
  | .ok report _ => report.checkpoint
  | .error _ _ => none

/-- Whether a plan is the one that a call loads. -/
def Call.Loads (layout : Layout) (call : Call) (plan : Plan) : Prop :=
  Plan.StoredAt call.session.workspace (planPathOf call.options layout call.session.project) plan

/-- Whether a checkpoint file holds a checkpoint. -/
def Holds (layout : Layout) (workspace : Workspace) (saved : Checkpoint) : Prop :=
  workspace.readBytes layout.checkpoint = .ok (Text.encode saved.toJson.pretty.toList)

/-- Calls one after another, the last one first.  When a call starts, there is
no checkpoint file, or it holds what an earlier call has saved. -/
inductive History (layout : Layout) : List Call → Prop where
  | nil : History layout []
  | absent {call : Call} {calls : List Call} (history : History layout calls)
      (missing : ∀ bytes, call.session.workspace.readBytes layout.checkpoint ≠ .ok bytes) :
      History layout (call :: calls)
  | recorded {call earlier : Call} {calls : List Call} {saved : Checkpoint}
      (history : History layout calls) (member : earlier ∈ calls)
      (saves : earlier.saved? layout = some saved)
      (holds : Holds layout call.session.workspace saved) : History layout (call :: calls)

/-- Plans of one digest have one document, among the plans that calls load. -/
def NoCollision (layout : Layout) (calls : List Call) : Prop :=
  ∀ first ∈ calls, ∀ second ∈ calls, ∀ plan other digest, first.Loads layout plan →
    second.Loads layout other → plan.digest = .ok digest → other.digest = .ok digest →
      plan.toJson = other.toJson

variable {layout : Layout} {call : Call} {calls : List Call} {saved : Checkpoint}

theorem applying_of_saved {options : MigrationOptions} {index : IndexRebuild}
    {session after : Session} {report : RunReport}
    (returned : run options layout index session = .ok report after)
    (reported : report.checkpoint = some saved) : options.apply = true := by
  cases applying : options.apply with
  | true => rfl
  | false =>
      rw [(preview_claims_nothing applying returned).2] at reported
      cases reported

/-- What a call that saves a checkpoint did. -/
theorem Call.saves (saves : call.saved? layout = some saved) :
    ∃ task report after, Prepared call.options layout call.session task ∧
      Saves layout task report after saved ∧
        Checkpoint.storedAt after.workspace layout.checkpoint = .ok (some saved) := by
  unfold Call.saved? at saves
  split at saves
  · rename_i report after returned
    obtain ⟨task, prepared, ⟨_, _, none, _⟩ | ⟨found, saving, stored⟩⟩ :=
      run_progress (applying_of_saved returned saves) returned
    · rw [none] at saves
      cases saves
    · rw [saving.reported] at saves
      cases saves
      exact ⟨task, report, after, prepared, saving, stored⟩
  · cases saves

theorem Holds.found {workspace : Workspace} (holds : Holds layout workspace saved)
    (saves : call.saved? layout = some saved) :
    Checkpoint.storedAt workspace layout.checkpoint = .ok (some saved) := by
  obtain ⟨_, _, _, _, saving, stored⟩ := Call.saves saves
  rw [← stored]
  exact Checkpoint.storedAt_congr (holds.trans saving.bytes.symm)

/-- A call resumes from nothing, or from what an earlier call has saved. -/
theorem History.resumes {task : Task} (history : History layout (call :: calls))
    (prepared : Prepared call.options layout call.session task) :
    task.checkpoint = none ∨
      ∃ earlier ∈ calls, ∃ saved, earlier.saved? layout = some saved ∧
        task.checkpoint = some saved ∧ saved.planDigest = .text task.digest := by
  have resumption := prepared.checkpoint
  unfold ResumesFrom at resumption
  split at resumption
  · obtain ⟨stored, belongs⟩ := resumption
    cases history with
    | absent _ missing =>
        refine Or.inl ?_
        unfold Checkpoint.storedAt Workspace.readText at stored
        cases read : call.session.workspace.readBytes layout.checkpoint with
        | ok bytes => exact absurd read (missing bytes)
        | error failure =>
            rw [read] at stored
            exact (Except.ok.inj stored).symm
    | recorded _ member saves holds =>
        rw [holds.found saves] at stored
        have found := (Except.ok.inj stored).symm
        exact Or.inr ⟨_, member, _, saves, found, belongs _ found⟩
  · exact Or.inl resumption

theorem History.earlier (history : History layout (call :: calls)) : History layout calls := by
  cases history with
  | absent earlier _ => exact earlier
  | recorded earlier _ _ _ => exact earlier

theorem History.distinct (history : History layout calls) :
    ∀ call ∈ calls, ∀ saved, call.saved? layout = some saved → saved.lists.Distinct := by
  induction calls with
  | nil => simp
  | cons call calls induction =>
      have before := induction history.earlier
      refine List.forall_mem_cons.mpr ⟨fun saved saves => ?_, before⟩
      obtain ⟨task, report, after, prepared, saving, _⟩ := Call.saves saves
      obtain ⟨scheduled, _, _⟩ := prepared.steps.steps
      have start : task.start.Distinct := by
        unfold Task.start
        rcases history.resumes prepared with fresh | ⟨earlier, member, found, stored, known, _⟩
        · rw [fresh]
          exact Lists.distinct_empty
        · rw [known]
          exact before earlier member found stored
      obtain ⟨marked, lists, known⟩ := saving.lists
      rw [lists]
      refine start.markResults fun result listed => ?_
      obtain ⟨step, member, same⟩ := known result listed
      rw [same]
      exact (scheduled step member).2.1

/-- The plan of a call that a checkpoint belongs to, with all its identifiers. -/
structure Call.Explains (layout : Layout) (call : Call) (saved : Checkpoint) (plan : Plan) : Prop where
  loads : call.Loads layout plan
  digest : ∃ digest, plan.digest = .ok digest ∧ saved.planDigest = .text digest
  ids : ∀ id ∈ saved.lists.all, ∃ step ∈ plan.steps, step.id = id

theorem steps_of_toJson {plan : Plan} {document : Json} (written : plan.toJson = .ok document) :
    ∃ fields, document = .object fields ∧
      Json.lookup "steps" fields = some (.array (plan.steps.map Step.toJson)) := by
  obtain ⟨filters, _, rest⟩ := bind_eq_ok_iff.mp written
  cases rest
  exact ⟨_, rfl, rfl⟩

theorem ids_of_toJson {plan other : Plan} {digest : String} (digested : plan.digest = .ok digest)
    (same : plan.toJson = other.toJson) : plan.steps.map (·.id) = other.steps.map (·.id) := by
  obtain ⟨_, covered, _⟩ := bind_eq_ok_iff.mp digested
  obtain ⟨document, written, _⟩ := bind_eq_ok_iff.mp covered
  obtain ⟨fields, rfl, steps⟩ := steps_of_toJson written
  obtain ⟨_, again, others⟩ := steps_of_toJson (same ▸ written)
  cases again
  rw [steps] at others
  have documents : plan.steps.map Step.toJson = other.steps.map Step.toJson :=
    Json.array.inj (Option.some.inj others)
  have identified : ∀ steps : List Step,
      steps.map (fun step => (some step.id : Option Json)) = (steps.map Step.toJson).map fun value =>
        (value.field? "id").toOption.bind fun id => id := by
    intro steps
    rw [List.map_map]
    rfl
  have ids := (identified plan.steps).trans ((congrArg _ documents).trans (identified _).symm)
  simpa using congrArg (List.filterMap id) ids

theorem History.explains (history : History layout calls) (apart : NoCollision layout calls) :
    ∀ call ∈ calls, ∀ saved, call.saved? layout = some saved →
      ∃ plan, call.Explains layout saved plan := by
  induction calls with
  | nil => simp
  | cons call calls induction =>
      have before := induction history.earlier fun first member second another =>
        apart first (List.mem_cons_of_mem _ member) second (List.mem_cons_of_mem _ another)
      refine List.forall_mem_cons.mpr ⟨fun saved saves => ?_, before⟩
      obtain ⟨task, report, after, prepared, saving, _⟩ := Call.saves saves
      obtain ⟨scheduled, _, _⟩ := prepared.steps.steps
      have loads : call.Loads layout task.plan := by
        unfold Call.Loads
        rw [← prepared.planPath]
        exact prepared.plan
      have start : ∀ id ∈ task.start.all, ∃ step ∈ task.plan.steps, step.id = id := by
        intro id member
        rcases history.resumes prepared with fresh | ⟨earlier, among, found, stored, known, belongs⟩
        · rw [Task.start, fresh] at member
          cases member
        · rw [Task.start, known] at member
          obtain ⟨plan, explains⟩ := before earlier among found stored
          obtain ⟨digest, digested, carried⟩ := explains.digest
          obtain rfl : digest = task.digest := Json.text.inj (carried.symm.trans belongs)
          have same := ids_of_toJson digested (apart earlier (List.mem_cons_of_mem _ among) call
            List.mem_cons_self plan task.plan _ explains.loads loads digested prepared.digest)
          obtain ⟨step, listed, rfl⟩ := explains.ids id member
          have carriedOver : step.id ∈ task.plan.steps.map (·.id) :=
            same ▸ List.mem_map_of_mem listed
          exact List.mem_map.mp carriedOver
      refine ⟨task.plan, loads, ⟨task.digest, prepared.digest, saving.digest⟩, ?_⟩
      obtain ⟨marked, lists, known⟩ := saving.lists
      rw [lists]
      intro id member
      rcases Lists.mem_all_markResults member with ⟨result, listed, rfl⟩ | old
      · obtain ⟨step, member, same⟩ := known result listed
        exact ⟨step, (scheduled step member).1, same.symm⟩
      · exact start id old

end Migration

end Restyle
