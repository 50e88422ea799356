import Restyle.Proofs.Migration.Histories
import Restyle.Proofs.Migration.Questions
import Restyle.Proofs.Migration.SequentialEdits

/-!
# Reports, checkpoints and totals tell the same

A run keeps its results, its lists and its totals apart from each other, and a
refused write changes results afterwards.  `Mirrors` is the agreement of results
and lists: a step with a result is in the list of its status and in no other, and
any other identifier is where it was at the start.  Executing and writing out keep
it, so that it holds of the report and of the checkpoint of every run.
-/

namespace Restyle

namespace Json

theorem same_eq_false_of_not_key {value other : Json} (isKey : other.isKey = true)
    (notKey : value.isKey = false) : same value other = false := by
  cases value with
  | array items => cases other <;> simp_all [same, Json.isKey, whole?]
  | object fields => cases other <;> simp_all [same, Json.isKey, whole?]
  | _ => cases notKey

/-- Two values interchangeable with a third are interchangeable. -/
theorem same_of_same {id other third : Json} (isKey : id.isKey = true)
    (first : same id third = true) (second : same other third = true) : same id other = true := by
  have equal := (same_iff isKey).mp first
  have thirdKey : third.isKey = true := by
    rw [isKey_iff_key?, ← equal]
    exact isKey_iff_key?.mp isKey
  cases otherKey : other.isKey with
  | false =>
      rw [same_eq_false_of_not_key thirdKey otherKey] at second
      cases second
  | true => exact (same_iff isKey).mpr (equal.trans ((same_iff otherKey).mp second).symm)

theorem isAmong_removeFirst {id other : Json} (isKey : id.isKey = true)
    (apart : same id other = false) (values : List Json) :
    other.isAmong (removeFirst id values) = other.isAmong values := by
  induction values with
  | nil => rfl
  | cons first values induction =>
      rw [removeFirst]
      split
      · rename_i removed
        have differs : same other first = false := by
          cases found : same other first with
          | false => rfl
          | true => exact absurd (same_of_same isKey removed found) (by simp [apart])
        simp [isAmong, differs]
      · simp only [isAmong, List.any_cons] at induction ⊢
        rw [induction]

/-- An identifier that a list holds at most once is not in it after its removal. -/
theorem isAmong_removeFirst_self {id : Json} {values : List Json} (isKey : id.isKey = true)
    (distinct : (values.map key?).Nodup) : id.isAmong (removeFirst id values) = false := by
  rw [removeFirst_eq_filter isKey distinct, isAmong, List.any_eq_false]
  intro other member
  simpa using (List.mem_filter.mp member).2

theorem isAmong_append {id : Json} (first second : List Json) :
    id.isAmong (first ++ second) = (id.isAmong first || id.isAmong second) := List.any_append

end Json

namespace Lists

variable {lists : Lists} {id other : Json} {status which : StepStatus}

/-- The list of a status. -/
def bucket (lists : Lists) : StepStatus → List Json
  | .applied => lists.completed
  | .failed => lists.failed
  | .skipped => lists.skipped
  | .pending => []

theorem bucket_mark (lists : Lists) (id : Json) (decided : which ≠ .pending) :
    (lists.mark id status).bucket which =
      Json.removeFirst id (lists.bucket which) ++ if which = status then [id] else [] := by
  cases which with
  | pending => exact absurd rfl decided
  | _ => cases status <;> simp [mark, bucket, without]

theorem Distinct.bucket (distinct : lists.Distinct) (which : StepStatus) :
    ((lists.bucket which).map Json.key?).Nodup := by
  have apart := distinct.apart
  simp only [all, List.map_append, List.nodup_append] at apart
  cases which with
  | applied => exact apart.1.1
  | failed => exact apart.1.2.1
  | skipped => exact apart.2.1
  | pending => exact List.nodup_nil

/-- A marked identifier is in the list of its status and in no other. -/
theorem isAmong_mark_self (distinct : lists.Distinct) (isKey : id.isKey = true)
    (decided : which ≠ .pending) :
    id.isAmong ((lists.mark id status).bucket which) = decide (which = status) := by
  rw [bucket_mark lists id decided, Json.isAmong_append,
    Json.isAmong_removeFirst_self isKey (distinct.bucket which), Bool.false_or]
  by_cases here : which = status
  · simp [here, Json.isAmong, Json.same_self isKey]
  · simp [here, Json.isAmong]

theorem isAmong_mark_other (isKey : id.isKey = true) (apart : Json.same id other = false) :
    other.isAmong ((lists.mark id status).bucket which) = other.isAmong (lists.bucket which) := by
  by_cases decided : which = .pending
  · subst decided
    rfl
  · rw [bucket_mark lists id decided, Json.isAmong_append, Json.isAmong_removeFirst isKey apart]
    by_cases here : which = status
    · have differs : Json.same other id = false := by
        cases found : Json.same other id with
        | false => rfl
        | true => exact absurd (Json.same_of_same isKey (Json.same_self isKey) found) (by simp [apart])
      simp [here, Json.isAmong, differs]
    · simp [here, Json.isAmong]

theorem isAmong_markResults_other {results : List StepResult}
    (keys : ∀ result ∈ results, result.stepId.isKey = true)
    (apart : ∀ result ∈ results, Json.same result.stepId other = false) :
    other.isAmong ((lists.markResults results).bucket which) = other.isAmong (lists.bucket which) := by
  induction results generalizing lists with
  | nil => rfl
  | cons result results induction =>
      obtain ⟨isKey, laterKeys⟩ := List.forall_mem_cons.mp keys
      obtain ⟨differs, laterApart⟩ := List.forall_mem_cons.mp apart
      exact (induction laterKeys laterApart).trans (isAmong_mark_other isKey differs)

theorem same_of_distinct {results : List StepResult} {result another : StepResult}
    (keys : ∀ result ∈ results, result.stepId.isKey = true)
    (distinct : (results.map (·.stepId.key?)).Nodup) (member : result ∈ results)
    (other : another ∈ results) (apart : result ≠ another) :
    Json.same result.stepId another.stepId = false := by
  cases found : Json.same result.stepId another.stepId with
  | false => rfl
  | true =>
      have equal := (Json.same_iff (keys result member)).mp found
      exact absurd (List.inj_on_of_nodup_map distinct member other equal) apart

/-- Of results of different steps each is in the list of its status and in no
other. -/
theorem isAmong_markResults_self {results : List StepResult} {result : StepResult}
    (separate : lists.Distinct) (keys : ∀ result ∈ results, result.stepId.isKey = true)
    (distinct : (results.map (·.stepId.key?)).Nodup) (member : result ∈ results)
    (decided : which ≠ .pending) :
    result.stepId.isAmong ((lists.markResults results).bucket which) =
      decide (which = result.status) := by
  induction results generalizing lists with
  | nil => cases member
  | cons first results induction =>
      obtain ⟨isKey, laterKeys⟩ := List.forall_mem_cons.mp keys
      rw [List.map_cons, List.nodup_cons] at distinct
      rcases List.mem_cons.mp member with rfl | later
      · refine (isAmong_markResults_other laterKeys fun other among => ?_).trans
          (isAmong_mark_self separate isKey decided)
        cases found : Json.same other.stepId result.stepId with
        | false => rfl
        | true =>
            have equal := (Json.same_iff (laterKeys other among)).mp found
            exact absurd (equal ▸ List.mem_map_of_mem among) distinct.1
      · exact induction (separate.mark isKey first.status) laterKeys distinct.2 later

end Lists

namespace Migration

variable {options : MigrationOptions} {layout : Layout} {index : IndexRebuild} {task : Task}
  {report : RunReport} {state next final : RunState} {session started middle after last : Session}
  {step : Step} {steps : List Step} {backup : Bool} {path : Path} {start lists : Lists}
  {results : List StepResult}

/-! ## Results and lists -/

/-- Results of different steps agree with lists: a step with a result is in the
list of its status and in no other, and any other identifier is where it was. -/
structure Mirrors (start : Lists) (results : List StepResult) (lists : Lists) : Prop where
  keys : ∀ result ∈ results, result.stepId.isKey = true
  distinct : (results.map (·.stepId.key?)).Nodup
  separate : lists.Distinct
  listed : ∀ result ∈ results, ∀ which, which ≠ .pending →
    result.stepId.isAmong (lists.bucket which) = decide (which = result.status)
  others : ∀ id, (∀ result ∈ results, Json.same result.stepId id = false) →
    ∀ which, id.isAmong (lists.bucket which) = id.isAmong (start.bucket which)

theorem Executes.mirrors (executed : Executes backup state session steps final last)
    (fresh : state.results = []) (keys : ∀ step ∈ steps, step.id.isKey = true)
    (distinct : (steps.map (·.id.key?)).Nodup) (separate : state.lists.Distinct) :
    Mirrors state.lists final.results final.lists := by
  obtain ⟨outcomes, results, _, marked⟩ := executed.records
  rw [fresh, List.nil_append] at results
  obtain ⟨resultKeys, apart, _⟩ := executed.reflects fresh keys distinct
  rw [results] at resultKeys apart ⊢
  rw [marked]
  exact ⟨resultKeys, apart, separate.markResults resultKeys,
    fun result member which => Lists.isAmong_markResults_self separate resultKeys apart member,
    fun id absent which => Lists.isAmong_markResults_other resultKeys absent⟩

theorem Mirrors.refuse (mirrors : Mirrors start state.results state.lists) (project path : Path)
    (error : String) :
    Mirrors start (state.refuse project path error).results
      (state.refuse project path error).lists := by
  have results : (state.refuse project path error).results =
      state.results.map (StepResult.refuse project path error) := rfl
  let refused := state.results.filter fun result => decide (result.IsAppliedAt project path)
  let marked := refused.map (StepResult.refuse project path error)
  have marks : (state.refuse project path error).lists = state.lists.markResults marked :=
    lists_refuse ..
  have ids : ∀ some : List StepResult,
      (some.map (StepResult.refuse project path error)).map (·.stepId.key?) =
        some.map (·.stepId.key?) := by
    intro some
    rw [List.map_map]
    exact List.map_congr_left fun result _ => congrArg Json.key? (refuse_stepId ..)
  have within : ∀ result ∈ refused, result ∈ state.results := fun result member =>
    (List.mem_filter.mp member).1
  have markedKeys : ∀ result ∈ marked, result.stepId.isKey = true := by
    intro result member
    obtain ⟨old, among, rfl⟩ := List.mem_map.mp member
    rw [refuse_stepId]
    exact mirrors.keys old (within old among)
  have markedApart : (marked.map (·.stepId.key?)).Nodup := by
    rw [ids refused]
    exact mirrors.distinct.sublist (List.filter_sublist.map _)
  rw [results, marks]
  refine ⟨?_, ?_, mirrors.separate.markResults markedKeys, ?_, ?_⟩
  · intro result member
    obtain ⟨old, among, rfl⟩ := List.mem_map.mp member
    rw [refuse_stepId]
    exact mirrors.keys old among
  · rw [ids state.results]
    exact mirrors.distinct
  · intro result member which decided
    obtain ⟨old, among, rfl⟩ := List.mem_map.mp member
    by_cases applied : old.IsAppliedAt project path
    · refine Lists.isAmong_markResults_self mirrors.separate markedKeys markedApart
        (List.mem_map_of_mem ?_) decided
      exact List.mem_filter.mpr ⟨among, by simpa using applied⟩
    · have kept : old.refuse project path error = old := by
        rw [StepResult.refuse, if_neg applied]
      rw [kept]
      refine (Lists.isAmong_markResults_other markedKeys fun other member => ?_).trans
        (mirrors.listed old among which decided)
      obtain ⟨another, found, rfl⟩ := List.mem_map.mp member
      rw [refuse_stepId]
      refine Lists.same_of_distinct mirrors.keys mirrors.distinct (within another found) among ?_
      rintro rfl
      exact applied (by simpa using (List.mem_filter.mp found).2)
  · intro id absent which
    have absentBefore : ∀ result ∈ state.results, Json.same result.stepId id = false := by
      intro result member
      have refusal := absent _ (List.mem_map_of_mem member)
      rwa [refuse_stepId] at refusal
    refine (Lists.isAmong_markResults_other markedKeys fun other member => ?_).trans
      (mirrors.others id absentBefore which)
    obtain ⟨another, found, rfl⟩ := List.mem_map.mp member
    rw [refuse_stepId]
    exact absentBefore another (within another found)

theorem Commits.mirrors {buffers : List Buffer} {written : List Path}
    {refused : List (Path × String)}
    (committed : Commits state session buffers final last written refused)
    (mirrors : Mirrors start state.results state.lists) :
    Mirrors start final.results final.lists := by
  induction committed with
  | nil => exact mirrors
  | unchanged _ _ induction => exact induction mirrors
  | stored _ _ _ _ induction => exact induction mirrors
  | refused _ _ _ _ induction => exact induction (mirrors.refuse _ _ _)

/-! ## Totals -/

theorem Processed.decided (processed : Processed backup step state session next after)
    (decided : ∀ result ∈ state.results, result.status ≠ .pending) :
    ∀ result ∈ next.results, result.status ≠ .pending := by
  have added : ∀ {last : StepResult}, last.status ≠ .pending →
      ∀ result ∈ state.results ++ [last], result.status ≠ .pending := by
    intro last known result member
    rcases List.mem_append.mp member with old | new
    · exact decided result old
    · rw [List.mem_singleton.mp new]
      exact known
  cases processed with
  | blocked _ _ =>
      rw [RunState.record_results]
      exact added (by simp [RunState.resultOf])
  | declined _ _ =>
      rw [RunState.record_results]
      exact added (by simp [RunState.resultOf])
  | unreadable _ _ _ _ _ _ =>
      rw [RunState.fail, RunState.record_results]
      exact added (by simp [RunState.resultOf])
  | unlocated _ _ buffered _ _ =>
      rw [RunState.fail, RunState.record_results, buffered.results]
      exact added (by simp [RunState.resultOf])
  | edited _ _ buffered _ _ copied _ =>
      obtain ⟨⟨backedUp, rfl⟩, _⟩ := backUp_outcome (fun _ => True) copied
      rw [afterEdit_results]
      show ∀ result ∈ _ ++ _, _
      rw [buffered.results]
      exact added (by simp [RunState.resultOf])

theorem Executes.decided (executed : Executes backup state session steps final last)
    (decided : ∀ result ∈ state.results, result.status ≠ .pending) :
    ∀ result ∈ final.results, result.status ≠ .pending := by
  induction executed with
  | nil _ => exact decided
  | cons first _ induction => exact induction (first.decided decided)

theorem Commits.decided {buffers : List Buffer} {written : List Path}
    {refused : List (Path × String)}
    (committed : Commits state session buffers final last written refused)
    (decided : ∀ result ∈ state.results, result.status ≠ .pending) :
    ∀ result ∈ final.results, result.status ≠ .pending := by
  intro result member
  rw [committed.results] at member
  obtain ⟨old, among, rfl⟩ := List.mem_map.mp member
  rw [refuseAll_status]
  split
  · simp
  · exact decided old among

/-- How many results have a status. -/
def countOf (status : StepStatus) (results : List StepResult) : Nat :=
  results.countP fun result => result.status = status

theorem foldl_count (results : List StepResult) (summary : RunSummary) :
    let counted := results.foldl RunSummary.count summary
    counted.total = summary.total ∧ counted.filesChanged = summary.filesChanged ∧
      counted.applied = summary.applied + countOf .applied results ∧
        counted.failed = summary.failed + countOf .failed results ∧
          counted.skipped = summary.skipped + countOf .skipped results := by
  induction results generalizing summary with
  | nil => simp [countOf]
  | cons result results induction =>
      obtain ⟨total, files, applied, failed, skipped⟩ := induction (summary.count result)
      simp only [List.foldl_cons, countOf, List.countP_cons] at *
      rw [total, files, applied, failed, skipped]
      cases status : result.status <;> simp [RunSummary.count, status] <;> omega

theorem countOf_whole (decided : ∀ result ∈ results, result.status ≠ .pending) :
    countOf .applied results + countOf .skipped results + countOf .failed results =
      results.length := by
  induction results with
  | nil => rfl
  | cons result results induction =>
      obtain ⟨known, later⟩ := List.forall_mem_cons.mp decided
      have rest := induction later
      simp only [countOf, List.countP_cons, List.length_cons] at rest ⊢
      cases status : result.status with
      | pending => exact absurd status known
      | _ => simp; omega

/-! ## Files that are written -/

/-- A file that a run has edited, and whose edits are reported: its buffer has
changed, and a result on it is still an applied one. -/
def IsWritten (project : Path) (results : List StepResult) (buffer : Buffer) : Prop :=
  buffer.content ≠ buffer.loaded ∧ ∃ result ∈ results, result.IsAppliedAt project buffer.path

/-- A processed step on a buffer that it changes is applied. -/
theorem Processed.edits (processed : Processed backup step state session next after)
    (edited : ∀ buffer ∈ state.buffers, buffer.content ≠ buffer.loaded →
      IsWritten session.project state.results buffer) :
    ∀ buffer ∈ next.buffers, buffer.content ≠ buffer.loaded →
      IsWritten session.project next.results buffer := by
  have grows : ∀ {more : List StepResult}, ∀ buffer ∈ state.buffers,
      buffer.content ≠ buffer.loaded →
        IsWritten session.project (state.results ++ more) buffer := by
    intro more buffer member changed
    obtain ⟨_, result, listed, applied⟩ := edited buffer member changed
    exact ⟨changed, result, List.mem_append_left _ listed, applied⟩
  have opens : ∀ {opened : RunState} {path : Path} {content : List Char},
      Opens session.workspace path state opened content → ∀ buffer ∈ opened.buffers,
        buffer.content ≠ buffer.loaded → buffer ∈ state.buffers := by
    intro opened path content buffered buffer member changed
    cases buffered with
    | known found => exact member
    | loaded absent clean read =>
        rcases List.mem_append.mp member with old | new
        · exact old
        · rw [List.mem_singleton.mp new] at changed
          exact absurd rfl changed
  cases processed with
  | blocked _ _ =>
      rw [RunState.record_results, RunState.record_buffers]
      exact grows
  | declined _ _ =>
      rw [RunState.record_results, RunState.record_buffers]
      exact grows
  | unreadable _ _ _ _ _ _ =>
      rw [RunState.fail, RunState.record_results, RunState.record_buffers]
      exact grows
  | unlocated _ _ buffered _ _ =>
      rw [RunState.fail, RunState.record_results, RunState.record_buffers, buffered.results]
      exact fun buffer member changed => grows buffer (opens buffered buffer member changed) changed
  | edited free known buffered made before copied quiet =>
      rename_i opened kept ready middle key content edit
      obtain ⟨⟨backedUp, rfl⟩, _⟩ := backUp_outcome (fun _ => True) copied
      rw [afterEdit_results]
      intro buffer member changed
      have listed : buffer ∈ opened.buffers.map fun other =>
          if other.path = key then { other with content := edit.content } else other := by
        rw [afterEdit, RunState.record_buffers, RunState.keepSideEffect_buffers] at member
        exact member
      obtain ⟨old, among, same⟩ := List.mem_map.mp listed
      by_cases here : old.path = key
      · rw [if_pos here] at same
        have path : buffer.path = key := by rw [← same]; exact here
        refine ⟨changed, _, List.mem_append_right _ List.mem_cons_self, rfl, ?_⟩
        rw [path]
        exact known
      · rw [if_neg here] at same
        subst same
        show IsWritten _ (opened.results ++ _) _
        rw [buffered.results]
        exact grows old (opens buffered old among changed) changed

theorem Executes.edits (executed : Executes backup state session steps final last)
    (edited : ∀ buffer ∈ state.buffers, buffer.content ≠ buffer.loaded →
      IsWritten session.project state.results buffer) :
    ∀ buffer ∈ final.buffers, buffer.content ≠ buffer.loaded →
      IsWritten session.project final.results buffer := by
  induction executed with
  | nil _ => exact edited
  | cons first _ induction =>
      rw [← first.sameSetting.project]
      exact induction (first.sameSetting.project ▸ first.edits edited)

/-- The files that are written are those with a changed buffer that were not
refused. -/
theorem Commits.written_eq {buffers : List Buffer} {written : List Path}
    {refused : List (Path × String)}
    (committed : Commits state session buffers final last written refused)
    (distinct : (buffers.map Buffer.path).Nodup) :
    written = (buffers.filter fun buffer =>
      decide (buffer.content ≠ buffer.loaded ∧ buffer.path ∉ refused.map Prod.fst)).map
        Buffer.path := by
  induction committed with
  | nil => rfl
  | unchanged same _ induction =>
      rw [List.map_cons, List.nodup_cons] at distinct
      rw [List.filter_cons_of_neg (by simp [same])]
      exact induction distinct.2
  | @stored _ _ _ _ _ _ buffer buffers _ refused changed _ _ later induction =>
      rw [List.map_cons, List.nodup_cons] at distinct
      have stands : buffer.path ∉ refused.map Prod.fst := by
        intro listed
        obtain ⟨entry, member, same⟩ := List.mem_map.mp listed
        exact distinct.1 (same ▸ later.refused_buffers entry member)
      rw [List.filter_cons_of_pos (by simpa [changed] using stands), List.map_cons,
        ← induction distinct.2]
  | @refused _ _ _ _ _ _ buffer buffers _ refused _ error changed _ _ _ induction =>
      rw [List.map_cons, List.nodup_cons] at distinct
      rw [List.filter_cons_of_neg (by simp), induction distinct.2]
      congr 1
      refine List.filter_congr fun other member => ?_
      have apart : other.path ≠ buffer.path := fun same =>
        distinct.1 (same ▸ List.mem_map_of_mem member)
      simp only [List.map_cons, List.mem_cons, apart, false_or]

end Migration

end Restyle
