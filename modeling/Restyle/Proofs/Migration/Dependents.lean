import Restyle.Proofs.Migration.Arrivals
import Restyle.Proofs.Migration.Errands
import Restyle.Proofs.Migration.Reports
import Restyle.Proofs.Schedule.Precedence

/-!
# Steps whose dependencies fail

A run skips a step when a dependency of it is in the list of what has failed.  That list
starts with what had failed before and changes with every step, so `HasFailed` says what it
comes to: a dependency has failed if it is a step that has failed in this run, or if it
had failed before and this run has not come to it.  As dependencies come first, a step is
skipped for a dependency that fails and not for one that is tried again and succeeds.
A step that is skipped has not failed, so nothing is skipped because of it.
-/

namespace Restyle

open Relation

theorem Json.isAmong_congr {id other : Json} (isKey : id.isKey = true)
    (equal : Json.same id other = true) (values : List Json) :
    other.isAmong values = id.isAmong values := by
  rw [Bool.eq_iff_iff, Json.isAmong_iff isKey, Json.isAmong_iff (Json.isKey_of_same isKey equal),
    (Json.same_iff isKey).mp equal]

/-- The result of a step that is skipped because a dependency of it has failed. -/
def Step.blockedResult (step : Step) : StepResult :=
  RunState.resultOf step .skipped (some dependencyFailed) none

/-- Whether a dependency has failed, by the results of a run so far and what had failed
before it. -/
def HasFailed (carried : List Json) (results : List StepResult) (dependency : Json) : Prop :=
  (∃ result ∈ results, Json.same result.stepId dependency = true ∧ result.status = .failed) ∨
    dependency.isAmong carried = true ∧
      ∀ result ∈ results, Json.same result.stepId dependency = false

namespace Migration

open Activity

variable {options : MigrationOptions} {layout : Layout} {index : IndexRebuild} {task : Task}
  {report : RunReport} {state next executed : RunState}
  {session started middle after : Session} {step late early : Step} {steps scheduled : List Step}
  {backup ask : Bool} {start lists : Lists} {results : List StepResult} {arrival : Arrival}
  {dependency : Json} {carried : List Json}

/-! ## What has failed -/

/-- Where results and lists agree, the failed list holds what has failed. -/
theorem Mirrors.hasFailed_iff (mirrors : Mirrors start results lists) :
    dependency.isAmong lists.failed = true ↔ HasFailed start.failed results dependency := by
  by_cases known : ∃ result ∈ results, Json.same result.stepId dependency = true
  · obtain ⟨result, member, equal⟩ := known
    have isKey := mirrors.keys result member
    rw [Json.isAmong_congr isKey equal]
    have listed := mirrors.listed result member .failed (by decide)
    rw [show lists.failed = lists.bucket .failed from rfl, listed, decide_eq_true_eq]
    constructor
    · intro failed
      exact Or.inl ⟨result, member, equal, failed.symm⟩
    · rintro (⟨other, among, same, failed⟩ | ⟨_, unknown⟩)
      · have keys : result.stepId.key? = other.stepId.key? :=
          ((Json.same_iff isKey).mp equal).trans
            ((Json.same_iff (mirrors.keys other among)).mp same).symm
        rw [List.inj_on_of_nodup_map mirrors.distinct member among keys, failed]
      · rw [unknown result member] at equal
        cases equal
  · have unknown : ∀ result ∈ results, Json.same result.stepId dependency = false := by
      intro result member
      exact Bool.eq_false_iff.mpr fun equal => known ⟨result, member, equal⟩
    have kept := mirrors.others dependency unknown .failed
    rw [show lists.failed = lists.bucket .failed from rfl, kept]
    constructor
    · intro before
      exact Or.inr ⟨before, unknown⟩
    · rintro (⟨result, member, equal, _⟩ | ⟨before, _⟩)
      · exact absurd ⟨result, member, equal⟩ known
      · exact before

theorem Mirrors.isBlocked_iff (mirrors : Mirrors start state.results state.lists) :
    state.isBlocked step = true ↔
      ∃ dependency ∈ step.dependencyList, HasFailed start.failed state.results dependency := by
  unfold RunState.isBlocked
  rw [List.any_eq_true]
  exact exists_congr fun dependency => and_congr_right fun _ => mirrors.hasFailed_iff

/-! ## What becomes of a step -/

/-- A step that is processed gets the result of a blocked one only if it is blocked. -/
theorem Processed.isBlocked (processed : Processed backup step state session next after)
    (recorded : next.results = state.results ++ [step.blockedResult]) :
    state.isBlocked step = true := by
  have apart : ∀ {result : StepResult}, next.results = state.results ++ [result] →
      result.error ≠ some dependencyFailed ∨ result.status ≠ .skipped → False := by
    intro result results differs
    rw [results, List.append_cancel_left_eq] at recorded
    cases recorded
    simp [Step.blockedResult, RunState.resultOf] at differs
  cases processed with
  | blocked dependency _ => exact dependency
  | declined _ _ =>
      exact (apart (RunState.record_results ..) (Or.inl (by simp [RunState.resultOf]))).elim
  | unreadable _ _ _ _ _ _ =>
      exact (apart (RunState.record_results ..) (Or.inr (by simp [RunState.resultOf]))).elim
  | unlocated _ _ buffered _ _ =>
      rw [← buffered.results] at apart
      exact (apart (RunState.record_results ..) (Or.inr (by simp [RunState.resultOf]))).elim
  | edited _ _ buffered _ _ copied _ =>
      obtain ⟨⟨backedUp, rfl⟩, _⟩ := backUp_outcome (fun _ => True) copied
      rw [← buffered.results] at apart
      exact (apart (afterEdit_results ..) (Or.inr (by simp [RunState.resultOf]))).elim

/-- What is logged about a step that is skipped. -/
def skipEntry (step : Step) : LogEntry :=
  ⟨.debug, .running, "Skipping " ++ step.id.shown ++ ": dependency failed"⟩

theorem handle_of_blocked (blocked : state.isBlocked step = true) :
    handle backup ask state step session =
      .ok (none, state.record step .skipped (some dependencyFailed) none)
        { session with log := session.log ++ [skipEntry step] } := by
  unfold handle process skipBlocked
  rw [blocked]
  simp only [Bool.not_true, Bool.and_false, Bool.false_eq_true, if_false, if_true]
  rfl

theorem isBlocked_of_handled {decision : Option Decision}
    (handled : handle backup ask state step session = .ok (decision, next) after)
    (recorded : next.results = state.results ++ [step.blockedResult]) :
    state.isBlocked step = true := by
  apply ((handle_eq_ok handled).processed ?_).isBlocked recorded
  rintro rfl
  rw [(handle_eq_ok handled).of_quit.2.1] at recorded
  simp at recorded

/-- What a run does with a step that it comes to, as far as dependencies matter: it is
skipped because of them exactly if one has failed, and then in silence, whatever the
files and the answers are. -/
structure SkipsExactly (backup : Bool) (carried : List Json) (arrival : Arrival) : Prop where
  exact : (∃ decision next after, arrival.handling backup = .ok (decision, next) after ∧
      next.results = arrival.state.results ++ [arrival.step.blockedResult]) ↔
    ∃ dependency ∈ arrival.step.dependencyList,
      HasFailed carried arrival.state.results dependency
  silent : (∃ dependency ∈ arrival.step.dependencyList,
      HasFailed carried arrival.state.results dependency) →
    ∃ next, next.buffers = arrival.state.buffers ∧
      next.results = arrival.state.results ++ [arrival.step.blockedResult] ∧
        ∀ workspace answers,
          { arrival with session := { arrival.session with workspace, answers } }.handling backup =
            .ok (none, next)
              { arrival.session with
                workspace
                answers
                log := arrival.session.log ++ [skipEntry arrival.step] }

theorem SkipsExactly.of_mirrors
    (mirrors : Mirrors start arrival.state.results arrival.state.lists) :
    SkipsExactly backup start.failed arrival where
  exact := by
    rw [← mirrors.isBlocked_iff]
    constructor
    · rintro ⟨decision, next, after, handled, recorded⟩
      exact isBlocked_of_handled handled recorded
    · intro blocked
      exact ⟨_, _, _, handle_of_blocked blocked, RunState.record_results ..⟩
  silent := by
    rw [← mirrors.isBlocked_iff]
    intro blocked
    exact ⟨_, RunState.record_buffers .., RunState.record_results ..,
      fun workspace answers => handle_of_blocked blocked⟩

/-! ## The order of a run -/

theorem Schedules.areDistinct {selection : Selection}
    (schedules : Schedules selection steps scheduled) : AreDistinct scheduled := by
  obtain ⟨known, distinct, _⟩ := schedules.steps
  exact ⟨fun step member => (known step member).2.1, distinct⟩

/-- Where no step of a plan needs itself, what a scheduled step heeds of the others comes
before it. -/
theorem Schedules.mem_before {selection : Selection} {before behind : List Step}
    (schedules : Schedules selection steps scheduled)
    (acyclic : ∀ step, ¬ TransGen (Step.DependsOn steps) step step)
    (split : scheduled = before ++ late :: behind) (heeds : late.Heeds scheduled early) :
    early ∈ before := by
  obtain ⟨selected, schedule, filtered, ordered, sound, rfl⟩ := schedules
  have keys := (Schedule.ofSteps_eq_ok ordered).1
  cases (Schedule.ofSteps_of_keys keys).symm.trans ordered
  have fewer := (Selection.filter_eq_ok filtered).1.subset
  refine mem_before_of_acyclic keys sound (fun step around => ?_) split heeds.2.1 heeds.2.2
  refine acyclic step (TransGen.mono (fun _ _ dependsOn => ?_) _ _ around)
  exact ⟨fewer dependsOn.1, fewer dependsOn.2.1, dependsOn.2.2⟩

theorem ComesTo.split (comes : ComesTo options task started arrival) :
    ∃ before behind, task.steps = before ++ arrival.step :: behind ∧
      Executes options.backup (startState task.checkpoint) started before arrival.state
        arrival.session := by
  obtain ⟨before, behind, split, executes, _⟩ := comes.2.split
  exact ⟨before, behind, split, executes.of_quiet (conversing_quiet options started)⟩

/-- Results and lists agree after a first part of the steps of a task. -/
theorem Executes.mirrors_of_split (split : task.steps = before ++ behind)
    (executes : Executes backup (startState task.checkpoint) started before state session)
    (areDistinct : AreDistinct task.steps) (separate : task.start.Distinct) :
    Mirrors task.start state.results state.lists := by
  obtain ⟨keys, distinct⟩ := areDistinct
  rw [split] at keys distinct
  rw [List.map_append] at distinct
  exact executes.mirrors (startState_results _)
    (fun step member => keys step (List.mem_append_left _ member))
    (List.nodup_append.mp distinct).1 separate

theorem ComesTo.mirrors (comes : ComesTo options task started arrival)
    (areDistinct : AreDistinct task.steps) (separate : task.start.Distinct) :
    Mirrors task.start arrival.state.results arrival.state.lists := by
  obtain ⟨before, behind, split, executes⟩ := comes.split
  exact executes.mirrors_of_split split areDistinct separate

theorem Executes.result_of_mem {final : RunState} {last : Session}
    (executes : Executes backup state session steps final last) (member : step ∈ steps) :
    ∃ result ∈ final.results, result.subject = step.subject := by
  obtain ⟨outcomes, results, subjects, _⟩ := executes.records
  have listed : step.subject ∈ outcomes.map StepResult.subject :=
    subjects ▸ List.mem_map_of_mem member
  obtain ⟨result, among, same⟩ := List.mem_map.mp listed
  exact ⟨result, results ▸ List.mem_append_right _ among, same⟩

/-- What is known of a step that comes before another one, and that the other one heeds,
when a run comes to that: its result, which decides whether the other is skipped for it. -/
structure Decides (backup : Bool) (carried : List Json) (arrival : Arrival) (early : Step)
    (result : StepResult) : Prop where
  member : result ∈ arrival.state.results
  subject : result.subject = early.subject
  failed : result.status = .failed →
    ∀ decision next after, arrival.handling backup = .ok (decision, next) after →
      next.results = arrival.state.results ++ [arrival.step.blockedResult]
  retried : result.status ≠ .failed → ∀ dependency, Json.same early.id dependency = true →
    ¬ HasFailed carried arrival.state.results dependency

theorem ComesTo.decides {selection : Selection} (comes : ComesTo options task started arrival)
    (schedules : Schedules selection task.plan.steps task.steps)
    (separate : task.start.Distinct)
    (acyclic : ∀ step, ¬ TransGen (Step.DependsOn task.plan.steps) step step)
    (heeds : arrival.step.Heeds task.steps early) :
    ∃ result, Decides options.backup task.start.failed arrival early result := by
  have mirrors := comes.mirrors schedules.areDistinct separate
  obtain ⟨before, behind, split, executes⟩ := comes.split
  obtain ⟨result, member, subject⟩ :=
    executes.result_of_mem (schedules.mem_before acyclic split heeds)
  have id : result.stepId = early.id := congrArg Prod.fst subject
  have isKey := schedules.areDistinct.keys early heeds.2.1
  refine ⟨result, member, subject, ?_, ?_⟩
  · intro failed decision next after handled
    obtain ⟨dependency, heeded, equal⟩ := List.any_eq_true.mp heeds.2.2
    have blocked : arrival.state.isBlocked arrival.step = true :=
      mirrors.isBlocked_iff.mpr ⟨dependency, Step.mem_of_heeded heeded,
        Or.inl ⟨result, member, id ▸ equal, failed⟩⟩
    cases (handle_of_blocked blocked).symm.trans handled
    exact RunState.record_results ..
  · rintro lives dependency equal (⟨other, among, same, failed⟩ | ⟨_, unknown⟩)
    · have keys : result.stepId.key? = other.stepId.key? := by
        rw [id, (Json.same_iff isKey).mp equal,
          (Json.same_iff (mirrors.keys other among)).mp same]
      rw [List.inj_on_of_nodup_map mirrors.distinct member among keys] at lives
      exact lives failed
    · rw [← id, unknown result member] at equal
      cases equal

/-! ## Whole runs -/

theorem refuseAll_of_unapplied (project : Path) (refused : List (Path × String))
    {result : StepResult} (unapplied : result.status ≠ .applied) :
    refuseAll project refused result = result := by
  induction refused with
  | nil => rfl
  | cons entry refused induction =>
      have kept : result.refuse project entry.1 entry.2 = result :=
        if_neg fun applied => unapplied applied.1
      rw [refuseAll, List.foldl_cons, kept]
      exact induction

/-- What a run reports are the results of its steps, of which only applied ones can have
changed. -/
theorem finish_results (finished : finish layout index task executed middle = .ok report after) :
    ∃ refused, report.results = executed.results.map (refuseAll middle.project refused) := by
  obtain ⟨state, written, refused, committed, files, warnings, styled, ready, commitment, _, _,
    conclusion⟩ := finish_eq_ok finished
  obtain ⟨_, _, _, _, _, _, results, _, _⟩ := conclude_eq_ok conclusion
  exact ⟨refused, results.trans commitment.results⟩

/-- Whether the steps that heed one that has failed are skipped, by the results of the
execution and those of the report. -/
def SkipsHeeding (steps : List Step) (executed : RunState) (results : List StepResult) : Prop :=
  ∀ late early : Step, late.Heeds steps early →
    (∃ result ∈ executed.results, result.stepId = early.id ∧ result.status = .failed) →
      ∀ result ∈ results, result.stepId = late.id → result = late.blockedResult

/-- An execution that returns has recorded each of its results at an arrival, on top of the
results that there were. -/
theorem comesTo_of_result (applying : options.apply = true)
    (executing : executeAll options (startState task.checkpoint) task.steps started =
      .ok executed middle) {result : StepResult} (member : result ∈ executed.results) :
    ∃ arrival decision next after, ComesTo options task started arrival ∧
      arrival.handling options.backup = .ok (decision, next) after ∧
        next.results = arrival.state.results ++ [result] ∧
          arrival.state.results <+: executed.results ∧ arrival.step.id = result.stepId := by
  obtain ⟨inner, execution, _⟩ := executeAll_eq_ok executing
  rcases arrives_of_result execution member with
    old | ⟨arrival, decision, next, after, arrives, handled, recorded⟩
  · rw [startState_results] at old
    cases old
  · have goesOn : decision ≠ some .quit := by
      rintro rfl
      rw [(handle_eq_ok handled).of_quit.2.1] at recorded
      simp at recorded
    obtain ⟨new, results, subject, _⟩ := ((handle_eq_ok handled).processed goesOn).records
    rw [results, List.append_cancel_left_eq] at recorded
    cases recorded
    obtain ⟨_, behind, _, _, same⟩ := arrives.split
    obtain ⟨_, _, _, later, _⟩ := execute_executes (same.symm.trans execution)
    obtain ⟨outcomes, final, _⟩ := later.records
    exact ⟨arrival, decision, next, after, ⟨applying, arrives⟩, handled, results,
      ⟨outcomes, final.symm⟩, (congrArg Prod.fst subject).symm⟩

theorem executeAll_mirrors (areDistinct : AreDistinct task.steps) (separate : task.start.Distinct)
    (executing : executeAll options (startState task.checkpoint) task.steps started =
      .ok executed middle) :
    Mirrors task.start executed.results executed.lists := by
  obtain ⟨done, cut, split, executes, _⟩ := executeAll_executes executing
  exact executes.mirrors_of_split split areDistinct separate

/-- Where no step of a plan needs itself, the steps that heed one that fails are skipped
if a run comes to them. -/
theorem executeAll_skipsHeeding {selection : Selection} (applying : options.apply = true)
    (schedules : Schedules selection task.plan.steps task.steps)
    (separate : task.start.Distinct)
    (acyclic : ∀ step, ¬ TransGen (Step.DependsOn task.plan.steps) step step)
    (executing : executeAll options (startState task.checkpoint) task.steps started =
      .ok executed middle) :
    SkipsHeeding task.steps executed executed.results := by
  rintro late early heeds ⟨failure, among, named, failed⟩ result member known
  have areDistinct := schedules.areDistinct
  have mirrors := executeAll_mirrors areDistinct separate executing
  obtain ⟨arrival, decision, next, after, comes, handled, recorded, earlier, id⟩ :=
    comesTo_of_result applying executing member
  obtain ⟨before, behind, split, _⟩ := comes.split
  have here : arrival.step = late := by
    refine areDistinct.eq_of_same (split ▸ by simp) heeds.1 ?_
    rw [id, known]
    exact Json.same_self (areDistinct.keys late heeds.1)
  subst here
  obtain ⟨decider, decides⟩ := comes.decides schedules separate acyclic heeds
  have decided : decider = failure := by
    apply List.inj_on_of_nodup_map mirrors.distinct (earlier.subset decides.member) among
    have same : decider.stepId = early.id := congrArg Prod.fst decides.subject
    rw [named, same]
  have skipped := decides.failed (decided ▸ failed) decision next after handled
  rw [recorded, List.append_cancel_left_eq] at skipped
  exact List.singleton_inj.mp skipped

theorem SkipsHeeding.reported (skips : SkipsHeeding steps executed executed.results)
    (finished : finish layout index task executed middle = .ok report after) :
    SkipsHeeding steps executed report.results := by
  obtain ⟨refused, results⟩ := finish_results finished
  intro late early heeds failure result member known
  obtain ⟨old, among, rfl⟩ := List.mem_map.mp (results ▸ member)
  have same : (refuseAll middle.project refused old).stepId = old.stepId :=
    congrArg Prod.fst (refuseAll_subject ..)
  have blocked := skips late early heeds failure old among (same.symm.trans known)
  rw [refuseAll_of_unapplied, blocked]
  rw [blocked]
  simp [Step.blockedResult, RunState.resultOf]

/-- Skipping because of dependencies is exact.  Wherever a run comes to a step, it skips it
because of them exactly if one has failed, and then without a question, without a look at
any file and without a change of a buffer.  Where no step of the plan needs itself, a run
knows what became of a dependency that the step heeds: the step is skipped if that has
failed, and not because of it if it was tried and has not failed.  So of an execution that
returns, no step is applied that heeds one that has failed, nor is it so in the report. -/
theorem dependency_skipping_exact (prepared : prepare options layout session = .ok task started)
    (own : ∀ saved, task.checkpoint = some saved → SavedByRun layout saved) :
    (∀ arrival, ComesTo options task started arrival →
        SkipsExactly options.backup task.start.failed arrival) ∧
      ((∀ step, ¬ TransGen (Step.DependsOn task.plan.steps) step step) →
        (∀ arrival early, ComesTo options task started arrival →
          arrival.step.Heeds task.steps early →
            ∃ result, Decides options.backup task.start.failed arrival early result) ∧
          ∀ executed middle, options.apply = true →
            executeAll options (startState task.checkpoint) task.steps started =
              .ok executed middle →
              SkipsHeeding task.steps executed executed.results ∧
                ∀ index report after,
                  finish layout index task executed middle = .ok report after →
                    SkipsHeeding task.steps executed report.results) := by
  have schedules := (prepare_eq_ok prepared).1.steps
  have separate := startState_distinct own
  constructor
  · intro arrival comes
    exact .of_mirrors (comes.mirrors schedules.areDistinct separate)
  intro acyclic
  constructor
  · intro arrival early comes heeds
    exact comes.decides schedules separate acyclic heeds
  · intro executed middle applying executing
    have skips := executeAll_skipsHeeding applying schedules separate acyclic executing
    exact ⟨skips, fun index report after finished => skips.reported finished⟩

/-- The identifiers and the statuses of the results of an execution that returns. -/
def statusesOf (outcome : EStateM.Result Failure Session RunState) :
    Option (List (Json × StepStatus)) :=
  match outcome with
  | .ok executed _ => some (executed.results.map fun result => (result.stepId, result.status))
  | .error _ _ => none

theorem exists_of_statusesOf {outcome : EStateM.Result Failure Session RunState}
    {statuses : List (Json × StepStatus)} (observed : statusesOf outcome = some statuses) :
    ∃ executed middle, outcome = .ok executed middle ∧
      ∀ pair ∈ statuses, ∃ result ∈ executed.results,
        result.stepId = pair.1 ∧ result.status = pair.2 := by
  cases outcome with
  | error failure stopped => cases observed
  | ok executed middle =>
      refine ⟨executed, middle, rfl, fun pair member => ?_⟩
      rw [← Option.some.inj observed] at member
      obtain ⟨result, among, rfl⟩ := List.mem_map.mp member
      exact ⟨result, among, rfl, rfl⟩

/-- A step that fails, one that depends on it, and one that depends on the second. -/
def chainErrands : List Json :=
  [errand (.text "a") "q" [], errand (.text "b") "y" [.text "a"],
    errand (.text "c") "z" [.text "b"]]

def chainPlan : Plan := (Plan.ofJson (.object (errandFields chainErrands))).toOption.getD default

/-- The session once that plan is loaded. -/
def chainSession : Session := chainPlan.noted smallLayout.plan (errandProject chainErrands)

theorem chain_prepares :
    ∃ task, task.plan = chainPlan ∧ task.checkpoint = none ∧ task.steps = chainPlan.steps ∧
      prepare { apply := true } smallLayout (errandProject chainErrands) =
        .ok task chainSession := by
  apply errand_prepares
  · simp only [chainErrands, List.forall_mem_cons]
    refine ⟨isTidy_errand _ trivial (by simp), isTidy_errand _ trivial ?_,
      isTidy_errand _ trivial ?_, by simp⟩
    · exact List.forall_mem_singleton.mpr trivial
    · exact List.forall_mem_singleton.mpr trivial
  · decide +kernel
  · decide +kernel
  · decide +kernel

theorem chain_executes :
    statusesOf (executeAll { apply := true } {} chainPlan.steps chainSession) =
      some [(.text "a", .failed), (.text "b", .skipped), (.text "c", .applied)] := by
  decide +kernel

theorem chain_runs :
    ∃ task executed middle, task.plan = chainPlan ∧ task.checkpoint = none ∧
      prepare { apply := true } smallLayout (errandProject chainErrands) = .ok task chainSession ∧
        executeAll { apply := true } (startState task.checkpoint) task.steps chainSession =
          .ok executed middle ∧
        ∀ pair ∈ [(Json.text "a", StepStatus.failed), (.text "b", .skipped),
            (.text "c", .applied)],
          ∃ result ∈ executed.results, result.stepId = pair.1 ∧ result.status = pair.2 := by
  obtain ⟨task, plan, fresh, steps, prepared⟩ := chain_prepares
  obtain ⟨executed, middle, executes, results⟩ := exists_of_statusesOf chain_executes
  refine ⟨task, executed, middle, plan, fresh, prepared, ?_, results⟩
  rw [fresh, steps]
  exact executes

theorem chain_acyclic (step : Step) : ¬ TransGen (Step.DependsOn chainPlan.steps) step step := by
  have falls : ∀ late ∈ chainPlan.steps, ∀ early ∈ chainPlan.steps,
      early.id.isAmong late.dependencyList = true →
        chainPlan.steps.idxOf early < chainPlan.steps.idxOf late := by
    decide +kernel
  exact not_dependsOn_itself
    (fun late early depends => falls late depends.1 early depends.2.1 depends.2.2) step

theorem dependency_skipping_exact_chain :
    ∃ task started executed middle,
      prepare { apply := true } smallLayout (errandProject chainErrands) = .ok task started ∧
        executeAll { apply := true } (startState task.checkpoint) task.steps started =
          .ok executed middle ∧
        (∀ arrival, ComesTo { apply := true } task started arrival →
          SkipsExactly true task.start.failed arrival) ∧
        SkipsHeeding task.steps executed executed.results ∧
          ∃ result ∈ executed.results, result.stepId = .text "b" ∧ result.status = .skipped := by
  obtain ⟨task, executed, middle, plan, fresh, prepared, executing, results⟩ := chain_runs
  obtain ⟨exact, acyclic⟩ := dependency_skipping_exact prepared
    fun saved resumed => by rw [fresh] at resumed; cases resumed
  obtain ⟨_, returned⟩ := acyclic (plan ▸ chain_acyclic)
  exact ⟨task, chainSession, executed, middle, prepared, executing, exact,
    (returned executed middle rfl executing).1, results (.text "b", .skipped) (by simp)⟩

/-- A step that has a null before another step among its dependencies, that step, which
fails, and one whose identifier is null. -/
def hidingErrands : List Json :=
  [errand (.text "a") "x" [.null, .text "b"], errand (.text "b") "q" [], errand .null "y" []]

def hidingPlan : Plan := (Plan.ofJson (.object (errandFields hidingErrands))).toOption.getD default

theorem hiding_prepares :
    ∃ task, task.plan = hidingPlan ∧ task.checkpoint = none ∧ task.steps = hidingPlan.steps ∧
      prepare { apply := true } smallLayout (errandProject hidingErrands) =
        .ok task (hidingPlan.noted smallLayout.plan (errandProject hidingErrands)) := by
  apply errand_prepares
  · simp only [hidingErrands, List.forall_mem_cons]
    refine ⟨isTidy_errand _ trivial ?_, isTidy_errand _ trivial (by simp),
      isTidy_errand _ trivial (by simp), by simp⟩
    exact List.forall_mem_cons.mpr ⟨trivial, List.forall_mem_singleton.mpr trivial⟩
  · decide +kernel
  · decide +kernel
  · decide +kernel

/-- Where the identifier of a step is null, a step can be applied although one that it
directly depends on is scheduled and fails, and no step needs itself. -/
theorem hidden_failure_applied :
    ∃ task started executed middle late early,
      prepare { apply := true } smallLayout (errandProject hidingErrands) = .ok task started ∧
        (∀ step, ¬ TransGen (Step.DependsOn task.plan.steps) step step) ∧
        Step.DependsOn task.plan.steps late early ∧ early ∈ task.steps ∧
        executeAll { apply := true } (startState task.checkpoint) task.steps started =
          .ok executed middle ∧
        (∃ result ∈ executed.results, result.stepId = early.id ∧ result.status = .failed) ∧
          ∃ result ∈ executed.results, result.stepId = late.id ∧ result.status = .applied := by
  obtain ⟨task, plan, fresh, steps, prepared⟩ := hiding_prepares
  have observed : statusesOf (executeAll { apply := true } {} hidingPlan.steps
      (hidingPlan.noted smallLayout.plan (errandProject hidingErrands))) =
        some [(.text "a", .applied), (.text "b", .failed), (.null, .applied)] := by
    decide +kernel
  obtain ⟨executed, middle, executes, results⟩ := exists_of_statusesOf observed
  obtain ⟨late, member, early, among, listed, lateId, earlyId⟩ :
      ∃ late ∈ hidingPlan.steps, ∃ early ∈ hidingPlan.steps,
        early.id.isAmong late.dependencyList = true ∧ late.id = .text "a" ∧
          early.id = .text "b" := by
    decide +kernel
  have falls : ∀ late ∈ hidingPlan.steps, ∀ early ∈ hidingPlan.steps,
      early.id.isAmong late.dependencyList = true →
        early.dependencyList.length < late.dependencyList.length := by
    decide +kernel
  refine ⟨task, _, executed, middle, late, early, prepared, ?_, ?_, ?_, ?_, ?_, ?_⟩
  · rw [plan]
    exact not_dependsOn_itself
      (fun late early depends => falls late depends.1 early depends.2.1 depends.2.2)
  · rw [plan]
    exact ⟨member, among, listed⟩
  · rw [steps]
    exact among
  · rw [fresh, steps]
    exact executes
  · rw [earlyId]
    exact results (.text "b", .failed) (by simp)
  · rw [lateId]
    exact results (.text "a", .applied) (by simp)

/-! ## Chains of dependencies -/

theorem applyStep_status (success : applyStep backup state step session = .ok next after) :
    ∃ earlier result, next.results = earlier ++ [result] ∧ result.status ≠ .skipped := by
  unfold applyStep at success
  obtain ⟨path, _, _, rest⟩ := bind_eq_ok.mp success
  obtain ⟨outcome, ready, _, rest⟩ := bind_eq_ok.mp rest
  cases outcome with
  | error reason =>
      obtain ⟨rfl, _⟩ := pure_eq_ok.mp rest
      exact ⟨_, _, RunState.record_results .., by simp [RunState.resultOf]⟩
  | ok pair =>
      obtain ⟨opened, content⟩ := pair
      obtain ⟨edit, _, _, rest⟩ := bind_eq_ok.mp rest
      cases edit with
      | none =>
          obtain ⟨rfl, _⟩ := pure_eq_ok.mp rest
          exact ⟨_, _, RunState.record_results .., by simp [RunState.resultOf]⟩
      | some edit =>
          obtain ⟨kept, _, _, _, rfl⟩ := editing_eq_ok rest
          exact ⟨_, _, afterEdit_results .., by simp [RunState.resultOf]⟩

/-- A run that does not ask skips only steps that are blocked. -/
theorem process_skipped {result : StepResult}
    (success : process backup state step session = .ok next after)
    (recorded : next.results = state.results ++ [result]) (skipped : result.status = .skipped) :
    state.isBlocked step = true ∧ result = step.blockedResult := by
  unfold process at success
  split at success
  · rename_i blocked
    obtain ⟨_, _, _, rest⟩ := bind_eq_ok.mp success
    obtain ⟨rfl, _⟩ := pure_eq_ok.mp rest
    rw [RunState.record_results, List.append_cancel_left_eq] at recorded
    exact ⟨blocked, (List.singleton_inj.mp recorded).symm⟩
  · obtain ⟨earlier, other, results, lives⟩ := applyStep_status success
    rw [recorded] at results
    obtain ⟨_, same⟩ := List.append_inj' results rfl
    rw [List.singleton_inj.mp same] at skipped
    exact absurd skipped lives

theorem Handled.unasked_process {decision : Option Decision}
    (handled : Handled backup ask state step session decision next after) (calm : ask = false) :
    process backup state step session = .ok next after := by
  cases handled with
  | unasked _ processed => exact processed
  | declined asking _ _ =>
      rw [calm] at asking
      cases asking
  | accepted asking _ _ _ =>
      rw [calm] at asking
      cases asking
  | quit asking _ _ _ =>
      rw [calm] at asking
      cases asking

theorem Arrives.asks (arrives : Arrives backup ask state session steps arrival)
    (calm : ask = false) : arrival.asks = false := by
  induction arrives with
  | here => exact calm
  | later _ _ _ induction => exact induction (by simp [asksOn, calm])

/-- Whether exactly those of some steps are skipped, by the results of a run, of which a
direct dependency has failed in the execution. -/
structure SkipsDirect (steps : List Step) (executed : RunState) (results : List StepResult) :
    Prop where
  whole : ∀ step ∈ steps, ∃ result ∈ results, result.subject = step.subject
  skips : SkipsHeeding steps executed results
  only : ∀ result ∈ results, result.status = .skipped →
    ∃ late early : Step, late.DependsOn steps early ∧ result = late.blockedResult ∧
      ∃ failure ∈ executed.results, failure.stepId = early.id ∧ failure.status = .failed

theorem Prepared.order_plan (known : Prepared options layout session task)
    (fresh : options.resume = false)
    (unfiltered : options.only = [] ∧ options.skip = [] ∧ options.file = "")
    (distinct : (task.plan.steps.map (·.id.key?)).Nodup) :
    task.checkpoint = none ∧ task.steps.Perm task.plan.steps ∧
      ∀ step : Step, step.heeded task.steps = step.heeded task.plan.steps := by
  have start : task.checkpoint = none := by
    have resumes := known.checkpoint
    rw [ResumesFrom, fresh] at resumes
    exact resumes
  obtain ⟨selected, schedule, filtered, ordered, sound, scheduled⟩ := known.steps
  obtain ⟨only, skip, file⟩ := unfiltered
  have all : selectionOf options task.checkpoint = {} := by
    rw [selectionOf, start, only, skip, file]
    rfl
  rw [all] at filtered
  cases filtered
  have keys := (Schedule.ofSteps_eq_ok ordered).1
  cases (Schedule.ofSteps_of_keys keys).symm.trans ordered
  have order : task.steps = order task.plan.steps := scheduled
  rw [order]
  exact ⟨start, AreDistinct.order_perm ⟨keys, distinct⟩ sound, Step.heeded_order keys sound⟩

/-- The step of a failure among the results of steps, where nothing had failed before. -/
theorem Executes.failed_of_hasFailed (executes : Executes backup state session steps next after)
    (fresh : state.results = []) (failed : HasFailed [] next.results dependency) :
    ∃ early ∈ steps, Json.same early.id dependency = true ∧
      ∃ failure ∈ next.results, failure.stepId = early.id ∧ failure.status = .failed := by
  rcases failed with ⟨failure, member, equal, failed⟩ | ⟨before, _⟩
  · obtain ⟨outcomes, made, subjects, _⟩ := executes.records
    rw [fresh, List.nil_append] at made
    have named : failure.stepId ∈ steps.map (·.id) :=
      map_stepId_of_subjects subjects ▸ List.mem_map_of_mem (made ▸ member)
    obtain ⟨early, among, same⟩ := List.mem_map.mp named
    exact ⟨early, among, same ▸ equal, failure, member, same.symm, failed⟩
  · cases before

theorem executeAll_skipsDirect (applying : options.apply = true)
    (calm : options.interactive = false) (start : task.checkpoint = none)
    (areDistinct : AreDistinct task.steps) (order : task.steps.Perm task.plan.steps)
    (skips : SkipsHeeding task.plan.steps executed executed.results)
    (executing : executeAll options (startState task.checkpoint) task.steps started =
      .ok executed middle) :
    SkipsDirect task.plan.steps executed executed.results := by
  refine ⟨?_, skips, ?_⟩
  · intro step member
    obtain ⟨done, cut, split, executes, whole⟩ := executeAll_executes executing
    rw [whole calm, List.append_nil] at split
    exact executes.result_of_mem (split ▸ order.mem_iff.mpr member)
  · intro result member skipped
    obtain ⟨arrival, decision, next, after, comes, handled, recorded, earlier, _⟩ :=
      comesTo_of_result applying executing member
    have processed := (handle_eq_ok handled).unasked_process (comes.2.asks calm)
    obtain ⟨blocked, rfl⟩ := process_skipped processed recorded skipped
    have empty : task.start = {} := by
      rw [Task.start, start]
      rfl
    have mirrors := comes.mirrors areDistinct (empty ▸ Lists.distinct_empty)
    rw [empty] at mirrors
    obtain ⟨dependency, listed, failed⟩ := mirrors.isBlocked_iff.mp blocked
    obtain ⟨_, _, split, executes⟩ := comes.split
    obtain ⟨early, first, equal, failure, among, named, failed⟩ :=
      executes.failed_of_hasFailed (startState_results _) failed
    refine ⟨arrival.step, early, ⟨?_, ?_, ?_⟩, rfl, failure, earlier.subset among, named, failed⟩
    · exact order.mem_iff.mp (split ▸ by simp)
    · exact order.mem_iff.mp (split ▸ List.mem_append_left _ first)
    · exact List.any_eq_true.mpr ⟨dependency, listed, equal⟩

theorem SkipsDirect.reported (direct : SkipsDirect steps executed executed.results)
    (finished : finish layout index task executed middle = .ok report after) :
    SkipsDirect steps executed report.results := by
  obtain ⟨refused, results⟩ := finish_results finished
  refine ⟨?_, direct.skips.reported finished, ?_⟩
  · intro step member
    obtain ⟨result, among, subject⟩ := direct.whole step member
    exact ⟨_, results ▸ List.mem_map_of_mem among, (refuseAll_subject ..).trans subject⟩
  · intro result member skipped
    obtain ⟨old, among, rfl⟩ := List.mem_map.mp (results ▸ member)
    have unapplied : old.status ≠ .applied := by
      intro applied
      rw [refuseAll_status] at skipped
      split at skipped
      · cases skipped
      · rw [applied] at skipped
        cases skipped
    rw [refuseAll_of_unapplied _ _ unapplied] at skipped ⊢
    exact direct.only old among skipped

/-- Failures skip what directly depends on them, and nothing else is skipped.  In a run
from nothing that does not ask, of a plan with different identifiers of which no step needs
itself, it is decided for each step that is come to by what became of those that it heeds.
If the execution returns, every step has a result, and a step is skipped exactly if one
that it directly depends on has failed: one that depends on a failed step through skipped
ones only is not. -/
theorem failures_skip_direct_dependents
    (prepared : prepare options layout session = .ok task started)
    (applying : options.apply = true) (fresh : options.resume = false)
    (calm : options.interactive = false)
    (unfiltered : options.only = [] ∧ options.skip = [] ∧ options.file = "")
    (distinct : (task.plan.steps.map (·.id.key?)).Nodup)
    (acyclic : ∀ step, ¬ TransGen (Step.DependsOn task.plan.steps) step step) :
    (∀ arrival early, ComesTo options task started arrival →
        arrival.step.Heeds task.plan.steps early →
          ∃ result, Decides options.backup [] arrival early result) ∧
      ∀ executed middle,
        executeAll options (startState task.checkpoint) task.steps started =
          .ok executed middle →
          SkipsDirect task.plan.steps executed executed.results ∧
            ∀ index report after,
              finish layout index task executed middle = .ok report after →
                SkipsDirect task.plan.steps executed report.results := by
  have known := (prepare_eq_ok prepared).1
  obtain ⟨start, order, heeded⟩ := known.order_plan fresh unfiltered distinct
  have separate : task.start.Distinct := by
    rw [Task.start, start]
    exact Lists.distinct_empty
  have heeds : ∀ {late early : Step}, late.Heeds task.plan.steps early →
      late.Heeds task.steps early := by
    rintro late early ⟨member, among, listed⟩
    exact ⟨order.mem_iff.mpr member, order.mem_iff.mpr among, heeded late ▸ listed⟩
  constructor
  · intro arrival early comes depends
    have decided := comes.decides known.steps separate acyclic (heeds depends)
    rw [Task.start, start] at decided
    exact decided
  · intro executed middle executing
    have skips := executeAll_skipsHeeding applying known.steps separate acyclic executing
    have direct := executeAll_skipsDirect applying calm start known.steps.areDistinct order
      (fun late early depends => skips late early (heeds depends)) executing
    exact ⟨direct, fun index report after finished => direct.reported finished⟩

theorem chain_distinct : (chainPlan.steps.map (·.id.key?)).Nodup := by
  have ids : chainPlan.steps.map (·.id) = [.text "a", .text "b", .text "c"] := by
    decide +kernel
  have keys := congrArg (List.map Json.key?) ids
  rw [List.map_map] at keys
  refine (congrArg List.Nodup keys).mpr ?_
  simp [Json.key?]

theorem failures_skip_direct_dependents_chain :
    ∃ task started executed middle,
      prepare { apply := true } smallLayout (errandProject chainErrands) = .ok task started ∧
        executeAll { apply := true } (startState task.checkpoint) task.steps started =
          .ok executed middle ∧
        SkipsDirect task.plan.steps executed executed.results ∧
          ∃ result ∈ executed.results, result.stepId = .text "b" ∧ result.status = .skipped := by
  obtain ⟨task, executed, middle, plan, _, prepared, executing, results⟩ := chain_runs
  have ended := (failures_skip_direct_dependents prepared rfl rfl rfl ⟨rfl, rfl, rfl⟩
    (plan ▸ chain_distinct) (plan ▸ chain_acyclic)).2 executed middle executing
  exact ⟨task, chainSession, executed, middle, prepared, executing, ended.1,
    results (.text "b", .skipped) (by simp)⟩

/-- A step can be applied although one that it depends on through another step fails, in a
run from nothing without questions and filters, of a plan with different identifiers of
which no step needs itself. -/
theorem chained_dependent_applied :
    ∃ task started executed middle late early,
      prepare { apply := true } smallLayout (errandProject chainErrands) = .ok task started ∧
        (task.plan.steps.map (·.id.key?)).Nodup ∧
        (∀ step, ¬ TransGen (Step.DependsOn task.plan.steps) step step) ∧
        TransGen (Step.DependsOn task.plan.steps) late early ∧
        executeAll { apply := true } (startState task.checkpoint) task.steps started =
          .ok executed middle ∧
        (∃ result ∈ executed.results, result.stepId = early.id ∧ result.status = .failed) ∧
          ∃ result ∈ executed.results, result.stepId = late.id ∧ result.status = .applied := by
  obtain ⟨task, executed, middle, plan, _, prepared, executing, results⟩ := chain_runs
  obtain ⟨late, between, early, first, second, lateId, earlyId⟩ :
      ∃ late between early, Step.DependsOn chainPlan.steps late between ∧
        Step.DependsOn chainPlan.steps between early ∧ late.id = .text "c" ∧
          early.id = .text "a" := by
    have links : ∃ late ∈ chainPlan.steps, ∃ between ∈ chainPlan.steps,
        ∃ early ∈ chainPlan.steps, Step.DependsOn chainPlan.steps late between ∧
          Step.DependsOn chainPlan.steps between early ∧ late.id = .text "c" ∧
            early.id = .text "a" := by
      decide +kernel
    obtain ⟨late, _, between, _, early, _, chained⟩ := links
    exact ⟨late, between, early, chained⟩
  refine ⟨task, chainSession, executed, middle, late, early, prepared, plan ▸ chain_distinct,
    plan ▸ chain_acyclic, ?_, executing, ?_, ?_⟩
  · rw [plan]
    exact .tail (.single first) second
  · rw [earlyId]
    exact results (.text "a", .failed) (by simp)
  · rw [lateId]
    exact results (.text "c", .applied) (by simp)

end Migration

end Restyle
