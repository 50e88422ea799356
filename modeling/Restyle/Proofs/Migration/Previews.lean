import Restyle.Proofs.Migration.Errands
import Restyle.Proofs.Migration.Lists
import Restyle.Proofs.Migration.Upkeep

/-!
# Previews

A preview prepares the same task as a run that changes files, and lists its steps
instead of executing them.  It logs what it does and leaves everything else alone.
A run that does not ask reports on the same steps in the same order, and what
keeps one of the two from starting keeps the other from it, too.
-/

namespace Restyle

def Session.withoutLog (session : Session) : Session := { session with log := [] }

/-- What a preview lists for a step. -/
def Step.pendingResult (step : Step) : StepResult := RunState.resultOf step .pending none none

namespace Migration

open Activity

variable {options : MigrationOptions} {layout : Layout} {index : IndexRebuild} {task : Task}
  {steps : List Step} {report : RunReport} {session started after stopped : Session}
  {failure : Failure}

theorem preview_eq_ok {planPath : Path} (success : preview planPath steps = .ok report) :
    report.applied = false ∧ report.checkpoint = none ∧
      report.results = steps.map Step.pendingResult ∧ report.summary.total = steps.length := by
  obtain ⟨_, _, made⟩ := bind_eq_ok_iff.mp success
  cases made
  exact ⟨rfl, rfl, rfl, rfl⟩

/-- A preview changes nothing but the log. -/
theorem maintains_preview {holds : Session → Prop} (logs : IgnoresLog holds)
    (calm : options.apply = false) : Maintains holds (run options layout index) := by
  rw [run_eq]
  refine (maintains_prepare logs options layout).bind fun task => ?_
  unfold perform
  split
  · exact maintains_pure _
  · rw [calm]
    exact maintains_value _

/-- What keeps a run from starting: its plan cannot be loaded, or has no digest,
or its checkpoint cannot be loaded or belongs to another plan. -/
inductive Rejects (options : MigrationOptions) (layout : Layout) (session : Session) :
    Failure → Session → Prop where
  | plan {failure : Failure} {stopped : Session}
      (named : ∀ path, options.planPath = some path → path.hasNull = false)
      (unloaded : Plan.load (planPathOf options layout session.project) session =
        .error failure stopped) : Rejects options layout session failure stopped
  | digest {plan : Plan} {fault : Fault} {loaded : Session}
      (named : ∀ path, options.planPath = some path → path.hasNull = false)
      (loading : Plan.load (planPathOf options layout session.project) session = .ok plan loaded)
      (undigested : plan.digest = .error fault) :
      Rejects options layout session (.value fault) loaded
  | checkpoint {plan : Plan} {digest : String} {failure : Failure} {loaded stopped : Session}
      (named : ∀ path, options.planPath = some path → path.hasNull = false)
      (loading : Plan.load (planPathOf options layout session.project) session = .ok plan loaded)
      (digested : plan.digest = .ok digest) (resuming : options.resume = true)
      (refused : resumeFrom layout.checkpoint digest loaded = .error failure stopped) :
      Rejects options layout session failure stopped

theorem Rejects.prepare (rejects : Rejects options layout session failure stopped) :
    prepare options layout session = .error failure stopped := by
  unfold Migration.prepare
  cases rejects with
  | plan named unloaded =>
      rw [bind_of_ok (place_planPath session named)]
      exact bind_of_error unloaded
  | digest named loading undigested =>
      rw [bind_of_ok (place_planPath session named)]
      refine (bind_of_ok loading).trans (bind_of_error ?_)
      rw [undigested]
      rfl
  | checkpoint named loading digested resuming refused =>
      rw [bind_of_ok (place_planPath session named)]
      refine (bind_of_ok loading).trans ?_
      rw [bind_of_ok (value_eq_ok.mpr ⟨digested, rfl⟩), resuming]
      exact bind_of_error refused

theorem Applies.subjects (applies : Applies options layout task session report after) :
    ∃ done cut, task.steps = done ++ cut ∧ (options.interactive = false → cut = []) ∧
      report.results.map StepResult.subject = done.map Step.subject := by
  cases applies with
  | intro split whole execution commitment _ _ _ _ conclusion =>
      obtain ⟨_, _, _, _, _, _, results, _, _⟩ := conclude_eq_ok conclusion
      obtain ⟨outcomes, made, subjects, _⟩ := execution.records
      rw [startState_results, List.nil_append] at made
      refine ⟨_, _, split, whole, ?_⟩
      rw [results, commitment.results, subjects_refuseAll, made, subjects]

/-- A preview leaves everything but the log as it was, so that it changes no file
and takes no answer.  With `applying` for the same run without questions that may
change files: what keeps one from starting keeps the other from it in the same
way; with no step scheduled both return the same report; and else the preview
lists the scheduled steps, all of them pending, and the run reports on the same
steps in the same order. -/
theorem previewed_run_agrees (options : MigrationOptions) (layout : Layout) (index : IndexRebuild)
    (session : Session) :
    let previewing := run { options with apply := false } layout index session
    let applying := run { options with apply := true, interactive := false } layout index session
    (∀ report after, previewing = .ok report after → after.withoutLog = session.withoutLog) ∧
      (∀ failure stopped, previewing = .error failure stopped →
        stopped.withoutLog = session.withoutLog) ∧
      (∀ failure stopped, Rejects options layout session failure stopped →
        prepare options layout session = .error failure stopped) ∧
      (∀ failure stopped, prepare options layout session = .error failure stopped →
        previewing = .error failure stopped ∧ applying = .error failure stopped) ∧
      ∀ task started, prepare options layout session = .ok task started →
        Prepared options layout session task ∧
          (task.steps = [] →
            previewing = .ok (emptyReport task.planPath task.checkpoint.isSome) started ∧
              applying = .ok (emptyReport task.planPath task.checkpoint.isSome) started) ∧
          (task.steps ≠ [] → ∀ report after, previewing = .ok report after →
            report.applied = false ∧ report.results = task.steps.map Step.pendingResult ∧
              report.summary.total = task.steps.length) ∧
          (task.steps ≠ [] → ∀ report after, applying = .ok report after →
            report.applied = true ∧
              report.results.map StepResult.subject = task.steps.map Step.subject) := by
  dsimp only
  have previewed : run { options with apply := false } layout index session =
      (prepare options layout >>= perform { options with apply := false } layout index) session :=
    congrFun (run_eq { options with apply := false } layout index) session
  have applied : run { options with apply := true, interactive := false } layout index session =
      (prepare options layout >>=
        perform { options with apply := true, interactive := false } layout index) session :=
    congrFun (run_eq { options with apply := true, interactive := false } layout index) session
  have harmless : Maintains (fun other => other.withoutLog = session.withoutLog)
      (run { options with apply := false } layout index) :=
    maintains_preview (fun _ _ same => same) rfl
  refine ⟨fun _ _ => harmless.ok rfl, fun _ _ => harmless.error rfl, fun _ _ => Rejects.prepare,
    fun failure stopped unprepared => ?_, fun task started prepared => ⟨(prepare_eq_ok prepared).1,
      fun idle => ?_, fun busy report after returned => ?_, fun busy report after returned => ?_⟩⟩
  · rw [previewed, applied]
    exact ⟨bind_of_error unprepared, bind_of_error unprepared⟩
  · rw [previewed, applied, bind_of_ok prepared, bind_of_ok prepared]
    unfold perform
    rw [idle]
    exact ⟨rfl, rfl⟩
  · rw [previewed, bind_of_ok prepared] at returned
    unfold perform at returned
    rw [if_neg (by simpa using busy)] at returned
    obtain ⟨listed, _⟩ := value_eq_ok.mp returned
    obtain ⟨calm, _, results, total⟩ := preview_eq_ok listed
    exact ⟨calm, results, total⟩
  · obtain ⟨other, ready, again, outcome⟩ := run_cases rfl returned
    obtain ⟨rfl, rfl⟩ : task = other ∧ started = ready := by
      have same := prepared.symm.trans again
      cases same
      exact ⟨rfl, rfl⟩
    rcases outcome with ⟨idle, _⟩ | ⟨_, applies⟩
    · exact absurd idle busy
    · obtain ⟨done, cut, split, whole, subjects⟩ := applies.subjects
      rw [split, whole rfl, List.append_nil]
      refine ⟨?_, subjects⟩
      cases applies with
      | intro _ _ _ _ _ _ _ _ conclusion =>
          obtain ⟨_, _, _, _, _, _, _, changed, _⟩ := conclude_eq_ok conclusion
          exact changed

/-- The preview lists five steps; of these the run applies two. -/
theorem previewed_run_agrees_spread :
    ∃ report after applied ended,
      run { apply := false } smallLayout .absent spreadProject = .ok report after ∧
        run { apply := true } smallLayout .absent spreadProject = .ok applied ended ∧
          after.workspace = spreadProject.workspace ∧
            report.results.map StepResult.status = List.replicate 5 .pending ∧
              applied.results.map StepResult.status =
                  [.applied, .failed, .skipped, .failed, .applied] ∧
                applied.results.map StepResult.subject =
                  report.results.map StepResult.subject := by
  have listed : observe { apply := false } smallLayout .absent spreadProject
      (fun _ report _ => report.results.map StepResult.status) =
        some (List.replicate 5 .pending) := by
    rw [observe_of_prepared (spread_prepares false)]
    decide +kernel
  have performed : observe { apply := true } smallLayout .absent spreadProject
      (fun _ report _ => report.results.map StepResult.status) =
        some [.applied, .failed, .skipped, .failed, .applied] := by
    rw [observe_of_prepared (spread_prepares true)]
    decide +kernel
  obtain ⟨task, started, report, after, prepared, previewed, statuses⟩ := observe_eq_some listed
  obtain ⟨_, _, applied, ended, _, returned, outcomes⟩ := observe_eq_some performed
  obtain ⟨kept, _, _, _, agrees⟩ :=
    previewed_run_agrees { apply := true } smallLayout .absent spreadProject
  obtain ⟨_, idle, lists, reports⟩ := agrees task started prepared
  have unchanged := kept report after previewed
  have same : after.workspace = spreadProject.workspace :=
    show after.withoutLog.workspace = spreadProject.withoutLog.workspace by rw [unchanged]
  have busy : task.steps ≠ [] := by
    intro none
    have empty := (idle none).1.symm.trans previewed
    cases empty
    cases statuses
  obtain ⟨_, results, _⟩ := lists busy report after previewed
  obtain ⟨_, subjects⟩ := reports busy applied ended returned
  refine ⟨report, after, applied, ended, previewed, returned, same, statuses, outcomes, ?_⟩
  rw [subjects, results, List.map_map]
  rfl

end Migration

end Restyle
