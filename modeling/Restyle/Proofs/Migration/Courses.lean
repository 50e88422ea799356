import Restyle.Proofs.Migration.Endings
import Restyle.Proofs.Schedule.Remaining

/-!
# What runs end with

The view of a run is computed step by step.  A run that returns reports the view
that it has computed, stores its lists, and leaves its texts in the files.  The
next run starts from there.
-/

namespace Restyle

theorem Lists.completed_of_applied {lists : Lists} {results : List StepResult}
    (applied : ∀ result ∈ results, result.status = .applied)
    (keys : ∀ result ∈ results, result.stepId.isKey = true)
    (distinct : (results.map (·.stepId.key?)).Nodup)
    (absent : ∀ result ∈ results, ∀ other ∈ lists.completed,
      Json.same result.stepId other = false) :
    (lists.markResults results).completed = lists.completed ++ results.map (·.stepId) := by
  induction results generalizing lists with
  | nil => simp [markResults]
  | cons result results induction =>
      obtain ⟨first, later⟩ := List.forall_mem_cons.mp applied
      rw [List.map_cons, List.nodup_cons] at distinct
      have marked : (lists.mark result.stepId result.status).completed =
          lists.completed ++ [result.stepId] := by
        rw [first]
        show Json.removeFirst result.stepId lists.completed ++ [result.stepId] = _
        rw [Json.removeFirst_of_absent (absent result List.mem_cons_self)]
      show ((lists.mark result.stepId result.status).markResults results).completed = _
      rw [induction later (List.forall_mem_cons.mp keys).2 distinct.2, marked]
      · simp
      · intro other among id member
        rw [marked, List.mem_append, List.mem_singleton] at member
        rcases member with old | rfl
        · exact absent other (List.mem_cons_of_mem _ among) id old
        · apply Bool.eq_false_iff.mpr
          rw [Ne, Json.same_iff (keys other (List.mem_cons_of_mem _ among))]
          intro equal
          exact distinct.1 (equal ▸ List.mem_map_of_mem among)

namespace Migration

variable {options : MigrationOptions} {layout : Layout} {index : IndexRebuild} {task : Task}
  {steps : List Step} {report : RunReport} {session started after : Session}
  {files : Path → Prop} {view seen : View} {saved : Checkpoint}

/-- With the first steps of a schedule completed, the rest of them is scheduled. -/
theorem Schedules.resume {scheduled : List Step} {count : Nat}
    (schedules : Schedules (selectionOf options none) steps scheduled)
    (notNull : ∀ step ∈ steps, step.id ≠ .null)
    (first : saved.completed = (scheduled.take count).map (·.id)) :
    Schedules (selectionOf options (some saved)) steps (scheduled.drop count) := by
  obtain ⟨selected, schedule, filtered, ordered, sound, rfl⟩ := schedules
  obtain ⟨sublist, _, _⟩ := Selection.filter_eq_ok filtered
  obtain ⟨keys, members, _⟩ := Schedule.ofSteps_eq_ok ordered
  have completedKeys : ∀ id ∈ saved.completed, id.isKey = true := by
    intro id member
    rw [first] at member
    obtain ⟨step, among, rfl⟩ := List.mem_map.mp member
    exact keys step (members step (List.mem_of_mem_take among))
  have noNull : .null ∉ saved.completed := by
    rw [first]
    intro member
    obtain ⟨step, among, isNull⟩ := List.mem_map.mp member
    exact notNull step (sublist.subset (members step (List.mem_of_mem_take among))) isNull
  obtain ⟨rest, orderedRest, soundRest, remaining⟩ := Schedule.ofSteps_openSteps ordered sound
    (fun _ _ _ _ => noNull) first
  exact ⟨_, rest, Selection.filter_openSteps rfl filtered keys completedKeys, orderedRest,
    soundRest, remaining.symm⟩

/-- An execution that starts afresh and applies every step completes them in
order. -/
theorem Executes.completed {backup : Bool} {done : List Step} {executed : RunState}
    {middle : Session} (execution : Executes backup (startState none) session done executed middle)
    (applied : ∀ result ∈ executed.results, result.status = .applied)
    (keys : ∀ step ∈ done, step.id.isKey = true) (distinct : (done.map (·.id.key?)).Nodup) :
    executed.results.length = done.length ∧ executed.lists.completed = done.map (·.id) := by
  obtain ⟨outcomes, made, subjects, lists⟩ := execution.records
  rw [startState_results, List.nil_append] at made
  rw [made] at applied ⊢
  have ids := map_stepId_of_subjects subjects
  constructor
  · simpa using congrArg List.length subjects
  · rw [lists, ← ids]
    refine Lists.completed_of_applied applied ?_ ?_ fun _ _ _ member => ?_
    · intro result member
      obtain ⟨step, among, same⟩ := List.mem_map.mp (ids ▸ List.mem_map_of_mem member)
      exact same ▸ keys step among
    · have keyed := congrArg (List.map Json.key?) ids
      rw [List.map_map, List.map_map] at keyed
      exact keyed ▸ distinct
    · cases member

/-- Whether the checkpoint file has these lists, for a plan with this digest. -/
structure Stores (layout : Layout) (digest : String) (workspace : Workspace) (lists : Lists) :
    Prop where
  clean : layout.checkpoint.hasNull = false
  found : ∃ saved, Checkpoint.storedAt workspace layout.checkpoint = .ok (some saved) ∧
    saved.lists = lists ∧ saved.planDigest = .text digest

/-- What a run leaves that returns with a view: the view is reported, its lists
are stored, and the files have its texts. -/
structure Ends (files : Path → Prop) (layout : Layout) (digest : String) (before : Workspace)
    (seen : View) (report : RunReport) (after : Workspace) : Prop where
  results : report.results = seen.results
  stores : Stores layout digest after seen.lists
  leaves : ∀ path, files path → ∃ outcome, seen.text? path = some outcome ∧
    Leaves before after path outcome

theorem run_course (applying : options.apply = true)
    (returned : run options layout index session = .ok report after)
    (prepared : prepare options layout session = .ok task started) (busy : task.steps ≠ []) :
    ∃ executed middle,
      executeAll options (startState task.checkpoint) task.steps started = .ok executed middle ∧
        finish layout index task executed middle = .ok report after := by
  rw [run_of_prepared prepared, perform, if_neg (by simpa using busy), if_pos applying,
    applySteps_eq] at returned
  exact Activity.bind_eq_ok.mp returned

/-- A run that ends with a view leaves what the view shows. -/
theorem run_ends {executed : RunState} {middle : Session} (applying : options.apply = true)
    (returned : run options layout index session = .ok report after)
    (prepared : prepare options layout session = .ok task started)
    (takes : Takes files session steps)
    (sources : AreSources files session.project layout steps session.workspace)
    (plain : ∀ step ∈ steps, '\r' ∉ step.action.inserted)
    (within : ∀ step ∈ task.steps, step ∈ steps)
    (executing : executeAll options (startState task.checkpoint) task.steps started =
      .ok executed middle)
    (finished : finish layout index task executed middle = .ok report after)
    (shows : Shows files executed middle.workspace seen)
    (unread : ∀ path, files path → ∀ failure, session.workspace.readText path = .error failure →
      seen.text? path = some (.error failure)) :
    Ends files layout task.digest session.workspace seen report after.workspace := by
  obtain ⟨_, quiet⟩ := prepare_eq_ok prepared
  obtain ⟨done, cut, split, executes, _⟩ := executeAll_executes executing
  have execution := executes.of_quiet quiet
  have inside : ∀ step ∈ done, step ∈ steps := by
    intro step member
    apply within step
    rw [split]
    exact List.mem_append_left _ member
  have empty := startState_buffers task.checkpoint
  obtain ⟨results, saved, reported, lists, digest⟩ :=
    finish_reports takes inside empty execution finished
  constructor
  · rw [results, shows.results]
  · obtain ⟨_, _, ⟨_, _, unsaved, _⟩ | ⟨kept, saves, stored⟩⟩ := run_progress applying returned
    · rw [reported] at unsaved
      cases unsaved
    · have same := saves.reported
      rw [reported, Option.some.injEq] at same
      subst same
      exact ⟨saves.clean, saved, stored, lists.trans shows.lists, digest⟩
  · intro path among
    have text := shows.texts path among
    obtain ⟨outcome, shown⟩ : ∃ outcome, executed.textAt? middle.workspace path = some outcome := by
      unfold RunState.textAt?
      split
      · exact ⟨_, rfl⟩
      · exact ⟨_, if_neg (by simp [(sources.apart path among).clean])⟩
    refine ⟨outcome, text ▸ shown, ?_⟩
    refine finish_leaves takes sources among plain inside empty execution shown ?_ finished
    intro failure unreadable
    rw [text, unread path among failure unreadable, Option.some.injEq] at shown
    exact shown.symm

theorem Shows.unread {checkpoint : Option Checkpoint} {workspace : Workspace} {path : Path}
    {failure : ReadFailure} {project : Path}
    (shows : Shows files (startState checkpoint) workspace view) (among : files path)
    (clean : path.hasNull = false) (unreadable : workspace.readText path = .error failure)
    (computed : steps.foldlM (View.next? project) view = some seen) :
    seen.text? path = some (.error failure) := by
  apply View.foldlM_unread computed
  rw [← shows.texts path among]
  simp [RunState.textAt?, RunState.buffer?, startState_buffers, clean, unreadable, Except.map]

theorem run_calmly (applying : options.apply = true) (calm : options.interactive = false)
    (returned : run options layout index session = .ok report after)
    (prepared : prepare options layout session = .ok task started) (busy : task.steps ≠ [])
    (takes : Takes files session steps)
    (sources : AreSources files session.project layout steps session.workspace)
    (plain : ∀ step ∈ steps, '\r' ∉ step.action.inserted)
    (within : ∀ step ∈ task.steps, step ∈ steps)
    (shows : Shows files (startState task.checkpoint) session.workspace view) :
    ∃ seen, task.steps.foldlM (View.next? session.project) view = some seen ∧
      Ends files layout task.digest session.workspace seen report after.workspace := by
  obtain ⟨_, quiet⟩ := prepare_eq_ok prepared
  obtain ⟨executed, middle, executing, finished⟩ := run_course applying returned prepared busy
  have spares : ∀ step ∈ task.steps, Spares files started.project step := by
    intro step member
    rw [quiet.project]
    exact sources.spares step (within step member)
  obtain ⟨seen, computed, shown⟩ := view_of_execute (shows.of_quiet quiet) spares
    (executeAll_of_calm calm _ _ ▸ executing)
  rw [quiet.project] at computed
  refine ⟨seen, computed, run_ends applying returned prepared takes sources plain within executing
    finished shown ?_⟩
  exact fun path among _ unreadable =>
    shows.unread among (sources.apart path among).clean unreadable computed

/-- A fresh run that has applied all it did computes the view of its first steps,
and these are completed. -/
theorem run_applied (applying : options.apply = true)
    (returned : run options layout index session = .ok report after)
    (prepared : prepare options layout session = .ok task started) (busy : task.steps ≠ [])
    (fresh : task.checkpoint = none)
    (applied : ∀ result ∈ report.results, result.status = .applied)
    (takes : Takes files session task.steps)
    (sources : AreSources files session.project layout task.steps session.workspace)
    (plain : ∀ step ∈ task.steps, '\r' ∉ step.action.inserted) :
    ∃ seen, (task.steps.take report.results.length).foldlM (View.next? session.project)
        (View.atStart {} session.workspace) = some seen ∧
      seen.lists.completed = (task.steps.take report.results.length).map (·.id) ∧
        Ends files layout task.digest session.workspace seen report after.workspace := by
  obtain ⟨known, quiet⟩ := prepare_eq_ok prepared
  obtain ⟨executed, middle, executing, finished⟩ := run_course applying returned prepared busy
  obtain ⟨done, cut, split, executes, _⟩ := executeAll_executes executing
  have execution := executes.of_quiet quiet
  have inside : ∀ step ∈ done, step ∈ task.steps := by
    intro step member
    rw [split]
    exact List.mem_append_left _ member
  obtain ⟨results, _⟩ :=
    finish_reports takes inside (startState_buffers _) execution finished
  rw [results] at applied ⊢
  have shows := shows_startState files task.checkpoint session.workspace
  have spares : ∀ step ∈ task.steps, Spares files started.project step := by
    intro step member
    rw [quiet.project]
    exact sources.spares step member
  obtain ⟨count, seen, grown, computed, shown⟩ :=
    view_of_executeAll (shows.of_quiet quiet) spares executing applied
  rw [startState_results, List.length_nil, Nat.zero_add] at grown
  rw [quiet.project, fresh] at computed
  rw [grown]
  refine ⟨seen, computed, ?_, run_ends applying returned prepared takes sources plain
    (fun _ member => member) executing finished shown ?_⟩
  · obtain ⟨scheduled, distinct, _⟩ := known.steps.steps
    rw [split, List.map_append] at distinct
    rw [fresh] at execution
    obtain ⟨length, completed⟩ := execution.completed applied
      (fun step member => (scheduled step (inside step member)).2.1)
      (List.nodup_append.mp distinct).1
    rw [← shown.lists, completed, split, ← grown, length, List.take_left]
  · exact fun path among _ unreadable =>
      shows.unread among (sources.apart path among).clean unreadable (fresh ▸ computed)

theorem run_keeps (applying : options.apply = true)
    (returned : run options layout index session = .ok report after)
    (prepared : prepare options layout session = .ok task started) (busy : task.steps ≠ [])
    (fresh : FreshTag session task.steps) :
    (∀ place, session.workspace.get? place = some .directory →
        after.workspace.get? place = some .directory) ∧
      ∀ path bytes, OutOfReach session task.steps path.place →
        path.place ≠ layout.stylesheet.place → path.place ≠ layout.checkpoint.place →
          session.workspace.readBytes path = .ok bytes →
            after.workspace.readBytes path = .ok bytes := by
  obtain ⟨_, quiet⟩ := prepare_eq_ok prepared
  obtain ⟨executed, middle, executing, finished⟩ := run_course applying returned prepared busy
  obtain ⟨done, cut, split, executes, _⟩ := executeAll_executes executing
  have execution := executes.of_quiet quiet
  have inside : ∀ step ∈ done, step ∈ task.steps := by
    intro step member
    rw [split]
    exact List.mem_append_left _ member
  have empty := startState_buffers task.checkpoint
  have backups := execution.evolves fun _ => False
  have ending := finish_evolves fresh inside empty execution finished
  constructor
  · intro place standing
    exact ending.keepsDirectory place (backups.keepsDirectory place standing)
  · intro path bytes away notStylesheet notCheckpoint read
    refine ending.readBytes ?_ (backups.readBytes ?_ read)
    · rintro (⟨buffer, member, same⟩ | ⟨target, same⟩ | same | same)
      · obtain ⟨step, among, known⟩ := execution.isStepFile empty inside buffer member
        exact away.notFile step among _ known same.symm
      · exact away.temporary_ne fresh.plain target same
      · exact notStylesheet same
      · exact notCheckpoint same
    · rintro ⟨step, member, backup⟩
      exact away.notBackup ⟨step, inside step member, backup⟩

/-- A run that does not ask and whose view can be computed returns, unless the
stylesheet or the checkpoint cannot be written. -/
theorem run_returns (applying : options.apply = true) (calm : options.interactive = false)
    (prepared : prepare options layout session = .ok task started)
    (fresh : FreshTag session task.steps)
    (shows : Shows files (startState task.checkpoint) session.workspace view)
    (spares : ∀ step ∈ task.steps, Spares files session.project step)
    (computed : task.steps.foldlM (View.next? session.project) view = some seen)
    (saving : ∀ failure after, run options layout index session = .error failure after →
      ¬ failure.MayComeLate layout) :
    ∃ report after, run options layout index session = .ok report after := by
  obtain ⟨_, quiet⟩ := prepare_eq_ok prepared
  cases outcome : run options layout index session with
  | ok report after => exact ⟨report, after, rfl⟩
  | error failure after =>
      have early := saving failure after outcome
      rw [run_of_prepared prepared, perform] at outcome
      cases idle : task.steps.isEmpty with
      | true =>
          rw [idle, if_pos rfl] at outcome
          cases outcome
      | false =>
          rw [idle, if_neg (by decide), if_pos applying, applySteps_eq] at outcome
          rw [← quiet.project] at spares computed
          obtain ⟨executed, middle, executing, _⟩ :=
            execute_of_view options.backup (shows.of_quiet quiet) spares computed
          rw [← executeAll_of_calm calm] at executing
          obtain ⟨done, cut, split, execution, _⟩ := executeAll_executes executing
          rw [Activity.bind_of_ok executing] at outcome
          cases finish_stops (fresh.of_quiet quiet) split execution outcome with
          | intro _ _ _ _ _ late => exact absurd late early

/-- A run that goes on from a view returns with what can be computed from there,
also when nothing is left to do. -/
theorem run_resumes (applying : options.apply = true) (calm : options.interactive = false)
    (prepared : prepare options layout session = .ok task started)
    (takes : Takes files session steps)
    (sources : AreSources files session.project layout steps session.workspace)
    (plain : ∀ step ∈ steps, '\r' ∉ step.action.inserted)
    (within : ∀ step ∈ task.steps, step ∈ steps)
    (shows : Shows files (startState task.checkpoint) session.workspace view)
    (stores : Stores layout task.digest session.workspace view.lists)
    (computed : task.steps.foldlM (View.next? session.project) view = some seen)
    (saving : ∀ failure after, run options layout index session = .error failure after →
      ¬ failure.MayComeLate layout) :
    ∃ report after, run options layout index session = .ok report after ∧
      Ends files layout task.digest session.workspace seen report after.workspace := by
  obtain ⟨report, after, returned⟩ := run_returns applying calm prepared
    (takes.fresh.of_subset within) shows
    (fun step member => sources.spares step (within step member)) computed saving
  refine ⟨report, after, returned, ?_⟩
  by_cases busy : task.steps = []
  · obtain ⟨_, quiet⟩ := prepare_eq_ok prepared
    rw [run_of_prepared prepared, perform, busy] at returned
    obtain ⟨rfl, rfl⟩ := Activity.pure_eq_ok.mp returned
    rw [busy] at computed
    cases computed
    rw [quiet.workspace]
    refine ⟨?_, stores, fun path among => ⟨_, ?_, .kept rfl⟩⟩
    · rw [← shows.results, startState_results]
      rfl
    · rw [← shows.texts path among]
      simp [RunState.textAt?, RunState.buffer?, startState_buffers,
        (sources.apart path among).clean]
  · obtain ⟨other, again, ends⟩ := run_calmly applying calm returned prepared busy takes sources
      plain within shows
    rw [computed, Option.some.injEq] at again
    rw [again]
    exact ends

end Migration

end Restyle
