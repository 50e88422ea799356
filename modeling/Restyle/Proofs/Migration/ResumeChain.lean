import Restyle.Proofs.Migration.Courses
import Restyle.Proofs.Migration.Errands

/-!
# Chains of resumed runs

A first run starts afresh, and every later one resumes from the checkpoint that
the one before left.  What is completed once stays completed and is not done
again, whatever happens to the sources between the runs; when all steps are
completed, a further run changes nothing.
-/

namespace Restyle

namespace Migration

/-- A run: what it was asked for, the session before and after it and its
report. -/
structure Turn where
  options : MigrationOptions
  index : IndexRebuild
  session : Session
  report : RunReport
  after : Session

/-- A turn that applies a plan and returns a report. -/
structure Turn.Performs (layout : Layout) (plan : Plan) (turn : Turn) : Prop where
  applying : turn.options.apply = true
  planned : Plan.StoredAt turn.session.workspace
    (planPathOf turn.options layout turn.session.project) plan
  returned : run turn.options layout turn.index turn.session = .ok turn.report turn.after

/-- Turns over one plan, the last one first.  The first starts afresh, and the
others resume from the checkpoint file as the turn before left it; all else
may have changed between them. -/
inductive ResumeChain (layout : Layout) (plan : Plan) : List Turn → Prop where
  | first {turn : Turn} (performs : turn.Performs layout plan)
      (fresh : turn.options.resume = false) : ResumeChain layout plan [turn]
  | next {turn last : Turn} {turns : List Turn} (chain : ResumeChain layout plan (last :: turns))
      (performs : turn.Performs layout plan) (resumes : turn.options.resume = true)
      (kept : turn.session.workspace.readBytes layout.checkpoint =
        last.after.workspace.readBytes layout.checkpoint) :
      ResumeChain layout plan (turn :: last :: turns)

variable {layout : Layout} {plan : Plan} {turn : Turn} {turns : List Turn}

/-- A stored checkpoint that covers the completed steps of another, and belongs
to the plan. -/
structure Covers (layout : Layout) (plan : Plan) (workspace : Workspace) (saved : Checkpoint) :
    Prop where
  clean : layout.checkpoint.hasNull = false
  found : ∃ stored digest, Checkpoint.storedAt workspace layout.checkpoint = .ok (some stored) ∧
    plan.digest = .ok digest ∧ stored.planDigest = .text digest ∧
      (∀ id ∈ stored.completed, id.isKey = true) ∧ ∀ id ∈ saved.completed, id ∈ stored.completed

theorem Task.start_completed (task : Task) :
    task.start.completed = (selectionOf options task.checkpoint).completed := by
  unfold Task.start selectionOf
  cases task.checkpoint <;> rfl

/-- A turn that reports a checkpoint has saved it of a task of the plan. -/
theorem Turn.Performs.saves {saved : Checkpoint} (performs : turn.Performs layout plan)
    (reported : turn.report.checkpoint = some saved) :
    ∃ task, Prepared turn.options layout turn.session task ∧ task.plan = plan ∧
      Saves layout task turn.report turn.after saved ∧
        Checkpoint.storedAt turn.after.workspace layout.checkpoint = .ok (some saved) := by
  obtain ⟨task, prepared, ⟨_, _, none, _⟩ | ⟨found, saves, stored⟩⟩ :=
    run_progress performs.applying performs.returned
  · rw [none] at reported
    cases reported
  · have same := saves.reported
    rw [reported] at same
    cases same
    exact ⟨task, prepared,
      Plan.StoredAt.unique (prepared.planPath ▸ prepared.plan) performs.planned, saves, stored⟩

/-- What a turn saves is stored, and belongs to the plan. -/
theorem Turn.Performs.stored {saved : Checkpoint} (performs : turn.Performs layout plan)
    (reported : turn.report.checkpoint = some saved) :
    Checkpoint.storedAt turn.after.workspace layout.checkpoint = .ok (some saved) ∧
      ∀ digest, plan.digest = .ok digest → saved.planDigest = .text digest := by
  obtain ⟨task, prepared, rfl, saves, stored⟩ := performs.saves reported
  refine ⟨stored, fun digest known => ?_⟩
  rw [saves.digest, Except.ok.inj (prepared.digest.symm.trans known)]

theorem Turn.Performs.saved {saved : Checkpoint} (performs : turn.Performs layout plan)
    (reported : turn.report.checkpoint = some saved) :
    Covers layout plan turn.after.workspace saved ∧
      ∀ result ∈ turn.report.results, result.status = .applied → result.stepId ∈ saved.completed := by
  obtain ⟨task, prepared, rfl, saves, stored⟩ := performs.saves reported
  obtain ⟨scheduled, _, completedKeys⟩ := prepared.steps.steps
  refine ⟨⟨saves.clean, saved, task.digest, stored, prepared.digest, saves.digest, ?_,
    fun _ member => member⟩, saves.applied⟩
  obtain ⟨marked, lists, known⟩ := saves.lists
  intro id member
  have among : id ∈ (task.start.markResults marked).completed :=
    congrArg Lists.completed lists ▸ member
  rcases Lists.completed_of_mem_markResults among with ⟨result, found, rfl⟩ | old
  · obtain ⟨step, found, same⟩ := known result found
    rw [same]
    exact (scheduled step found).2.1
  · rw [task.start_completed] at old
    exact completedKeys id old

/-- A turn that resumes does nothing that is completed again, and what it leaves
covers what it found. -/
theorem Turn.Performs.resumes {saved : Checkpoint} (performs : turn.Performs layout plan)
    (resumed : turn.options.resume = true)
    (covers : Covers layout plan turn.session.workspace saved) :
    (∀ result ∈ turn.report.results, ∀ id ∈ saved.completed,
        Json.same result.stepId id = false) ∧
      (∀ later, turn.report.checkpoint = some later → ∀ id ∈ saved.completed, id ∈ later.completed) ∧
        Covers layout plan turn.after.workspace saved := by
  obtain ⟨stored, digest, found, digested, belongs, keys, covered⟩ := covers.found
  obtain ⟨task, prepared, outcome⟩ := run_progress performs.applying performs.returned
  have resumption := prepared.checkpoint
  rw [ResumesFrom, if_pos resumed, found] at resumption
  obtain ⟨scheduled, _, _⟩ := prepared.steps.steps
  have loaded : task.checkpoint = some stored := (Except.ok.inj resumption.1).symm
  have start : task.start.completed = stored.completed := by
    rw [Task.start, loaded]
    rfl
  have fresh : ∀ step ∈ task.steps, ∀ id ∈ stored.completed, Json.same step.id id = false := by
    intro step member id completed
    have apart := (scheduled step member).2.2
    rw [loaded] at apart
    exact Bool.eq_false_iff.mpr (List.any_eq_false.mp apart id completed)
  rcases outcome with ⟨_, results, checkpoint, workspace⟩ | ⟨later, saves, storedLater⟩
  · rw [results, checkpoint, workspace]
    exact ⟨by simp, by simp, covers⟩
  · have kept : ∀ id ∈ stored.completed, id ∈ later.completed := by
      intro id member
      obtain ⟨marked, lists, known⟩ := saves.lists
      have among : id ∈ (task.start.markResults marked).completed := by
        refine Lists.mem_completed_markResults (start ▸ member) fun result listed => ?_
        obtain ⟨step, found, same⟩ := known result listed
        rw [same]
        exact fresh step found id member
      have same : later.completed = (task.start.markResults marked).completed :=
        congrArg Lists.completed lists
      rw [same]
      exact among
    have covers' := (performs.saved saves.reported).1
    refine ⟨?_, ?_, covers'.clean, ?_⟩
    · intro result member id completed
      obtain ⟨step, among, same⟩ := saves.results result member
      rw [same]
      exact fresh step among id (covered id completed)
    · intro other reported id completed
      rw [saves.reported] at reported
      cases reported
      exact kept id (covered id completed)
    · obtain ⟨found', digest', storedAgain, rest⟩ := covers'.found
      refine ⟨found', digest', storedAgain, rest.1, rest.2.1, rest.2.2.1, ?_⟩
      exact fun id completed => rest.2.2.2 id (kept id (covered id completed))

/-- What an earlier turn of a chain means for a later one: its completed steps
stay completed and do not come again. -/
structure Continues (later earlier : Turn) : Prop where
  keeps : ∀ saved next, earlier.report.checkpoint = some saved →
    later.report.checkpoint = some next → ∀ id ∈ saved.completed, id ∈ next.completed
  spares : ∀ saved, earlier.report.checkpoint = some saved → ∀ id ∈ saved.completed,
    ∀ result ∈ later.report.results, Json.same result.stepId id = false
  once : ∀ first ∈ earlier.report.results, first.status = .applied →
    ∀ second ∈ later.report.results, Json.same second.stepId first.stepId = false

theorem Covers.of_kept {workspace other : Workspace} {saved : Checkpoint}
    (covers : Covers layout plan workspace saved)
    (kept : other.readBytes layout.checkpoint = workspace.readBytes layout.checkpoint) :
    Covers layout plan other saved where
  clean := covers.clean
  found := by
    rw [Checkpoint.storedAt_congr kept]
    exact covers.found

theorem Turn.Performs.continues {earlier : Turn} (performs : turn.Performs layout plan)
    (resumed : turn.options.resume = true) (before : earlier.Performs layout plan)
    (covers : ∀ saved, earlier.report.checkpoint = some saved →
      Covers layout plan turn.session.workspace saved) : Continues turn earlier := by
  refine ⟨?_, ?_, ?_⟩
  · intro saved next reported continued
    exact (performs.resumes resumed (covers saved reported)).2.1 next continued
  · intro saved reported id completed result member
    exact (performs.resumes resumed (covers saved reported)).1 result member id completed
  · intro first member applied second again
    obtain ⟨task, _, ⟨_, none, _⟩ | ⟨saved, saves, _⟩⟩ :=
      run_progress before.applying before.returned
    · rw [none] at member
      cases member
    · have completed := (before.saved saves.reported).2 first member applied
      exact (performs.resumes resumed (covers saved saves.reported)).1 second again _ completed

theorem ResumeChain.performs (chain : ResumeChain layout plan turns) :
    ∀ turn ∈ turns, turn.Performs layout plan := by
  induction chain with
  | first performs _ => exact List.forall_mem_singleton.mpr performs
  | next _ performs _ _ induction => exact List.forall_mem_cons.mpr ⟨performs, induction⟩

/-- What the last turn of a chain leaves covers all that was saved. -/
theorem ResumeChain.covers (chain : ResumeChain layout plan turns) :
    ∀ last rest, turns = last :: rest → ∀ turn ∈ turns, ∀ saved,
      turn.report.checkpoint = some saved → Covers layout plan last.after.workspace saved := by
  induction chain with
  | first performs _ =>
      rintro last rest ⟨⟩ turn member saved reported
      obtain rfl := List.mem_singleton.mp member
      exact (performs.saved reported).1
  | next chain performs resumes kept induction =>
      rintro last rest ⟨⟩ turn member saved reported
      rcases List.mem_cons.mp member with rfl | earlier
      · exact (performs.saved reported).1
      · have before := (induction _ _ rfl turn earlier saved reported).of_kept kept
        exact (performs.resumes resumes before).2.2

theorem ResumeChain.continues (chain : ResumeChain layout plan turns) :
    turns.Pairwise Continues := by
  induction chain with
  | first => exact List.pairwise_singleton _ _
  | next chain performs resumes kept induction =>
      refine List.pairwise_cons.mpr ⟨fun earlier member => ?_, induction⟩
      exact performs.continues resumes (chain.performs earlier member) fun saved reported =>
        (chain.covers _ _ rfl earlier member saved reported).of_kept kept

/-- Options whose parts are of the right kinds for a plan. -/
structure Fits (options : MigrationOptions) (plan : Plan) : Prop where
  planPath : ∀ named, options.planPath = some named → named.hasNull = false
  only : ∀ id ∈ options.only, id.isKey = true
  skip : ∀ id ∈ options.skip, id.isKey = true
  file : options.file = "" ∨ ∀ step ∈ plan.steps, ∃ name, step.file = .text name

/-- A run that resumes when every step of the plan is completed returns, does
nothing and changes nothing. -/
theorem run_of_completed {options : MigrationOptions} {index : IndexRebuild} {session : Session}
    {saved : Checkpoint} (resumed : options.resume = true) (fits : Fits options plan)
    (planned : Plan.StoredAt session.workspace (planPathOf options layout session.project) plan)
    (covers : Covers layout plan session.workspace saved)
    (all : ∀ step ∈ plan.steps, step.id.isAmong saved.completed = true) :
    ∃ report after, run options layout index session = .ok report after ∧ report.results = [] ∧
      report.checkpoint = none ∧ after.workspace = session.workspace := by
  obtain ⟨stored, digest, found, digested, belongs, keys, covered⟩ := covers.found
  have among : ∀ step ∈ plan.steps, ∃ id ∈ stored.completed, Json.same step.id id = true := by
    intro step member
    obtain ⟨id, completed, same⟩ := List.any_eq_true.mp (all step member)
    exact ⟨id, covered id completed, same⟩
  have stepKeys : ∀ step ∈ plan.steps, step.id.isKey = true := by
    intro step member
    obtain ⟨id, completed, same⟩ := among step member
    exact Json.isKey_of_same_key (keys id completed) same
  have nothing : Schedules (selectionOf options (some stored)) plan.steps [] := by
    refine ⟨[], _, ?_, rfl, rfl, rfl⟩
    exact Selection.filter_of_completed fits.only fits.skip fits.file keys stepKeys
      fun step member => List.any_eq_true.mpr (among step member)
  have prepared : Prepared options layout session
      ⟨planPathOf options layout session.project, plan, digest, some stored, []⟩ := by
    refine ⟨rfl, planned, digested, ?_, nothing⟩
    rw [ResumesFrom, if_pos resumed]
    refine ⟨found, ?_⟩
    rintro _ ⟨⟩
    exact belongs
  obtain ⟨started, preparing, quiet⟩ := prepare_of_prepared prepared fits.planPath covers.clean
  refine ⟨emptyReport (planPathOf options layout session.project) true, started, ?_, rfl, rfl,
    quiet.workspace⟩
  rw [run_of_prepared preparing]
  rfl

/-- In a chain of resumed runs of one plan a step that is completed stays
completed in every later checkpoint and is in no later result, so no step is
applied twice.  When all steps are completed, a further run that resumes
returns with no results and changes no file. -/
theorem resume_chain_applies_once {last : Turn}
    (chain : ResumeChain layout plan (last :: turns)) :
    (last :: turns).Pairwise Continues ∧
      ∀ turn ∈ last :: turns, ∀ saved, turn.report.checkpoint = some saved →
        (∀ step ∈ plan.steps, step.id.isAmong saved.completed = true) →
          ∀ options index session, options.resume = true → Fits options plan →
            Plan.StoredAt session.workspace (planPathOf options layout session.project) plan →
            session.workspace.readBytes layout.checkpoint =
              last.after.workspace.readBytes layout.checkpoint →
            ∃ report after, run options layout index session = .ok report after ∧
              report.results = [] ∧ report.checkpoint = none ∧
                after.workspace = session.workspace := by
  refine ⟨chain.continues, ?_⟩
  intro turn member saved reported all options index session resumed fits planned kept
  have covers := (chain.covers last turns rfl turn member saved reported).of_kept kept
  exact run_of_completed resumed fits planned covers all

/-! ## A chain of two runs

The first run of the plan for three files is ended at its third question, with a step that
was applied and one that failed.  Then the first file gets the class that it lacked, and the
next run applies all that is left.
-/

def askingOptions : MigrationOptions := { apply := true, interactive := true }

def resumingOptions : MigrationOptions := { apply := true, resume := true }

def askedProject : Session := { spreadProject with answers := ["y", "y", "q"] }

def mendedProject (checkpoint : List UInt8) : Session :=
  { spreadProject with
    workspace := ⟨spreadEntries "q z" ++ [(["p", "check"], .file checkpoint 420)]⟩
    trouble := fun _ => none }

/-- What is left to do after the first step. -/
def remainingTask (saved : Option Checkpoint) : Task :=
  { spreadTask with checkpoint := saved, steps := spreadPlan.steps.drop 1 }

theorem asked_prepares :
    prepare askingOptions smallLayout askedProject =
      .ok spreadTask (spreadPlan.noted smallLayout.plan askedProject) :=
  prepare_fresh rfl nofun rfl (spread_stored rfl) spread_written spread_scheduled

theorem mended_prepares {saved : Checkpoint} {checkpoint : List UInt8}
    (stored : Checkpoint.storedAt (mendedProject checkpoint).workspace smallLayout.checkpoint =
      .ok (some saved))
    (belongs : saved.planDigest = .text spreadTask.digest)
    (completed : saved.completed = [.text "a"]) :
    prepare resumingOptions smallLayout (mendedProject checkpoint) =
      .ok (remainingTask (some saved))
        (spreadPlan.noted smallLayout.plan (mendedProject checkpoint)) := by
  have left : Selection.filter { completed := [.text "a"] } spreadPlan.steps >>=
      Schedule.ofSteps = .ok ⟨spreadPlan.steps.drop 1, [], none⟩ := by
    decide +kernel
  have scheduled : (selectionOf resumingOptions (some saved)).filter spreadPlan.steps >>=
      Schedule.ofSteps = .ok ⟨spreadPlan.steps.drop 1, [], none⟩ := by
    rw [← left, ← completed]
    rfl
  have prepared : Prepared resumingOptions smallLayout (mendedProject checkpoint)
      (remainingTask (some saved)) := by
    refine ⟨rfl, spread_stored rfl, Plan.digest_of_written spread_written, ?_,
      Schedules.of_ok scheduled rfl⟩
    rw [ResumesFrom, if_pos (by rfl)]
    refine ⟨stored, ?_⟩
    rintro _ ⟨⟩
    exact belongs
  exact prepare_noted prepared (by rintro _ ⟨⟩) rfl (fun _ => rfl) scheduled

/-- What is seen of a run that returns: how its steps end, what is completed, and
whether a checkpoint is there. -/
def turnView (report : RunReport) (after : Session) :
    List StepStatus × Option (List Json) × Bool :=
  (report.results.map StepResult.status, report.checkpoint.map (·.completed),
    (after.workspace.readBytes smallLayout.checkpoint).toOption.isSome)

/-- The checkpoint file that a run leaves. -/
def checkpointBytes (after : Session) : List UInt8 :=
  (after.workspace.readBytes smallLayout.checkpoint).toOption.getD []

/-- What is seen of both runs. -/
def chainView : Option (List (List StepStatus × Option (List Json) × Bool)) :=
  match perform askingOptions smallLayout .absent spreadTask
      (spreadPlan.noted smallLayout.plan askedProject) with
  | .error _ _ => none
  | .ok begun between =>
      match perform resumingOptions smallLayout .absent (remainingTask begun.checkpoint)
          (spreadPlan.noted smallLayout.plan (mendedProject (checkpointBytes between))) with
      | .error _ _ => none
      | .ok resumed ended => some [turnView begun between, turnView resumed ended]

theorem chain_observed :
    chainView = some
      [([.applied, .failed, .skipped], some [.text "a"], true),
        (List.replicate 4 .applied,
          some [.text "a", .text "b", .text "c", .text "d", .text "e"], true)] := by
  decide +kernel

theorem mended_kept {after : Session}
    (stands : (after.workspace.readBytes smallLayout.checkpoint).toOption.isSome = true) :
    (mendedProject (checkpointBytes after)).workspace.readBytes smallLayout.checkpoint =
      after.workspace.readBytes smallLayout.checkpoint := by
  unfold checkpointBytes
  cases read : after.workspace.readBytes smallLayout.checkpoint with
  | error failure =>
      rw [read] at stands
      cases stands
  | ok bytes => rfl

/-- Two runs and a third one that finds nothing to do. -/
theorem resume_chain_applies_once_spread :
    ∃ begun between resumed ended report after,
      run askingOptions smallLayout .absent askedProject = .ok begun between ∧
        run resumingOptions smallLayout .absent (mendedProject (checkpointBytes between)) =
          .ok resumed ended ∧
        run resumingOptions smallLayout .absent (mendedProject (checkpointBytes ended)) =
          .ok report after ∧
        begun.results.map StepResult.status = [.applied, .failed, .skipped] ∧
        resumed.results.map StepResult.status = List.replicate 4 .applied ∧
        (∀ first ∈ begun.results, first.status = .applied → ∀ second ∈ resumed.results,
          Json.same second.stepId first.stepId = false) ∧
        report.results = [] ∧
          after.workspace = (mendedProject (checkpointBytes ended)).workspace := by
  have observed := chain_observed
  unfold chainView at observed
  split at observed
  · cases observed
  rename_i begun between first
  split at observed
  · cases observed
  rename_i resumed ended second
  simp only [Option.some.injEq, List.cons.injEq, turnView, Prod.mk.injEq, and_true] at observed
  obtain ⟨⟨begunStatuses, begunDone, begunStands⟩, resumedStatuses, resumedDone, resumedStands⟩ :=
    observed
  have firstRun : run askingOptions smallLayout .absent askedProject = .ok begun between := by
    rw [run_of_prepared asked_prepares]
    exact first
  have firstTurn : Turn.Performs smallLayout spreadPlan
      ⟨askingOptions, .absent, askedProject, begun, between⟩ :=
    ⟨rfl, spread_stored rfl, firstRun⟩
  obtain ⟨saved, reported, completed⟩ := Option.map_eq_some_iff.mp begunDone
  have kept := mended_kept begunStands
  obtain ⟨stored, belongs⟩ := firstTurn.stored reported
  have secondRun : run resumingOptions smallLayout .absent
      (mendedProject (checkpointBytes between)) = .ok resumed ended := by
    rw [run_of_prepared (mended_prepares ((Checkpoint.storedAt_congr kept).trans stored)
      (belongs _ (Plan.digest_of_written spread_written)) completed)]
    rw [reported] at second
    exact second
  have chain : ResumeChain smallLayout spreadPlan
      [⟨resumingOptions, .absent, _, resumed, ended⟩,
        ⟨askingOptions, .absent, askedProject, begun, between⟩] :=
    .next (.first firstTurn rfl) ⟨rfl, spread_stored rfl, secondRun⟩ rfl kept
  obtain ⟨continues, further⟩ := resume_chain_applies_once chain
  obtain ⟨last, lastReported, all⟩ := Option.map_eq_some_iff.mp resumedDone
  have whole : ∀ step ∈ spreadPlan.steps, step.id.isAmong last.completed = true := by
    rw [all]
    decide +kernel
  have fits : Fits resumingOptions spreadPlan := ⟨nofun, nofun, nofun, Or.inl rfl⟩
  obtain ⟨report, after, ran, none, _, same⟩ := further _ List.mem_cons_self last lastReported
    whole resumingOptions .absent (mendedProject (checkpointBytes ended)) rfl fits
    (spread_stored rfl) (mended_kept resumedStands)
  have once := (List.pairwise_cons.mp continues).1 _ (List.mem_singleton.mpr rfl)
  exact ⟨begun, between, resumed, ended, report, after, firstRun, secondRun, ran, begunStatuses,
    resumedStatuses, once.once, none, same⟩

end Migration

end Restyle
