import Restyle.Proofs.Computation
import Restyle.Proofs.Migration.Execution

/-!
# Preparing a run

A run first prepares a task, without touching anything: it loads the plan and
the checkpoint and puts the steps in order.  `Prepared` says what the task is,
and a run is prepared exactly when there is such a task.
-/

namespace Restyle

variable {session after : Session} {path : Path}

/-- Whether a path holds a plan. -/
def Plan.StoredAt (workspace : Workspace) (path : Path) (plan : Plan) : Prop :=
  path.hasNull = false ∧
    ∃ text, workspace.readText path = .ok text ∧ Plan.ofText text = .ok plan

theorem Plan.load_eq_ok {plan : Plan} (success : Plan.load path session = .ok plan after) :
    Plan.StoredAt session.workspace path plan ∧ session.Quiet after := by
  unfold Plan.load at success
  obtain ⟨outcome, _, reading, rest⟩ := Activity.bind_eq_ok.mp success
  obtain ⟨clean, result, rfl⟩ := Activity.readText_eq_ok.mp reading
  cases outcome with
  | error failure =>
      cases missing : failure.isMissing <;> simp [missing] at rest
  | ok text =>
      obtain ⟨loaded, _, lifted, rest⟩ := Activity.bind_eq_ok.mp rest
      obtain ⟨parsed, rfl⟩ := Activity.lift_eq_ok.mp lifted
      obtain ⟨_, noted, logged, rest⟩ := Activity.bind_eq_ok.mp rest
      obtain ⟨rfl, rfl⟩ := Activity.pure_eq_ok.mp rest
      exact ⟨⟨clean, text, result.symm, parsed⟩, Activity.log_quiet logged⟩

/-- The session once a plan is loaded from a path. -/
def Plan.noted (plan : Plan) (path : Path) (session : Session) : Session :=
  { session with
    log := session.log ++
      [⟨.debug, .records, "Loaded plan " ++ path.toString ++ " with " ++
        toString plan.steps.length ++ " step(s)"⟩] }

theorem Plan.noted_quiet (plan : Plan) (path : Path) (session : Session) :
    session.Quiet (plan.noted path session) :=
  ⟨⟨rfl, rfl, rfl, rfl⟩, rfl⟩

theorem Plan.load_apply {plan : Plan} (stored : Plan.StoredAt session.workspace path plan) :
    Plan.load path session = .ok plan (plan.noted path session) := by
  obtain ⟨clean, text, read, parsed⟩ := stored
  have reading : Activity.readText path session = .ok (.ok text) session := by
    rw [Activity.readText_apply clean, read]
  have lifted : Activity.lift (Plan.ofText text) session = .ok plan session :=
    Activity.lift_eq_ok.mpr ⟨parsed, rfl⟩
  unfold Plan.load
  rw [Activity.bind_of_ok reading]
  dsimp only
  rw [Activity.bind_of_ok lifted, Activity.bind_of_ok (Activity.log_apply ..)]
  rfl

theorem Plan.load_of_storedAt {plan : Plan} (stored : Plan.StoredAt session.workspace path plan) :
    ∃ after, Plan.load path session = .ok plan after ∧ session.Quiet after :=
  ⟨_, Plan.load_apply stored, plan.noted_quiet path session⟩

theorem Plan.digestInput_eq_ok {plan : Plan} {bytes : List UInt8} :
    plan.digestInput = .ok bytes ↔ ∃ document, plan.toJson = .ok document ∧
      document.isEncodable = true ∧ bytes = Text.encode document.compactText := by
  constructor
  · intro input
    obtain ⟨document, written, input⟩ := bind_eq_ok_iff.mp input
    split at input
    · rename_i encodable
      exact ⟨document, written, encodable, (Except.ok.inj input).symm⟩
    · cases input
  · rintro ⟨document, written, encodable, rfl⟩
    exact bind_eq_ok_iff.mpr ⟨document, written, if_pos encodable⟩

theorem Plan.digest_of_digestInput {plan : Plan} {bytes : List UInt8}
    (input : plan.digestInput = .ok bytes) : ∃ digest, plan.digest = .ok digest :=
  ⟨_, bind_eq_ok_iff.mpr ⟨bytes, input, rfl⟩⟩

theorem Plan.digest_of_written {plan : Plan} (written : plan.digestInput.toOption.isSome = true) :
    plan.digest = .ok (plan.digest.toOption.getD "") := by
  cases known : plan.digestInput with
  | error fault =>
      rw [known] at written
      cases written
  | ok bytes =>
      unfold Plan.digest
      rw [known]
      rfl

/-- The checkpoint that a path holds, if it holds a usable one. -/
def Checkpoint.storedAt (workspace : Workspace) (path : Path) :
    Except Failure (Option Checkpoint) :=
  match workspace.readText path with
  | .error _ => .ok none
  | .ok text =>
      match Checkpoint.ofText text with
      | .error failure => .error failure
      | .ok (.error _) => .ok none
      | .ok (.ok checkpoint) => .ok (some checkpoint)

theorem Checkpoint.load_eq_ok {found : Option Checkpoint}
    (success : Checkpoint.load path session = .ok found after) :
    Checkpoint.storedAt session.workspace path = .ok found ∧ session.Quiet after := by
  unfold Checkpoint.load at success
  obtain ⟨outcome, _, reading, rest⟩ := Activity.bind_eq_ok.mp success
  obtain ⟨_, result, rfl⟩ := Activity.readText_eq_ok.mp reading
  unfold Checkpoint.storedAt
  rw [← result]
  cases outcome with
  | error failure =>
      cases missing : failure.isMissing with
      | true =>
          simp only [missing, if_true, Activity.pure_eq_ok] at rest
          obtain ⟨rfl, rfl⟩ := rest
          exact ⟨rfl, .refl _⟩
      | false =>
          simp only [missing, Bool.false_eq_true, if_false] at rest
          obtain ⟨_, noted, logged, rest⟩ := Activity.bind_eq_ok.mp rest
          obtain ⟨rfl, rfl⟩ := Activity.pure_eq_ok.mp rest
          exact ⟨rfl, Activity.log_quiet logged⟩
  | ok text =>
      obtain ⟨parsed, _, lifted, rest⟩ := Activity.bind_eq_ok.mp rest
      obtain ⟨known, rfl⟩ := Activity.lift_eq_ok.mp lifted
      simp only [known]
      cases parsed with
      | ok checkpoint =>
          obtain ⟨rfl, rfl⟩ := Activity.pure_eq_ok.mp rest
          exact ⟨rfl, .refl _⟩
      | error reason =>
          obtain ⟨_, noted, logged, rest⟩ := Activity.bind_eq_ok.mp rest
          obtain ⟨rfl, rfl⟩ := Activity.pure_eq_ok.mp rest
          exact ⟨rfl, Activity.log_quiet logged⟩

theorem Checkpoint.load_of_found {checkpoint : Checkpoint} (clean : path.hasNull = false)
    (stored : Checkpoint.storedAt session.workspace path = .ok (some checkpoint)) :
    Checkpoint.load path session = .ok (some checkpoint) session := by
  unfold Checkpoint.load
  rw [Activity.bind_of_ok (Activity.readText_apply clean)]
  unfold Checkpoint.storedAt at stored
  cases read : session.workspace.readText path with
  | error failure => simp [read] at stored
  | ok text =>
      simp only [read] at stored
      cases parsed : Checkpoint.ofText text with
      | error failure => simp [parsed] at stored
      | ok outcome =>
          simp only [parsed] at stored
          have lifted : Activity.lift (Except.ok outcome : Except Failure _) session =
              .ok outcome session := Activity.lift_eq_ok.mpr ⟨rfl, rfl⟩
          simp only [parsed]
          rw [Activity.bind_of_ok lifted]
          cases outcome with
          | ok checkpoint =>
              cases stored
              rfl
          | error reason => cases stored

theorem Checkpoint.load_of_storedAt {found : Option Checkpoint} (clean : path.hasNull = false)
    (stored : Checkpoint.storedAt session.workspace path = .ok found) :
    ∃ after, Checkpoint.load path session = .ok found after ∧ session.Quiet after := by
  cases found with
  | some checkpoint => exact ⟨session, Checkpoint.load_of_found clean stored, .refl _⟩
  | none =>
      unfold Checkpoint.load
      rw [Activity.bind_of_ok (Activity.readText_apply clean)]
      unfold Checkpoint.storedAt at stored
      cases read : session.workspace.readText path with
      | error failure =>
          cases missing : failure.isMissing with
          | true =>
              simp only [missing, if_true]
              exact ⟨_, rfl, .refl _⟩
          | false =>
              simp only [missing, Bool.false_eq_true, if_false]
              rw [Activity.bind_of_ok (Activity.log_apply ..)]
              exact ⟨_, rfl, ⟨⟨rfl, rfl, rfl, rfl⟩, rfl⟩⟩
      | ok text =>
          simp only [read] at stored
          cases parsed : Checkpoint.ofText text with
          | error failure => simp [parsed] at stored
          | ok outcome =>
              simp only [parsed] at stored
              cases outcome with
              | ok checkpoint => cases stored
              | error reason =>
                  have lifted : Activity.lift (Checkpoint.ofText text) session =
                      .ok (.error reason) session := Activity.lift_eq_ok.mpr ⟨parsed, rfl⟩
                  dsimp only
                  rw [Activity.bind_of_ok lifted]
                  dsimp only
                  rw [Activity.bind_of_ok (Activity.log_apply ..)]
                  exact ⟨_, rfl, ⟨⟨rfl, rfl, rfl, rfl⟩, rfl⟩⟩

namespace Migration

/-- What a run has to do: the plan with its digest, the checkpoint it resumes
from and the steps in order. -/
structure Task where
  planPath : Path
  plan : Plan
  digest : String
  checkpoint : Option Checkpoint
  steps : List Step

/-- Which steps of a plan a run takes. -/
def selectionOf (options : MigrationOptions) (checkpoint : Option Checkpoint) : Selection where
  only := options.only
  skip := options.skip
  file := options.file
  completed := (checkpoint.map (·.completed)).getD []

/-- The part of a run before anything is done. -/
def prepare (options : MigrationOptions) (layout : Layout) : Activity Task := do
  let planPath := (← options.planPath.mapM place).getD layout.plan
  let plan ← Plan.load planPath
  let digest ← Activity.value plan.digest
  let checkpoint ←
    if options.resume then resumeFrom layout.checkpoint digest else pure none
  let steps ← schedule (selectionOf options checkpoint) plan.steps
  return { planPath, plan, digest, checkpoint, steps }

variable {options : MigrationOptions} {layout : Layout} {index : IndexRebuild} {task : Task}
  {steps : List Step} {report : RunReport}

theorem forM_log_outcome (level : LogLevel) (channel : LogChannel) (messages : List String)
    (session : Session) :
    ∃ after, messages.forM (Activity.log level channel) session = .ok ⟨⟩ after ∧
      session.Quiet after := by
  induction messages generalizing session with
  | nil => exact ⟨session, rfl, .refl _⟩
  | cons message messages induction =>
      obtain ⟨after, rest, quiet⟩ :=
        induction { session with log := session.log ++ [⟨level, channel, message⟩] }
      refine ⟨after, ?_, (Activity.log_quiet (Activity.log_apply level channel message)).trans quiet⟩
      show (Activity.log level channel message >>= fun _ =>
        messages.forM (Activity.log level channel)) session = _
      rw [Activity.bind_of_ok (Activity.log_apply ..)]
      exact rest

/-- The steps that a selection takes from a plan, in order. -/
def Schedules (selection : Selection) (steps scheduled : List Step) : Prop :=
  ∃ selected schedule, selection.filter steps = .ok selected ∧
    Schedule.ofSteps selected = .ok schedule ∧ schedule.fault = none ∧
      scheduled = schedule.steps

theorem schedule_eq_ok {selection : Selection} {scheduled : List Step}
    (success : schedule selection steps session = .ok scheduled after) :
    Schedules selection steps scheduled ∧ session.Quiet after := by
  unfold schedule at success
  obtain ⟨found, _, computed, rest⟩ := Activity.bind_eq_ok.mp success
  obtain ⟨known, rfl⟩ := Activity.value_eq_ok.mp computed
  obtain ⟨_, noted, logged, rest⟩ := Activity.bind_eq_ok.mp rest
  obtain ⟨other, again, quiet⟩ :=
    forM_log_outcome .warning .scheduling found.warnings session
  rw [again] at logged
  cases logged
  cases selected : selection.filter steps with
  | error fault =>
      rw [selected] at known
      cases known
  | ok chosen =>
      rw [selected] at known
      cases fault : found.fault with
      | some fault' => simp [fault] at rest
      | none =>
          simp only [fault, Activity.pure_eq_ok] at rest
          obtain ⟨rfl, rfl⟩ := rest
          exact ⟨⟨chosen, found, selected, known, fault, rfl⟩, quiet⟩

theorem schedule_of_ok {selection : Selection} {found : Schedule} {noted : Session}
    (computed : (do Schedule.ofSteps (← selection.filter steps)) = .ok found)
    (faultless : found.fault = none)
    (logged : found.warnings.forM (Activity.log .warning .scheduling) session = .ok ⟨⟩ noted) :
    schedule selection steps session = .ok found.steps noted := by
  have valued : Activity.value (do Schedule.ofSteps (← selection.filter steps)) session =
      .ok found session := Activity.value_eq_ok.mpr ⟨computed, rfl⟩
  unfold schedule
  rw [Activity.bind_of_ok valued, Activity.bind_of_ok logged]
  simp only [faultless]
  rfl

theorem schedule_of_schedules {selection : Selection} {scheduled : List Step}
    (schedules : Schedules selection steps scheduled) :
    ∃ after, schedule selection steps session = .ok scheduled after ∧ session.Quiet after := by
  obtain ⟨chosen, found, selected, known, faultless, rfl⟩ := schedules
  obtain ⟨noted, logged, quiet⟩ :=
    forM_log_outcome .warning .scheduling found.warnings session
  refine ⟨noted, schedule_of_ok ?_ faultless logged, quiet⟩
  rw [selected]
  exact known

theorem Schedules.of_ok {selection : Selection} {found : Schedule}
    (computed : selection.filter steps >>= Schedule.ofSteps = .ok found)
    (faultless : found.fault = none) : Schedules selection steps found.steps := by
  obtain ⟨selected, filtered, ordered⟩ := bind_eq_ok_iff.mp computed
  exact ⟨selected, found, filtered, ordered, faultless, rfl⟩

/-- The checkpoint that a run resumes from: none unless it is asked to resume,
and then the stored one, which must belong to the plan. -/
def ResumesFrom (options : MigrationOptions) (layout : Layout) (workspace : Workspace)
    (digest : String) (checkpoint : Option Checkpoint) : Prop :=
  if options.resume then
    Checkpoint.storedAt workspace layout.checkpoint = .ok checkpoint ∧
      ∀ found, checkpoint = some found → found.planDigest = .text digest
  else checkpoint = none

def planPathOf (options : MigrationOptions) (layout : Layout) (project : Path) : Path :=
  (options.planPath.map project.resolve).getD layout.plan

/-- What a run prepares. -/
structure Prepared (options : MigrationOptions) (layout : Layout) (session : Session)
    (task : Task) : Prop where
  planPath : task.planPath = planPathOf options layout session.project
  plan : Plan.StoredAt session.workspace task.planPath task.plan
  digest : task.plan.digest = .ok task.digest
  checkpoint : ResumesFrom options layout session.workspace task.digest task.checkpoint
  steps : Schedules (selectionOf options task.checkpoint) task.plan.steps task.steps

theorem resumeFrom_eq_ok {digest : String} {found : Option Checkpoint}
    (success : resumeFrom path digest session = .ok found after) :
    Checkpoint.storedAt session.workspace path = .ok found ∧
      (∀ checkpoint, found = some checkpoint → checkpoint.planDigest = .text digest) ∧
        session.Quiet after := by
  unfold resumeFrom at success
  obtain ⟨loaded, middle, loading, rest⟩ := Activity.bind_eq_ok.mp success
  obtain ⟨stored, quiet⟩ := Checkpoint.load_eq_ok loading
  cases loaded with
  | none =>
      obtain ⟨rfl, rfl⟩ := Activity.pure_eq_ok.mp rest
      exact ⟨stored, by simp, quiet⟩
  | some checkpoint =>
      obtain ⟨_, _, verified, rest⟩ := Activity.bind_eq_ok.mp rest
      obtain ⟨checked, rfl⟩ := Activity.lift_eq_ok.mp verified
      obtain ⟨rfl, rfl⟩ := Activity.pure_eq_ok.mp rest
      refine ⟨stored, ?_, quiet⟩
      rintro _ ⟨⟩
      unfold Checkpoint.verify at checked
      split at checked
      · assumption
      · cases checked

theorem prepare_eq_ok {started : Session}
    (success : prepare options layout session = .ok task started) :
    Prepared options layout session task ∧ session.Quiet started := by
  unfold prepare at success
  obtain ⟨chosen, ready, placed, rest⟩ := Activity.bind_eq_ok.mp success
  have located : chosen = options.planPath.map session.project.resolve ∧ session = ready := by
    cases given : options.planPath with
    | none =>
        rw [given] at placed
        obtain ⟨rfl, same⟩ := Activity.pure_eq_ok.mp placed
        exact ⟨rfl, same⟩
    | some named =>
        rw [given] at placed
        obtain ⟨found, known, rfl⟩ := Activity.map_eq_ok.mp placed
        obtain ⟨_, rfl, same⟩ := place_eq_ok.mp known
        exact ⟨rfl, same⟩
  obtain ⟨rfl, rfl⟩ := located
  obtain ⟨plan, loaded, loading, rest⟩ := Activity.bind_eq_ok.mp rest
  obtain ⟨stored, first⟩ := Plan.load_eq_ok loading
  obtain ⟨digest, _, digested, rest⟩ := Activity.bind_eq_ok.mp rest
  obtain ⟨known, rfl⟩ := Activity.value_eq_ok.mp digested
  have parts : ∃ checkpoint resumed,
      ResumesFrom options layout session.workspace digest checkpoint ∧ loaded.Quiet resumed ∧
        (do
          let steps ← schedule (selectionOf options checkpoint) plan.steps
          return (Task.mk (planPathOf options layout session.project) plan digest checkpoint
            steps)) resumed = .ok task started := by
    unfold ResumesFrom
    cases resuming : options.resume with
    | true =>
        rw [resuming] at rest
        obtain ⟨checkpoint, resumed, resume, rest⟩ := Activity.bind_eq_ok.mp rest
        obtain ⟨found, belongs, quiet⟩ := resumeFrom_eq_ok resume
        rw [first.workspace] at found
        exact ⟨checkpoint, resumed, ⟨found, belongs⟩, quiet, rest⟩
    | false =>
        rw [resuming] at rest
        exact ⟨none, loaded, rfl, .refl _, rest⟩
  obtain ⟨checkpoint, resumed, resumes, second, rest⟩ := parts
  obtain ⟨scheduled, _, scheduling, rest⟩ := Activity.bind_eq_ok.mp rest
  obtain ⟨schedules, third⟩ := schedule_eq_ok scheduling
  obtain ⟨rfl, rfl⟩ := Activity.pure_eq_ok.mp rest
  exact ⟨⟨rfl, stored, known, resumes, schedules⟩, (first.trans second).trans third⟩

theorem planPath_clean {started : Session}
    (success : prepare options layout session = .ok task started) :
    ∀ named, options.planPath = some named → named.hasNull = false := by
  intro named given
  unfold prepare at success
  obtain ⟨chosen, ready, placed, _⟩ := Activity.bind_eq_ok.mp success
  rw [given] at placed
  obtain ⟨found, known, _⟩ := Activity.map_eq_ok.mp placed
  exact (place_eq_ok.mp known).1

theorem place_planPath (session : Session)
    (clean : ∀ named, options.planPath = some named → named.hasNull = false) :
    options.planPath.mapM place session =
      .ok (options.planPath.map session.project.resolve) session := by
  cases given : options.planPath with
  | none => rfl
  | some named =>
      exact Activity.map_eq_ok.mpr ⟨_, place_eq_ok.mpr ⟨clean named given, rfl, rfl⟩, rfl⟩

theorem prepare_of_parts {loaded resumed started : Session}
    (cleanPlan : ∀ named, options.planPath = some named → named.hasNull = false)
    (planPath : task.planPath = planPathOf options layout session.project)
    (loading : Plan.load task.planPath session = .ok task.plan loaded)
    (digest : task.plan.digest = .ok task.digest)
    (resume : (if options.resume then resumeFrom layout.checkpoint task.digest else pure none)
      loaded = .ok task.checkpoint resumed)
    (scheduling : schedule (selectionOf options task.checkpoint) task.plan.steps resumed =
      .ok task.steps started) :
    prepare options layout session = .ok task started := by
  have digested : Activity.value task.plan.digest loaded = .ok task.digest loaded :=
    Activity.value_eq_ok.mpr ⟨digest, rfl⟩
  rw [planPath] at loading
  unfold prepare
  rw [Activity.bind_of_ok (place_planPath session cleanPlan)]
  refine (Activity.bind_of_ok loading).trans ?_
  rw [Activity.bind_of_ok digested]
  have last : (schedule (selectionOf options task.checkpoint) task.plan.steps >>= fun steps =>
      (pure (Task.mk (planPathOf options layout session.project) task.plan task.digest
        task.checkpoint steps) : Activity Task)) resumed = .ok task started := by
    rw [Activity.bind_of_ok scheduling, ← planPath]
    rfl
  cases resuming : options.resume with
  | true =>
      rw [resuming] at resume
      exact (Activity.bind_of_ok resume).trans last
  | false =>
      rw [resuming] at resume
      exact (Activity.bind_of_ok resume).trans last

theorem resumeFrom_of_verified {digest : String} {checkpoint : Option Checkpoint}
    {resumed : Session} (loading : Checkpoint.load path session = .ok checkpoint resumed)
    (belongs : ∀ found, checkpoint = some found → found.planDigest = .text digest) :
    resumeFrom path digest session = .ok checkpoint resumed := by
  unfold resumeFrom
  rw [Activity.bind_of_ok loading]
  cases found : checkpoint with
  | none => rfl
  | some checkpoint =>
      have verified : Activity.lift (checkpoint.verify digest) resumed = .ok () resumed := by
        simp [Checkpoint.verify, belongs checkpoint found]
      dsimp only
      rw [Activity.bind_of_ok verified]
      rfl

/-- Resuming disturbs nothing, and a checkpoint that is there is loaded without a
word. -/
theorem ResumesFrom.loads {digest : String} {checkpoint : Option Checkpoint}
    (resumes : ResumesFrom options layout session.workspace digest checkpoint)
    (clean : layout.checkpoint.hasNull = false) :
    ∃ resumed, (if options.resume then resumeFrom layout.checkpoint digest else pure none) session =
        .ok checkpoint resumed ∧ session.Quiet resumed ∧
      ((options.resume = true → checkpoint.isSome) → resumed = session) := by
  unfold ResumesFrom at resumes
  cases resuming : options.resume with
  | false =>
      rw [resuming] at resumes
      rw [show checkpoint = none from resumes]
      exact ⟨session, rfl, .refl _, fun _ => rfl⟩
  | true =>
      rw [resuming] at resumes
      obtain ⟨stored, belongs⟩ := resumes
      cases checkpoint with
      | none =>
          obtain ⟨resumed, loading, quiet⟩ := Checkpoint.load_of_storedAt clean stored
          refine ⟨resumed, resumeFrom_of_verified loading belongs, quiet, fun found => ?_⟩
          cases found rfl
      | some checkpoint =>
          have loading := Checkpoint.load_of_found clean stored
          exact ⟨session, resumeFrom_of_verified loading belongs, .refl _, fun _ => rfl⟩

/-- A run that can be prepared is prepared. -/
theorem prepare_of_prepared (prepared : Prepared options layout session task)
    (cleanPlan : ∀ named, options.planPath = some named → named.hasNull = false)
    (cleanCheckpoint : layout.checkpoint.hasNull = false) :
    ∃ started, prepare options layout session = .ok task started ∧ session.Quiet started := by
  have loading := Plan.load_apply prepared.plan
  have first := task.plan.noted_quiet task.planPath session
  have resumes := prepared.checkpoint
  rw [← first.workspace] at resumes
  obtain ⟨resumed, resume, second, _⟩ := resumes.loads cleanCheckpoint
  obtain ⟨scheduled, scheduling, third⟩ :
      ∃ scheduled, schedule (selectionOf options task.checkpoint) task.plan.steps resumed =
        .ok task.steps scheduled ∧ resumed.Quiet scheduled :=
    schedule_of_schedules prepared.steps
  exact ⟨scheduled, prepare_of_parts cleanPlan prepared.planPath loading prepared.digest resume
    scheduling, (first.trans second).trans third⟩

/-- A run whose steps have no cycle, and that finds the checkpoint it asks for,
notes the plan that it loads and nothing else. -/
theorem prepare_noted (prepared : Prepared options layout session task)
    (cleanPlan : ∀ named, options.planPath = some named → named.hasNull = false)
    (cleanCheckpoint : layout.checkpoint.hasNull = false)
    (found : options.resume = true → task.checkpoint.isSome)
    (scheduled : (selectionOf options task.checkpoint).filter task.plan.steps >>=
      Schedule.ofSteps = .ok ⟨task.steps, [], none⟩) :
    prepare options layout session = .ok task (task.plan.noted task.planPath session) := by
  have resumes := prepared.checkpoint
  rw [← (task.plan.noted_quiet task.planPath session).workspace] at resumes
  obtain ⟨resumed, resume, _, same⟩ := resumes.loads cleanCheckpoint
  rw [same found] at resume
  exact prepare_of_parts cleanPlan prepared.planPath (Plan.load_apply prepared.plan)
    prepared.digest resume (schedule_of_ok scheduled rfl rfl)

/-- What a run from nothing prepares that takes some steps of a plan. -/
def freshTask (options : MigrationOptions) (layout : Layout) (project : Path) (plan : Plan)
    (steps : List Step) : Task where
  planPath := planPathOf options layout project
  plan
  digest := plan.digest.toOption.getD ""
  checkpoint := none
  steps

/-- A run from nothing is prepared for a plan that is stored and can be written, when
the steps it takes have no cycle.  The digest of the plan need not be known. -/
theorem prepare_fresh {plan : Plan} (fresh : options.resume = false)
    (cleanPlan : ∀ named, options.planPath = some named → named.hasNull = false)
    (cleanCheckpoint : layout.checkpoint.hasNull = false)
    (stored : Plan.StoredAt session.workspace (planPathOf options layout session.project) plan)
    (written : plan.digestInput.toOption.isSome = true)
    (scheduled : (selectionOf options none).filter plan.steps >>= Schedule.ofSteps =
      .ok ⟨steps, [], none⟩) :
    prepare options layout session = .ok (freshTask options layout session.project plan steps)
      (plan.noted (planPathOf options layout session.project) session) := by
  have prepared : Prepared options layout session
      (freshTask options layout session.project plan steps) := by
    refine ⟨rfl, stored, Plan.digest_of_written written, ?_, Schedules.of_ok scheduled rfl⟩
    rw [ResumesFrom, if_neg (by simp [fresh])]
    rfl
  exact prepare_noted prepared cleanPlan cleanCheckpoint (by simp [fresh]) scheduled

end Migration

end Restyle
