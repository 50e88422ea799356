import Restyle.Proofs.Json.Compact
import Restyle.Proofs.Migration.FailedRuns
import Restyle.Proofs.Migration.Histories

/-!
# Plans and their checkpoints

The digest of a plan covers a text from which its document can be told.  A run
that resumes compares the digest of its plan with that of the checkpoint before
it does anything, and nothing else that a run does finds that a plan has
changed.
-/

namespace Restyle

theorem Text.encode_injective {text other : List Char} (same : encode text = encode other) :
    text = other := by
  have read := decode_encode text
  rw [same, decode_encode] at read
  exact (Except.ok.inj read).symm

theorem Text.bytesOfHex?_flatMap (bytes : List UInt8) :
    bytesOfHex? (bytes.flatMap fun byte => hex 2 byte.toNat) = some bytes := by
  induction bytes with
  | nil => rfl
  | cons byte bytes induction =>
      have small : byte.toNat < 256 := byte.toNat_lt
      have upper := Json.hexValue?_hexDigit (byte.toNat / 16) (by omega)
      have lower := Json.hexValue?_hexDigit (byte.toNat % 16) (Nat.mod_lt _ (by decide))
      have digits : hex 2 byte.toNat = [hexDigit (byte.toNat / 16), hexDigit (byte.toNat % 16)] := by
        rw [← Nat.mod_eq_of_lt (show byte.toNat / 16 < 16 by omega)]
        simp [hex]
      have whole : UInt8.ofNat (16 * (byte.toNat / 16) + byte.toNat % 16) = byte := by
        rw [Nat.div_add_mod, UInt8.ofNat_toNat]
      rw [List.flatMap_cons, digits, List.cons_append, List.cons_append, List.nil_append,
        bytesOfHex?, upper, lower, induction]
      exact congrArg (fun first => some (first :: bytes)) whole

theorem Text.take_flatMap_hex (count : Nat) (bytes : List UInt8) :
    (bytes.flatMap fun byte => hex 2 byte.toNat).take (2 * count) =
      (bytes.take count).flatMap fun byte => hex 2 byte.toNat := by
  induction count generalizing bytes with
  | zero => simp
  | succ count induction =>
      cases bytes with
      | nil => simp
      | cons byte bytes =>
          have width : (hex 2 byte.toNat).length = 2 := rfl
          rw [List.flatMap_cons, List.take_append, width, List.take_of_length_le (by omega),
            show 2 * (count + 1) - 2 = 2 * count by omega, induction, List.take_succ_cons,
            List.flatMap_cons]

namespace Plan

variable {plan other : Plan} {left right : Json} {bytes others : List UInt8}

theorem digestInput_of_legible (written : plan.toJson = .ok left) (legible : left.IsLegible) :
    plan.digestInput = .ok (Text.encode left.compactText) :=
  digestInput_eq_ok.mpr ⟨left, written, legible.encodable, rfl⟩

/-- The digest is the first half of what eight bytes of SHA-256 are written
with, so two plans share it when these bytes agree. -/
theorem digest_eq_digest_iff (input : plan.digestInput = .ok bytes)
    (another : other.digestInput = .ok others) :
    plan.digest = other.digest ↔
      (Sha256.digest bytes).take 8 = (Sha256.digest others).take 8 := by
  have shape {plan : Plan} {bytes} (input : plan.digestInput = .ok bytes) : plan.digest =
      .ok ("sha256:" ++ String.ofList
        (((Sha256.digest bytes).take 8).flatMap fun byte => Text.hex 2 byte.toNat)) := by
    rw [← Text.take_flatMap_hex 8]
    exact bind_eq_ok_iff.mpr ⟨bytes, input, rfl⟩
  rw [shape input, shape another]
  constructor
  · intro same
    have digits := String.ofList_injective ((String.append_right_inj _).mp (Except.ok.inj same))
    have read := congrArg Text.bytesOfHex? digits
    rw [Text.bytesOfHex?_flatMap, Text.bytesOfHex?_flatMap] at read
    exact Option.some.inj read
  · intro same
    rw [same]

end Plan

namespace Activity

variable {α β : Type} {first : Activity α} {next : α → Activity β} {session after : Session}
  {failure : Failure}

/-- An activity that never fails in a certain way. -/
def Avoids (failure : Failure) (body : Activity α) : Prop :=
  ∀ session after, body session ≠ .error failure after

theorem Avoids.bind (begins : Avoids failure first) (later : ∀ value, Avoids failure (next value)) :
    Avoids failure (first >>= next) := by
  intro session after stopped
  rcases bind_eq_error.mp stopped with early | ⟨value, middle, _, rest⟩
  · exact begins session after early
  · exact later value middle after rest

theorem Succeeds.avoids (succeeds : Succeeds first) : Avoids failure first := by
  intro session after stopped
  obtain ⟨_, _, success⟩ := succeeds session
  rw [success] at stopped
  cases stopped

theorem avoids_pure (value : α) : Avoids failure (pure value : Activity α) :=
  (succeeds_pure value).avoids

theorem avoids_log (level : LogLevel) (channel : LogChannel) (message : String) :
    Avoids failure (log level channel message) :=
  (succeeds_log level channel message).avoids

theorem avoids_throw {other : Failure} (differ : other ≠ failure) :
    Avoids failure (throw other : Activity α) := by
  intro session after stopped
  cases stopped
  exact differ rfl

theorem avoids_get : Avoids failure (get : Activity Session) := by
  intro session after stopped
  cases stopped

theorem avoids_value (computed : Except Fault α) : Avoids .planChanged (value computed) := by
  cases computed with
  | ok result => exact avoids_pure result
  | error fault => exact avoids_throw nofun

theorem avoids_attempt (body : Activity α) : Avoids failure (attempt body) := by
  intro session after stopped
  unfold attempt at stopped
  split at stopped <;> cases stopped

theorem avoids_requirePath (path : Path) : Avoids .planChanged (requirePath path) := by
  unfold requirePath
  split
  · exact avoids_throw nofun
  · exact avoids_pure _

theorem avoids_readText (path : Path) : Avoids .planChanged (readText path) := by
  unfold readText
  apply (avoids_requirePath path).bind
  intro _
  apply avoids_get.bind
  intro session
  split
  · exact avoids_pure _
  · split <;> exact avoids_pure _

theorem avoids_writeFile (target : Path) (content : String) :
    Avoids .planChanged (writeFile target content) := by
  intro session after stopped
  rcases writeFile_failure stopped with ⟨_, other⟩ | ⟨_, other⟩ | ⟨other, _⟩ <;> cases other

theorem avoids_nextAnswer : Avoids .planChanged nextAnswer := by
  intro session after stopped
  unfold nextAnswer at stopped
  rw [get_bind] at stopped
  cases coming : session.answers with
  | nil =>
      rw [coming] at stopped
      cases stopped
  | cons answer later =>
      rw [coming] at stopped
      cases stopped

theorem Avoids.inConversation (avoids : Avoids failure first) :
    Avoids failure (inConversation first) := by
  intro session after stopped
  obtain ⟨middle, inner, _⟩ := inConversation_eq_error stopped
  exact avoids _ _ inner

end Activity

namespace Migration

open Activity

theorem avoids_pathOf (file : Json) : Avoids .planChanged (pathOf file) := by
  unfold pathOf place
  apply (avoids_value _).bind
  intro name
  apply (avoids_requirePath _).bind
  intro _
  exact avoids_get.bind fun _ => avoids_pure _

theorem avoids_openBuffer (state : RunState) (step : Step) (path : Path) :
    Avoids .planChanged (openBuffer state step path) := by
  unfold openBuffer
  split
  · exact avoids_pure _
  · apply (avoids_readText path).bind
    intro read
    cases read with
    | error failure =>
        dsimp only
        split <;> exact avoids_pure _
    | ok text => exact (avoids_log _ _ _).bind fun _ => avoids_pure _

theorem avoids_applyStep (backup : Bool) (state : RunState) (step : Step) :
    Avoids .planChanged (applyStep backup state step) := by
  unfold applyStep
  apply (avoids_pathOf step.file).bind
  intro path
  apply (avoids_openBuffer state step path).bind
  intro opened
  cases opened with
  | error reason => exact avoids_pure _
  | ok pair =>
      apply (avoids_value _).bind
      intro edit
      cases edit with
      | none => exact avoids_pure _
      | some edit =>
          dsimp only
          split
          · exact (succeeds_backUp pair.1 path).avoids.bind fun _ =>
              (avoids_log _ _ _).bind fun _ => avoids_pure _
          · exact (avoids_pure _).bind fun _ => (avoids_log _ _ _).bind fun _ => avoids_pure _

theorem avoids_confirm (step : Step) : Avoids .planChanged (confirm step) := by
  unfold confirm
  apply (avoids_value _).bind
  intro panel
  have displays : Avoids .planChanged (Activity.display panel) := by
    intro session after stopped
    cases stopped
  exact displays.bind fun _ => avoids_nextAnswer.bind fun _ => avoids_pure _

theorem avoids_execute (backup ask : Bool) (state : RunState) (steps : List Step) :
    Avoids .planChanged (execute backup ask state steps) := by
  induction steps generalizing ask state with
  | nil => exact avoids_pure state
  | cons step steps induction =>
      rw [execute]
      split
      · unfold skipBlocked
        apply Avoids.bind
        · exact (avoids_log _ _ _).bind fun _ => avoids_pure _
        · exact fun next => induction ask next
      · split
        · apply (avoids_confirm step).bind
          intro decision
          cases decision with
          | quit => exact (avoids_log _ _ _).bind fun _ => avoids_pure _
          | no => exact induction true _
          | all => exact (avoids_applyStep backup state step).bind fun next => induction false next
          | yes => exact (avoids_applyStep backup state step).bind fun next => induction true next
        · exact (avoids_applyStep backup state step).bind fun next => induction false next

theorem avoids_failResults (path : Path) (error : String) (state : RunState)
    (results : List StepResult) : Avoids .planChanged (failResults path error state results) := by
  induction results generalizing state with
  | nil => exact avoids_pure _
  | cons result results induction =>
      have looks : Avoids .planChanged (isAppliedAt path result) := by
        unfold isAppliedAt
        split
        · exact (avoids_pathOf result.file).bind fun _ => avoids_pure _
        · exact avoids_pure _
      rw [failResults]
      apply looks.bind
      intro applied
      split
      · exact (induction _).bind fun _ => avoids_pure _
      · exact (induction _).bind fun _ => avoids_pure _

theorem avoids_commit (state : RunState) (written : List Path) (buffers : List Buffer) :
    Avoids .planChanged (commit state written buffers) := by
  induction buffers generalizing state written with
  | nil => exact avoids_pure _
  | cons buffer buffers induction =>
      rw [commit]
      split
      · exact induction state written
      · intro session after stopped
        rcases bind_eq_error.mp stopped with early | ⟨outcome, middle, attempted, rest⟩
        · exact avoids_attempt _ _ _ early
        · rcases attempt_eq_ok.mp attempted with ⟨_, rfl, _⟩ | ⟨failure, rfl, writing⟩
          · exact ((avoids_log _ _ _).bind fun _ => induction _ _) _ _ rest
          · cases failure with
            | write cause =>
                exact ((avoids_log _ _ _).bind fun _ =>
                  (avoids_failResults _ _ _ _).bind fun _ => induction _ _) _ _ rest
            | planChanged => exact avoids_writeFile _ _ _ _ writing
            | _ => cases rest

theorem avoids_appendDeclarations (stylesheet : Path) (state : RunState) :
    Avoids .planChanged (appendDeclarations stylesheet state) := by
  intro session after stopped
  rcases (appendDeclarations_error stopped).2.2 with ⟨_, other⟩ | ⟨_, other⟩ | ⟨other, _⟩ <;>
    cases other

theorem avoids_updateStylesheet (stylesheet : Path) (state : RunState) (written : List Path) :
    Avoids .planChanged (updateStylesheet stylesheet state written) := by
  unfold updateStylesheet
  split
  · exact avoids_pure _
  · intro session after stopped
    rcases bind_eq_error.mp stopped with early | ⟨outcome, middle, attempted, rest⟩
    · exact avoids_attempt _ _ _ early
    · rcases attempt_eq_ok.mp attempted with ⟨_, rfl, _⟩ | ⟨failure, rfl, appending⟩
      · exact avoids_pure _ _ _ rest
      · cases failure with
        | write cause => exact ((avoids_log _ _ _).bind fun _ => avoids_pure _) _ _ rest
        | planChanged => exact avoids_appendDeclarations _ _ _ _ appending
        | _ => cases rest

theorem avoids_rebuildIndex (index : IndexRebuild) : Avoids .planChanged (rebuildIndex index) := by
  intro session after stopped
  cases index <;> cases stopped

theorem avoids_conclude (layout : Layout) (task : Task) (state : RunState) (written : List Path)
    (warnings : List String) : Avoids .planChanged (conclude layout task state written warnings) := by
  intro session after stopped
  exact (conclude_error stopped).2.2

theorem avoids_finish (layout : Layout) (index : IndexRebuild) (task : Task)
    (executed : RunState) : Avoids .planChanged (finish layout index task executed) := by
  unfold finish
  apply (avoids_commit _ _ _).bind
  intro committed
  apply (avoids_updateStylesheet _ _ _).bind
  intro styled
  dsimp only
  split
  · exact (avoids_rebuildIndex index).bind fun _ => avoids_conclude _ _ _ _ _
  · exact avoids_conclude _ _ _ _ _

theorem avoids_applySteps (options : MigrationOptions) (layout : Layout) (index : IndexRebuild)
    (task : Task) : Avoids .planChanged (applySteps options layout index task.planPath task.digest
      task.checkpoint task.steps) := by
  rw [applySteps_eq, executeAll]
  split
  · exact (avoids_execute _ _ _ _).inConversation.bind fun _ => avoids_finish _ _ _ _
  · exact (avoids_execute _ _ _ _).bind fun _ => avoids_finish _ _ _ _

/-- What a run does after its preparation never finds that the plan has
changed. -/
theorem avoids_perform (options : MigrationOptions) (layout : Layout) (index : IndexRebuild)
    (task : Task) : Avoids .planChanged (perform options layout index task) := by
  unfold perform
  split
  · exact avoids_pure _
  · split
    · exact avoids_applySteps options layout index task
    · exact avoids_value _

theorem avoids_schedule (selection : Selection) (steps : List Step) :
    Avoids .planChanged (schedule selection steps) := by
  unfold schedule
  apply (avoids_value _).bind
  intro found
  apply Avoids.bind
  · intro session after stopped
    obtain ⟨_, logged, _⟩ := forM_log_outcome .warning .scheduling found.warnings session
    rw [logged] at stopped
    cases stopped
  · intro _
    split
    · exact avoids_throw nofun
    · exact avoids_pure _

/-- A run that resumes with a plan and a checkpoint that are found. -/
structure Resumes (options : MigrationOptions) (layout : Layout) (session : Session) (plan : Plan)
    (saved : Checkpoint) : Prop where
  resume : options.resume = true
  planPath : ∀ named, options.planPath = some named → named.hasNull = false
  plan : Plan.StoredAt session.workspace (planPathOf options layout session.project) plan
  holds : Holds layout session.workspace saved

variable {options : MigrationOptions} {layout : Layout} {session : Session} {plan : Plan}
  {saved : Checkpoint} {digest : String} {call : Call}

/-- The checkpoint is verified first, and then the steps are scheduled. -/
theorem Resumes.prepare_eq (resumes : Resumes options layout session plan saved)
    (saves : call.saved? layout = some saved) (digested : plan.digest = .ok digest) :
    ∃ ready, session.Quiet ready ∧ prepare options layout session = (do
      Activity.lift (saved.verify digest)
      let steps ← schedule (selectionOf options (some saved)) plan.steps
      return (Task.mk (planPathOf options layout session.project) plan digest (some saved) steps))
        ready := by
  obtain ⟨_, _, _, _, saving, _⟩ := Call.saves saves
  have placed := place_planPath session resumes.planPath
  obtain ⟨loaded, loading, first⟩ := Plan.load_of_storedAt resumes.plan
  have known : Activity.value plan.digest loaded = .ok digest loaded :=
    Activity.value_eq_ok.mpr ⟨digested, rfl⟩
  have stored := resumes.holds.found saves
  rw [← first.workspace] at stored
  obtain ⟨ready, found, second⟩ := Checkpoint.load_of_storedAt saving.clean stored
  refine ⟨ready, first.trans second, ?_⟩
  unfold prepare
  rw [Activity.bind_of_ok placed]
  refine (Activity.bind_of_ok loading).trans ?_
  rw [Activity.bind_of_ok known, resumes.resume]
  simp only [if_true]
  unfold resumeFrom
  simp only [bind_assoc]
  rw [Activity.bind_of_ok found]
  simp only [bind_assoc, pure_bind]
  rfl

/-- The digest that a checkpoint carries is that of the plan it was recorded
with. -/
theorem planDigest_of_saved (loads : call.Loads layout plan)
    (saves : call.saved? layout = some saved) :
    ∃ digest, plan.digest = .ok digest ∧ saved.planDigest = .text digest := by
  obtain ⟨task, _, _, prepared, saving, _⟩ := Call.saves saves
  have stored := prepared.plan
  rw [prepared.planPath] at stored
  have same : task.plan = plan := stored.unique loads
  exact ⟨task.digest, same ▸ prepared.digest, saving.digest⟩

theorem Resumes.refused (resumes : Resumes options layout session plan saved)
    (saves : call.saved? layout = some saved) (digested : plan.digest = .ok digest)
    (changed : saved.planDigest ≠ .text digest) (index : IndexRebuild) :
    ∃ after, run options layout index session = .error .planChanged after ∧
      after.workspace = session.workspace := by
  obtain ⟨ready, quiet, prepared⟩ := resumes.prepare_eq saves digested
  refine ⟨ready, ?_, quiet.workspace⟩
  have verified : Activity.lift (saved.verify digest) ready = .error .planChanged ready := by
    rw [Checkpoint.verify, if_neg changed]
    rfl
  rw [run_eq]
  apply Activity.bind_of_error
  rw [prepared]
  exact Activity.bind_of_error verified

theorem Resumes.accepted (resumes : Resumes options layout session plan saved)
    (saves : call.saved? layout = some saved) (digested : plan.digest = .ok digest)
    (belongs : saved.planDigest = .text digest) (index : IndexRebuild) (after : Session) :
    run options layout index session ≠ .error .planChanged after := by
  obtain ⟨ready, _, prepared⟩ := resumes.prepare_eq saves digested
  rw [run_eq]
  intro stopped
  rcases Activity.bind_eq_error.mp stopped with early | ⟨task, started, _, rest⟩
  · have verified : saved.verify digest = .ok () := by rw [Checkpoint.verify, if_pos belongs]
    rw [prepared, verified] at early
    exact ((avoids_pure _).bind fun _ =>
      (avoids_schedule _ _).bind fun _ => avoids_pure _) _ _ early
  · exact avoids_perform options layout index task _ _ rest

/-- Plans with different documents are told apart by the bytes that their
digests cover.  So, unless SHA-256 collides on these bytes in its first eight, a
run that resumes with another plan than the one its checkpoint was recorded with
stops there, and no file is changed; with the plan itself it goes on. -/
theorem digest_binds_plan {other : Plan} {left right : Json} (written : plan.toJson = .ok left)
    (rewritten : other.toJson = .ok right) (leftLegible : left.IsLegible)
    (rightLegible : right.IsLegible) (differ : left ≠ right) :
    ∃ bytes others, plan.digestInput = .ok bytes ∧ other.digestInput = .ok others ∧
      bytes ≠ others ∧
      ∀ layout (call : Call) saved, call.Loads layout plan → call.saved? layout = some saved →
        ∀ options index session,
          ((Sha256.digest bytes).take 8 ≠ (Sha256.digest others).take 8 →
            Resumes options layout session other saved →
              ∃ after, run options layout index session = .error .planChanged after ∧
                after.workspace = session.workspace) ∧
          (Resumes options layout session plan saved →
            ∀ after, run options layout index session ≠ .error .planChanged after) := by
  have input := Plan.digestInput_of_legible written leftLegible
  have another := Plan.digestInput_of_legible rewritten rightLegible
  refine ⟨_, _, input, another, ?_, ?_⟩
  · intro same
    exact differ (Json.compactText_injective leftLegible rightLegible
      (Text.encode_injective same))
  · intro layout call saved loads saves options index session
    obtain ⟨digest, digested, belongs⟩ := planDigest_of_saved loads saves
    constructor
    · intro apart resumes
      obtain ⟨second, known⟩ := Plan.digest_of_digestInput another
      apply resumes.refused saves known
      intro same
      rw [belongs] at same
      apply apart
      rw [← Plan.digest_eq_digest_iff input another, digested, known, Json.text.inj same]
    · intro resumes after
      exact resumes.accepted saves digested belongs index after

/-- A plan of a later date, without steps. -/
def laterPlan : Plan := { smallPlan with steps := [], createdAt := .text "later" }

/-- The small project when the later plan has taken the place of its own. -/
def laterProject (checkpoint : List UInt8) : Session :=
  { smallProject with
    workspace := ⟨[(["p"], .directory),
      (["p", "plan"], .file (Text.encode
        "\x7b\"version\":1,\"createdAt\":\"later\"\x7d".toList) 420),
      (["p", "check"], .file checkpoint 420)]⟩ }

def smallCall : Call := ⟨{ apply := true }, .absent, smallProject⟩

theorem smallPlan_legible :
    ∃ document, smallPlan.toJson = .ok document ∧ document.IsLegible := by
  have confidence : (Binary64.ofInt 1).Canonical := Binary64.canonical_ofRatio _ _ (by decide)
  have action : Json.IsLegible (.object (removal "b")) :=
    ⟨⟨rfl, trivial⟩, ⟨rfl, trivial⟩, trivial⟩
  have preview : Json.IsLegible (.object [("before", .text ""), ("after", .text "")]) :=
    ⟨⟨rfl, trivial⟩, ⟨rfl, trivial⟩, trivial⟩
  have steps : Json.IsLegible (.array (smallPlan.steps.map Step.toJson)) :=
    ⟨⟨⟨rfl, trivial⟩, ⟨rfl, trivial⟩, ⟨rfl, trivial⟩, ⟨rfl, trivial⟩, ⟨rfl, trivial⟩,
      ⟨rfl, trivial⟩, ⟨rfl, action⟩, ⟨rfl, confidence⟩, ⟨rfl, preview⟩, trivial⟩, trivial⟩
  exact ⟨_, rfl, ⟨rfl, trivial⟩, ⟨rfl, trivial⟩, ⟨rfl, trivial⟩, ⟨rfl, trivial⟩, ⟨rfl, steps⟩,
    ⟨rfl, by repeat constructor⟩, trivial⟩

theorem laterPlan_legible :
    ∃ document, laterPlan.toJson = .ok document ∧ document.IsLegible :=
  ⟨_, rfl, ⟨rfl, trivial⟩, ⟨rfl, trivial⟩, ⟨rfl, trivial⟩, ⟨rfl, trivial⟩, ⟨rfl, trivial⟩,
    ⟨rfl, by repeat constructor⟩, trivial⟩

theorem smallCall_saves :
    ∃ saved, smallCall.Loads smallLayout smallPlan ∧ smallCall.saved? smallLayout = some saved ∧
      smallPlan.digest ≠ laterPlan.digest := by
  have seen : observe { apply := true } smallLayout .absent smallProject
      (fun _ report _ => report.checkpoint.isSome) = some true := by
    rw [observe_of_prepared (small_prepares true)]
    decide +kernel
  obtain ⟨task, started, report, after, _, returned, reported⟩ := observe_eq_some seen
  obtain ⟨saved, reported⟩ := Option.isSome_iff_exists.mp reported
  have ran : run smallCall.options smallLayout smallCall.index smallCall.session =
      .ok report after := returned
  refine ⟨saved, small_stored, ?_, by decide +kernel⟩
  rw [Call.saved?, ran]
  exact reported

theorem laterProject_resumes (saved : Checkpoint) :
    Resumes { resume := true, apply := true } smallLayout
      (laterProject (Text.encode saved.toJson.pretty.toList)) laterPlan saved where
  resume := rfl
  planPath := nofun
  plan := ⟨rfl, _, rfl, by decide +kernel⟩
  holds := rfl

theorem digest_binds_plan_later :
    ∃ saved after, smallCall.saved? smallLayout = some saved ∧
      run { resume := true, apply := true } smallLayout .absent
          (laterProject (Text.encode saved.toJson.pretty.toList)) = .error .planChanged after ∧
        after.workspace = (laterProject (Text.encode saved.toJson.pretty.toList)).workspace := by
  obtain ⟨saved, loads, saves, digests⟩ := smallCall_saves
  obtain ⟨left, written, leftLegible⟩ := smallPlan_legible
  obtain ⟨right, rewritten, rightLegible⟩ := laterPlan_legible
  have documents : left ≠ right := by
    rintro rfl
    have differ : smallPlan.toJson ≠ laterPlan.toJson := by decide
    exact differ (written.trans rewritten.symm)
  obtain ⟨bytes, others, input, another, _, binds⟩ :=
    digest_binds_plan written rewritten leftLegible rightLegible documents
  have apart : (Sha256.digest bytes).take 8 ≠ (Sha256.digest others).take 8 := by
    rw [Ne, ← Plan.digest_eq_digest_iff input another]
    exact digests
  obtain ⟨refuses, _⟩ := binds smallLayout smallCall saved loads saves
    { resume := true, apply := true } .absent (laterProject (Text.encode saved.toJson.pretty.toList))
  obtain ⟨after, stopped, same⟩ := refuses apart (laterProject_resumes saved)
  exact ⟨saved, after, saves, stopped, same⟩

end Migration

end Restyle
