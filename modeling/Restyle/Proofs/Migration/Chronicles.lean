import Restyle.Proofs.Migration.FailedRuns
import Restyle.Proofs.Migration.Histories

/-!
# Chronicles of runs

A chronicle follows the checkpoint file from call to call: there is none before
the first call, and each call finds what the call before it has left, whether
that one returned or failed.  As long as no step reaches the checkpoint file,
what a call leaves there was saved by it or by a call before it, so that a
chronicle is a history.
-/

namespace Restyle

namespace Migration

variable {layout : Layout} {call previous : Call} {calls : List Call} {saved : Checkpoint}

/-- The workspace that a call leaves, whether it returns or fails. -/
def Call.leaves (layout : Layout) (call : Call) : Workspace :=
  match run call.options layout call.index call.session with
  | .ok _ after => after.workspace
  | .error _ after => after.workspace

theorem Call.leaves_of_error {failure : Failure} {after : Session}
    (stopped : run call.options layout call.index call.session = .error failure after) :
    call.leaves layout = after.workspace := by
  rw [Call.leaves, stopped]

theorem Call.saved?_of_ok {report : RunReport} {after : Session}
    (returned : run call.options layout call.index call.session = .ok report after) :
    call.saved? layout = report.checkpoint := by
  rw [Call.saved?, returned]

/-- Calls one after another, the last one first.  Between them anything may
change, but a checkpoint file that a call finds was left by the call before. -/
inductive Chronicle (layout : Layout) : List Call → Prop where
  | nil : Chronicle layout []
  | first {call : Call} (absent : ∀ bytes mode,
      call.session.workspace.get? layout.checkpoint.place ≠ some (.file bytes mode)) :
      Chronicle layout [call]
  | next {call previous : Call} {calls : List Call}
      (earlier : Chronicle layout (previous :: calls))
      (left : ∀ bytes mode,
        call.session.workspace.get? layout.checkpoint.place = some (.file bytes mode) →
          ∃ other, (previous.leaves layout).get? layout.checkpoint.place =
            some (.file bytes other)) :
      Chronicle layout (call :: previous :: calls)

/-- Whether the steps of a call do not reach the checkpoint file. -/
structure Call.Spares (layout : Layout) (call : Call) : Prop where
  fresh : FreshTag call.session (plannedSteps call.options layout call.session)
  away : OutOfReach call.session (plannedSteps call.options layout call.session)
    layout.checkpoint.place
  apart : layout.checkpoint.place ≠ layout.stylesheet.place

theorem run_quiet_of_preview {options : MigrationOptions} {index : IndexRebuild}
    {session after : Session} {report : RunReport} (previewing : options.apply = false)
    (returned : run options layout index session = .ok report after) : session.Quiet after := by
  obtain ⟨_, prepared, _⟩ := run_previews previewing returned
  exact (prepare_eq_ok prepared).2

/-- The checkpoint file that a call leaves is the one it saves, or the one that
it found. -/
theorem Call.saved_or_found (spares : call.Spares layout) {bytes : List UInt8} {mode : Nat}
    (standing : (call.leaves layout).get? layout.checkpoint.place = some (.file bytes mode)) :
    (∃ saved, call.saved? layout = some saved ∧ bytes = Text.encode saved.toJson.pretty.toList) ∨
      call.session.workspace.get? layout.checkpoint.place = some (.file bytes mode) := by
  unfold Call.leaves at standing
  unfold Call.saved?
  cases outcome : run call.options layout call.index call.session with
  | error failure after =>
      simp only [outcome] at standing
      rcases run_error_keeps outcome spares.fresh spares.away spares.apart with
        kept | ⟨_, directory⟩
      · exact Or.inr (kept ▸ standing)
      · rw [directory] at standing
        cases standing
  | ok report after =>
      simp only [outcome] at standing
      cases applying : call.options.apply with
      | false =>
          rw [(run_quiet_of_preview applying outcome).workspace] at standing
          exact Or.inr standing
      | true =>
          obtain ⟨task, _, ⟨_, _, _, same⟩ | ⟨saved, saving, _⟩⟩ := run_progress applying outcome
          · exact Or.inr (same ▸ standing)
          · obtain ⟨_, other, found⟩ := Workspace.readBytes_eq_ok_iff.mp saving.bytes
            rw [standing] at found
            exact Or.inl ⟨saved, saving.reported, (Entry.file.inj (Option.some.inj found)).1⟩

/-- The checkpoint file that a call of a chronicle finds was saved by a call
before it. -/
theorem Chronicle.found (chronicle : Chronicle layout (call :: calls))
    (spared : ∀ other ∈ calls, other.Spares layout) {bytes : List UInt8} {mode : Nat}
    (standing : call.session.workspace.get? layout.checkpoint.place = some (.file bytes mode)) :
    ∃ earlier ∈ calls, ∃ saved, earlier.saved? layout = some saved ∧
      bytes = Text.encode saved.toJson.pretty.toList := by
  induction calls generalizing call mode with
  | nil =>
      cases chronicle with
      | first absent => exact absurd standing (absent _ _)
  | cons previous calls induction =>
      cases chronicle with
      | next before left =>
          obtain ⟨other, left⟩ := left _ _ standing
          rcases Call.saved_or_found (spared previous List.mem_cons_self) left with
            ⟨saved, saves, same⟩ | found
          · exact ⟨previous, List.mem_cons_self, saved, saves, same⟩
          · obtain ⟨earlier, member, rest⟩ := induction before
              (fun other among => spared other (List.mem_cons_of_mem _ among)) found
            exact ⟨earlier, List.mem_cons_of_mem _ member, rest⟩

theorem Chronicle.earlier (chronicle : Chronicle layout (call :: calls)) :
    Chronicle layout calls := by
  cases chronicle with
  | first _ => exact .nil
  | next before _ => exact before

/-- A chronicle whose steps do not reach the checkpoint file is a history. -/
theorem Chronicle.history (chronicle : Chronicle layout calls)
    (spared : ∀ call ∈ calls, call.Spares layout) : History layout calls := by
  induction calls with
  | nil => exact .nil
  | cons call calls induction =>
      have sparedBefore : ∀ other ∈ calls, other.Spares layout :=
        fun other among => spared other (List.mem_cons_of_mem _ among)
      have before := induction chronicle.earlier sparedBefore
      cases read : call.session.workspace.readBytes layout.checkpoint with
      | error failure => exact .absent before fun bytes => by simp [read]
      | ok bytes =>
          obtain ⟨_, mode, standing⟩ := Workspace.readBytes_eq_ok_iff.mp read
          obtain ⟨earlier, member, saved, saves, same⟩ := chronicle.found sparedBefore standing
          refine .recorded before member saves ?_
          rw [Holds, ← same]
          exact read

/-- In a chronicle whose steps do not reach the checkpoint file, every checkpoint
that a call saves lists each step once, in one list, and lists only steps of the
plan whose digest it carries, no two plans having one digest. -/
theorem chronicle_checkpoints_orderly (chronicle : Chronicle layout calls)
    (spared : ∀ call ∈ calls, call.Spares layout) :
    ∀ call ∈ calls, ∀ saved, call.saved? layout = some saved →
      saved.lists.Orderly ∧
        (NoCollision layout calls → ∃ plan, call.Explains layout saved plan) := by
  have history := chronicle.history spared
  intro call member saved saves
  exact ⟨(history.distinct call member saved saves).orderly,
    fun apart => history.explains apart call member saved saves⟩

/-- A call on the project with a token, in which one file cannot be written. -/
def tokenCall (locked : Path) : Call := ⟨{ apply := true }, .absent, tokenProject locked⟩

theorem tokenCall_unsaved (locked : Path) :
    (tokenCall locked).session.workspace.get? smallLayout.checkpoint.place = none := rfl

theorem tokenCall_spares {locked : Path}
    (planned : (plannedSteps { apply := true } smallLayout (tokenProject locked)).map Step.file =
      [.text "f"]) (hidden : (tokenProject locked).temporaryName ∉ smallLayout.checkpoint.place) :
    (tokenCall locked).Spares smallLayout where
  fresh := (tokenProject_fresh locked (files_of_map planned)).1
  away := tokenProject_outOfReach (files_of_map planned) ⟨by decide, by decide, hidden⟩
  apart := by decide

theorem chronicle_checkpoints_orderly_token :
    ∃ saved, (tokenCall tokenFile).saved? smallLayout = some saved ∧
      Chronicle smallLayout [tokenCall tokenFile, tokenCall smallLayout.checkpoint] ∧
        saved.lists.Orderly ∧ ∃ plan, (tokenCall tokenFile).Explains smallLayout saved plan := by
  obtain ⟨task, started, report, after, prepared, returned, seen⟩ := observe_eq_some locked_observed
  simp only [StylingView.of, StylingView.mk.injEq] at seen
  obtain ⟨planned, statuses, _⟩ := seen
  rw [← (prepare_eq_ok prepared).1.plannedSteps_eq] at planned
  have absent : ∀ locked bytes mode,
      (tokenCall locked).session.workspace.get? smallLayout.checkpoint.place ≠
        some (.file bytes mode) := by
    intro locked bytes mode
    rw [tokenCall_unsaved]
    simp
  have chronicle : Chronicle smallLayout [tokenCall tokenFile, tokenCall smallLayout.checkpoint] :=
    .next (.first (absent _)) fun bytes mode standing => absurd standing (absent _ _ _)
  have spared : ∀ call ∈ [tokenCall tokenFile, tokenCall smallLayout.checkpoint],
      call.Spares smallLayout := by
    intro call member
    rcases List.mem_pair.mp member with rfl | rfl
    · exact tokenCall_spares planned (by decide)
    · exact tokenCall_spares unsavable_observed.1 (by decide)
  have apart : NoCollision smallLayout [tokenCall tokenFile, tokenCall smallLayout.checkpoint] := by
    intro first _ second _ plan other digest loads again _ _
    have same : ∀ call ∈ [tokenCall tokenFile, tokenCall smallLayout.checkpoint], ∀ plan,
        call.Loads smallLayout plan → (tokenCall tokenFile).Loads smallLayout plan := by
      intro call member plan loads
      rcases List.mem_pair.mp member with rfl | rfl
      · exact loads
      · exact loads
    rw [Plan.StoredAt.unique (same first ‹_› plan loads) (same second ‹_› other again)]
  obtain ⟨saved, saves⟩ : ∃ saved, (tokenCall tokenFile).saved? smallLayout = some saved := by
    obtain ⟨_, _, ⟨_, none, _⟩ | ⟨saved, saving, _⟩⟩ := run_progress rfl returned
    · rw [none] at statuses
      cases statuses
    · have reported : (tokenCall tokenFile).saved? smallLayout = report.checkpoint :=
        Call.saved?_of_ok returned
      exact ⟨saved, reported.trans saving.reported⟩
  obtain ⟨orderly, explains⟩ := chronicle_checkpoints_orderly chronicle spared _
    List.mem_cons_self saved saves
  exact ⟨saved, saves, chronicle, orderly, explains apart⟩

/-- The document of a plan whose step edits the checkpoint file, which it names
by another path. -/
def strayPlan : Json :=
  .object
    [("version", .integer 1),
      ("steps", .array
        [.object
          [("id", .text "b"), ("file", .text "/../c"), ("line", .integer 7), ("ruleId", .text ""),
            ("severity", .text "info"), ("confidence", .integer 1),
            ("action", .object
              [("type", .text "replace"), ("from", .text "b"), ("to", .text "c")])]])]

def strayLayout : Layout := ⟨⟨.root, ["a"]⟩, ⟨.root, ["c"]⟩, ⟨.root, ["s"]⟩⟩

def strayCheckpoint (skipped : String) : Checkpoint where
  planPath := .text "/a"
  planDigest := .text "sha256:7c1d39f6a18bdf07"
  skipped := [.text skipped]
  lastUpdated := .text "1970-01-01T00:00:00.000Z"

/-- A project with that plan, in which the checkpoint may not be saved. -/
def strayProject (checkpoint : Option Checkpoint) (answers : List String) (locked : Bool) :
    Session where
  workspace :=
    ⟨(["a"], .file (Text.encode (Json.compactText strayPlan)) 420) ::
      checkpoint.toList.map fun saved =>
        (["c"], .file (Text.encode (Json.linesText 0 saved.toJson)) 420)⟩
  project := ⟨.root, []⟩
  now := 0
  temporaryTag := "0"
  trouble := fun path =>
    if locked && path = strayLayout.checkpoint then some (.moving, { cause := .noSpace })
    else none
  answers

theorem strayProject_checkpoint (saved : Checkpoint) (answers : List String) (locked : Bool) :
    (strayProject (some saved) answers locked).workspace.get? strayLayout.checkpoint.place =
      some (.file (Text.encode (Json.linesText 0 saved.toJson)) 420) := rfl

theorem strayProject_plan (checkpoint : Option Checkpoint) (answers : List String)
    (locked : Bool) :
    (strayProject checkpoint answers locked).workspace.readBytes strayLayout.plan =
      .ok (Text.encode (Json.compactText strayPlan)) := rfl

/-- The step is declined. -/
def strayFirst : Call :=
  ⟨{ apply := true, interactive := true }, .absent, strayProject none ["n"] false⟩

/-- The step is applied, which makes another step of the one that is listed as
skipped, and then the checkpoint cannot be saved. -/
def straySecond : Call :=
  ⟨{ apply := true, backup := false }, .absent, strayProject (some (strayCheckpoint "b")) [] true⟩

/-- The run is resumed and ended at once. -/
def strayThird : Call :=
  ⟨{ apply := true, interactive := true, resume := true }, .absent,
    strayProject (some (strayCheckpoint "c")) ["q"] false⟩

theorem strayFirst_unsaved :
    strayFirst.session.workspace.get? strayLayout.checkpoint.place = none := rfl

/-- What that document is read as. -/
def strayRead : Plan where
  strategy := .balanced
  steps := [{
    id := .text "b", file := .text "/../c", line := 7, column := 0, ruleId := .text ""
    severity := .info, action := .replace (.text "b") (.text "c"), confidence := .ofInt 1
    preview := ⟨.text "", .text ""⟩ }]
  filters := {}
  summary := {}
  createdAt := .text ""
  version := planVersion

/-- What a call on a project with that plan prepares. -/
def strayTask (checkpoint : Option Checkpoint) : Task where
  planPath := strayLayout.plan
  plan := strayRead
  digest := "sha256:7c1d39f6a18bdf07"
  checkpoint
  steps := strayRead.steps

theorem strayRead_digest : strayRead.digest = .ok "sha256:7c1d39f6a18bdf07" :=
  eq_ok_of_toOption (by decide +kernel)

theorem strayRead_stored (checkpoint : Option Checkpoint) (answers : List String)
    (locked : Bool) :
    Plan.StoredAt (strayProject checkpoint answers locked).workspace strayLayout.plan strayRead := by
  have stored : Plan.StoredAt (strayProject none [] false).workspace strayLayout.plan strayRead :=
    Plan.storedAt_of_loaded? (by decide +kernel)
  exact stored.of_bytes ((strayProject_plan ..).trans (strayProject_plan ..).symm)

theorem stray_prepares {options : MigrationOptions} {found checkpoint : Option Checkpoint}
    {answers : List String} {locked : Bool}
    (plain : options.planPath = none ∧ selectionOf options checkpoint = {})
    (resumes : ResumesFrom options strayLayout (strayProject found answers locked).workspace
      (strayTask checkpoint).digest checkpoint)
    (resumed : options.resume = true → checkpoint.isSome) :
    prepare options strayLayout (strayProject found answers locked) =
      .ok (strayTask checkpoint)
        (strayRead.noted strayLayout.plan (strayProject found answers locked)) := by
  have scheduled : (selectionOf options checkpoint).filter strayRead.steps >>=
      Schedule.ofSteps = .ok ⟨strayRead.steps, [], none⟩ := by
    rw [plain.2]
    decide +kernel
  refine prepare_noted ⟨?_, strayRead_stored .., strayRead_digest, resumes,
    Schedules.of_ok scheduled rfl⟩ ?_ rfl resumed scheduled
  · rw [planPathOf, plain.1]
    rfl
  · rw [plain.1]
    exact nofun

theorem strayFirst_saves : strayFirst.saved? strayLayout = some (strayCheckpoint "b") := by
  have prepared : prepare strayFirst.options strayLayout strayFirst.session = .ok _ _ :=
    stray_prepares ⟨rfl, rfl⟩ rfl nofun
  rw [Call.saved?, run_of_prepared prepared]
  decide +kernel

theorem straySecond_leaves :
    leftUnwritten strayLayout.checkpoint
      (run straySecond.options strayLayout straySecond.index straySecond.session) =
        some (Text.encode (Json.linesText 0 (strayCheckpoint "c").toJson)) := by
  have prepared : prepare straySecond.options strayLayout straySecond.session = .ok _ _ :=
    stray_prepares ⟨rfl, rfl⟩ rfl nofun
  rw [run_of_prepared prepared]
  decide +kernel

theorem strayThird_saves :
    observe strayThird.options strayLayout strayThird.index strayThird.session
        (fun task report _ => (task.plan.steps.map (·.id), report.checkpoint.map (·.skipped))) =
      some ([.text "b"], some [.text "c"]) := by
  have listed : (strayCheckpoint "c").HasTidyLists := by
    simp [Checkpoint.HasTidyLists, strayCheckpoint, Json.IsTidy]
  have found : Checkpoint.storedAt strayThird.session.workspace strayLayout.checkpoint =
      .ok (some (strayCheckpoint "c")) :=
    Checkpoint.storedAt_of_bytes (Checkpoint.isTidy_toJson listed trivial trivial trivial)
      (by rw [Json.pretty, String.toList_ofList]; rfl)
  have resumes : ResumesFrom strayThird.options strayLayout strayThird.session.workspace
      (strayTask (some (strayCheckpoint "c"))).digest (some (strayCheckpoint "c")) := by
    refine ⟨found, ?_⟩
    rintro _ ⟨⟩
    rfl
  have prepared : prepare strayThird.options strayLayout strayThird.session = .ok _ _ :=
    stray_prepares ⟨rfl, rfl⟩ resumes fun _ => rfl
  rw [observe_of_prepared prepared]
  decide +kernel

theorem Call.leaves_of_saved (saves : call.saved? layout = some saved) :
    Holds layout (call.leaves layout) saved := by
  unfold Call.saved? at saves
  unfold Call.leaves
  cases outcome : run call.options layout call.index call.session with
  | error failure after =>
      rw [outcome] at saves
      cases saves
  | ok report after =>
      rw [outcome] at saves
      obtain ⟨task, _, ⟨_, _, none, _⟩ | ⟨found, saving, _⟩⟩ :=
        run_progress (applying_of_saved outcome saves) outcome
      · cases none.symm.trans saves
      · obtain rfl := Option.some.inj (saving.reported.symm.trans saves)
        exact saving.bytes

theorem Chronicle.next_of_bytes {bytes : List UInt8} {mode : Nat}
    (earlier : Chronicle layout (previous :: calls))
    (standing : call.session.workspace.get? layout.checkpoint.place = some (.file bytes mode))
    (left : (previous.leaves layout).readBytes layout.checkpoint = .ok bytes) :
    Chronicle layout (call :: previous :: calls) := by
  refine .next earlier fun found other same => ?_
  obtain ⟨_, mode, stands⟩ := Workspace.readBytes_eq_ok_iff.mp left
  rw [standing] at same
  exact ⟨mode, (Entry.file.inj (Option.some.inj same)).1 ▸ stands⟩

theorem stray_chronicle : Chronicle strayLayout [strayThird, straySecond, strayFirst] := by
  have first : Chronicle strayLayout [strayFirst] := by
    refine .first fun bytes mode => ?_
    rw [strayFirst_unsaved]
    exact nofun
  have second : Chronicle strayLayout [straySecond, strayFirst] := by
    refine first.next_of_bytes (strayProject_checkpoint ..) ?_
    have left := Call.leaves_of_saved strayFirst_saves
    unfold Holds at left
    rw [Json.pretty, String.toList_ofList] at left
    exact left
  refine second.next_of_bytes (strayProject_checkpoint ..) ?_
  obtain ⟨cause, after, stopped, bytes⟩ := leftUnwritten_eq_some straySecond_leaves
  rw [Call.leaves_of_error stopped]
  exact bytes

theorem stray_noCollision : NoCollision strayLayout [strayThird, straySecond, strayFirst] := by
  have same : ∀ call ∈ [strayThird, straySecond, strayFirst], ∀ plan,
      call.Loads strayLayout plan →
        Plan.StoredAt (strayProject none [] false).workspace strayLayout.plan plan := by
    intro call member plan loads
    simp only [List.mem_cons, List.not_mem_nil, or_false] at member
    rcases member with rfl | rfl | rfl
    · exact Plan.StoredAt.of_bytes ((strayProject_plan ..).trans (strayProject_plan ..).symm) loads
    · exact Plan.StoredAt.of_bytes ((strayProject_plan ..).trans (strayProject_plan ..).symm) loads
    · exact Plan.StoredAt.of_bytes ((strayProject_plan ..).trans (strayProject_plan ..).symm) loads
  intro first member second another plan other digest loads again _ _
  rw [Plan.StoredAt.unique (same first member plan loads) (same second another other again)]

/-- A step that edits the checkpoint file can bring an identifier into it that is
no step's, and a later run saves it. -/
theorem stray_checkpoint_unexplained :
    ∃ saved, Chronicle strayLayout [strayThird, straySecond, strayFirst] ∧
      NoCollision strayLayout [strayThird, straySecond, strayFirst] ∧
        strayThird.saved? strayLayout = some saved ∧
          ¬ ∃ plan, strayThird.Explains strayLayout saved plan := by
  obtain ⟨task, started, report, after, prepared, returned, seen⟩ := observe_eq_some strayThird_saves
  simp only [Prod.mk.injEq] at seen
  obtain ⟨ids, skipped⟩ := seen
  obtain ⟨saved, reported, listed⟩ := Option.map_eq_some_iff.mp skipped
  have saves : strayThird.saved? strayLayout = some saved :=
    (Call.saved?_of_ok returned).trans reported
  refine ⟨saved, stray_chronicle, stray_noCollision, saves, ?_⟩
  rintro ⟨plan, explains⟩
  have known := (prepare_eq_ok prepared).1
  have loads := known.plan
  rw [known.planPath] at loads
  obtain rfl := Plan.StoredAt.unique explains.loads loads
  have among : Json.text "c" ∈ saved.lists.all := by
    simp [Lists.all, Checkpoint.lists, listed]
  obtain ⟨step, member, same⟩ := explains.ids _ among
  have identified := List.mem_map_of_mem (f := (·.id)) member
  rw [ids, same] at identified
  exact absurd identified (by decide)

end Migration

end Restyle
