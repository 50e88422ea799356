import Restyle.Migration
import Restyle.Proofs.Activity.Writing

/-!
# Executing steps

What the loop of a run can do with one step is said once, by `Processed`: the
step is skipped, or it fails because its file cannot be read or its target is
not found, or it edits the buffer of its file.  `Executes` strings such steps
together, and every execution that ends is one of them.
-/

namespace Restyle

/-- The path under which a run keeps the file of a step.  A file that is no
text, or that holds the null character, has none. -/
def fileKey? (project : Path) : Json → Option Path
  | .text file =>
      if (Path.ofString file).hasNull then none
      else some (project.resolve (Path.ofString file))
  | _ => none

namespace Migration

variable {state opened kept next final : RunState} {session middle after last : Session}
  {step : Step} {steps : List Step} {backup ask : Bool}

theorem place_eq_ok {path found : Path} :
    place path session = .ok found after ↔
      path.hasNull = false ∧ found = session.project.resolve path ∧ session = after := by
  unfold place
  rw [Activity.bind_eq_ok]
  constructor
  · rintro ⟨_, _, allowed, rest⟩
    obtain ⟨clean, rfl⟩ := Activity.requirePath_eq_ok.mp allowed
    rw [Activity.get_bind, Activity.pure_eq_ok] at rest
    exact ⟨clean, rest.1.symm, rest.2⟩
  · rintro ⟨clean, rfl, rfl⟩
    exact ⟨(), session, Activity.requirePath_eq_ok.mpr ⟨clean, rfl⟩, rfl⟩

theorem pathOf_eq_ok {file : Json} {path : Path} :
    pathOf file session = .ok path after ↔
      fileKey? session.project file = some path ∧ session = after := by
  unfold pathOf
  rw [Activity.bind_eq_ok]
  constructor
  · rintro ⟨text, _, read, placed⟩
    obtain ⟨known, rfl⟩ := Activity.value_eq_ok.mp read
    obtain ⟨clean, rfl, rfl⟩ := place_eq_ok.mp placed
    cases file with
    | text name =>
        cases known
        simp [fileKey?, clean]
    | _ => cases known
  · rintro ⟨known, rfl⟩
    cases file with
    | text name =>
        simp only [fileKey?] at known
        split at known
        · cases known
        · rename_i clean
          cases known
          exact ⟨name, session, Activity.value_eq_ok.mpr ⟨rfl, rfl⟩,
            place_eq_ok.mpr ⟨by simpa using clean, rfl, rfl⟩⟩
    | _ => cases known

/-- Why a step fails whose file cannot be read. -/
def readReason (step : Step) (failure : ReadFailure) : String :=
  if failure.isMissing then "File not found: " ++ step.file.shown
  else "Could not read " ++ step.file.shown ++ ": " ++ failure.message

/-- A state with a buffer for a path, and the content of that buffer: the one
that was there, or one read from the file. -/
inductive Opens (workspace : Workspace) (path : Path) : RunState → RunState → List Char → Prop where
  | known {state : RunState} {buffer : Buffer} (found : state.buffer? path = some buffer) :
      Opens workspace path state state buffer.content
  | loaded {state : RunState} {text : String} (absent : state.buffer? path = none)
      (clean : path.hasNull = false) (read : workspace.readText path = .ok text) :
      Opens workspace path state
        { state with buffers := state.buffers ++ [⟨path, text.toList, text.toList⟩] } text.toList

def afterEdit (kept : RunState) (step : Step) (path : Path) (edit : Edit) : RunState :=
  ((kept.setContent path edit.content).keepSideEffect edit.sideEffect).record step .applied none
    (some ⟨edit.removed, edit.added⟩)

/-- Everything that can become of a step. -/
inductive Processed (backup : Bool) (step : Step) :
    RunState → Session → RunState → Session → Prop where
  | blocked {state : RunState} {session after : Session} (dependency : state.isBlocked step = true)
      (quiet : session.Quiet after) :
      Processed backup step state session
        (state.record step .skipped (some dependencyFailed) none) after
  | declined {state : RunState} {session after : Session} (free : state.isBlocked step = false)
      (quiet : session.Quiet after) :
      Processed backup step state session (state.record step .skipped none none) after
  | unreadable {state : RunState} {session after : Session} {path : Path}
      {failure : ReadFailure} (free : state.isBlocked step = false)
      (key : fileKey? session.project step.file = some path) (clean : path.hasNull = false)
      (absent : state.buffer? path = none)
      (unread : session.workspace.readText path = .error failure) (quiet : session.Quiet after) :
      Processed backup step state session (state.fail step (readReason step failure)) after
  | unlocated {state opened : RunState} {session after : Session} {path : Path}
      {content : List Char} (free : state.isBlocked step = false)
      (key : fileKey? session.project step.file = some path)
      (buffered : Opens session.workspace path state opened content)
      (missed : step.edit content = .ok none) (quiet : session.Quiet after) :
      Processed backup step state session
        (opened.fail step ("Could not locate target at line " ++ toString step.line)) after
  | edited {state opened kept : RunState} {session ready middle after : Session} {path : Path}
      {content : List Char} {edit : Edit} (free : state.isBlocked step = false)
      (key : fileKey? session.project step.file = some path)
      (buffered : Opens session.workspace path state opened content)
      (made : step.edit content = .ok (some edit)) (before : session.Quiet ready)
      (copied : (if backup then backUp opened path else pure opened) ready = .ok kept middle)
      (quiet : middle.Quiet after) :
      Processed backup step state session (afterEdit kept step path edit) after

theorem backUp_eq_ok {path : Path} (copied : backUp opened path session = .ok kept middle) :
    (path ∈ opened.backedUp ∧ kept = opened ∧ middle = session) ∨
      kept = { opened with backedUp := opened.backedUp ++ [path] } ∧
        ∃ outcome written,
          Activity.copyFile path (path.withSuffix ".bak") session = .ok outcome written ∧
            written.Quiet middle := by
  unfold backUp at copied
  cases already : opened.backedUp.contains path with
  | true =>
      rw [already] at copied
      obtain ⟨rfl, rfl⟩ := Activity.pure_eq_ok.mp copied
      exact Or.inl ⟨List.contains_iff_mem.mp already, rfl, rfl⟩
  | false =>
      rw [already] at copied
      obtain ⟨outcome, written, stored, rest⟩ := Activity.bind_eq_ok.mp copied
      refine Or.inr ?_
      cases outcome with
      | ok done =>
          obtain ⟨rfl, rfl⟩ := Activity.pure_eq_ok.mp rest
          exact ⟨rfl, _, written, stored, .refl _⟩
      | error error =>
          obtain ⟨_, noted, logged, rest⟩ := Activity.bind_eq_ok.mp rest
          obtain ⟨rfl, rfl⟩ := Activity.pure_eq_ok.mp rest
          exact ⟨rfl, _, written, stored, Activity.log_quiet logged⟩

/-- Before its first edit a file is copied, which touches the place of the copy
only and is noted in the state. -/
theorem backUp_outcome (made : Place → Prop) {path : Path}
    (copied : (if backup then backUp opened path else pure opened) session = .ok kept middle) :
    (∃ backedUp, kept = { opened with backedUp }) ∧ session.SameSetting middle ∧
      Workspace.Evolves (· = (path.withSuffix ".bak").place) made
        session.workspace middle.workspace := by
  cases backup with
  | false =>
      obtain ⟨rfl, rfl⟩ := Activity.pure_eq_ok.mp copied
      exact ⟨⟨_, rfl⟩, .refl _, .refl _ _ _⟩
  | true =>
      rw [if_pos rfl] at copied
      rcases backUp_eq_ok copied with ⟨_, rfl, rfl⟩ | ⟨rfl, outcome, written, stored, quiet⟩
      · exact ⟨⟨_, rfl⟩, .refl _, .refl _ _ _⟩
      · obtain ⟨setting, evolved⟩ := Activity.copyFile_ok stored
        exact ⟨⟨_, rfl⟩, setting.trans quiet.toSameSetting, quiet.workspace ▸ evolved⟩

/-- Opening a buffer gives the reason why the file cannot be read, or a state
with the buffer. -/
theorem openBuffer_cases {path : Path} {outcome : Except String (RunState × List Char)}
    (success : openBuffer state step path session = .ok outcome after) :
    session.Quiet after ∧
      ((∃ failure, outcome = .error (readReason step failure) ∧ path.hasNull = false ∧
          state.buffer? path = none ∧ session.workspace.readText path = .error failure) ∨
        ∃ opened content, outcome = .ok (opened, content) ∧
          Opens session.workspace path state opened content) := by
  unfold openBuffer at success
  cases found : state.buffer? path with
  | some buffer =>
      simp only [found, Activity.pure_eq_ok] at success
      obtain ⟨rfl, rfl⟩ := success
      exact ⟨.refl _, Or.inr ⟨state, buffer.content, rfl, .known found⟩⟩
  | none =>
      simp only [found] at success
      obtain ⟨read, _, reading, rest⟩ := Activity.bind_eq_ok.mp success
      obtain ⟨clean, result, rfl⟩ := Activity.readText_eq_ok.mp reading
      cases read with
      | error failure =>
          refine ⟨?_, Or.inl ⟨failure, ?_, clean, rfl, result.symm⟩⟩
          · cases missing : failure.isMissing with
            | true =>
                simp only [missing, if_true, Activity.pure_eq_ok] at rest
                exact rest.2 ▸ .refl _
            | false =>
                simp only [missing, Bool.false_eq_true, if_false, Activity.pure_eq_ok] at rest
                exact rest.2 ▸ .refl _
          · unfold readReason
            cases missing : failure.isMissing with
            | true =>
                simp only [missing, if_true, Activity.pure_eq_ok] at rest
                exact rest.1.symm
            | false =>
                simp only [missing, Bool.false_eq_true, if_false, Activity.pure_eq_ok] at rest
                exact rest.1.symm
      | ok text =>
          obtain ⟨_, noted, logged, rest⟩ := Activity.bind_eq_ok.mp rest
          obtain ⟨rfl, rfl⟩ := Activity.pure_eq_ok.mp rest
          exact ⟨Activity.log_quiet logged, Or.inr ⟨_, _, rfl, .loaded found clean result.symm⟩⟩

theorem editing_eq_ok {path : Path} {edit : Edit}
    (success : (do
      let kept ← if backup then backUp opened path else pure opened
      Activity.log .debug .running ("Applied " ++ step.id.shown ++ " to " ++ step.file.shown)
      return afterEdit kept step path edit) session = .ok next after) :
    ∃ kept middle, (if backup then backUp opened path else pure opened) session = .ok kept middle ∧
      middle.Quiet after ∧ next = afterEdit kept step path edit := by
  have parts : ∃ kept middle,
      (if backup then backUp opened path else pure opened) session = .ok kept middle ∧
        (do
          Activity.log .debug .running ("Applied " ++ step.id.shown ++ " to " ++ step.file.shown)
          return afterEdit kept step path edit) middle = .ok next after := by
    cases backup with
    | true => exact Activity.bind_eq_ok.mp success
    | false => exact Activity.bind_eq_ok.mp success
  obtain ⟨kept, middle, copied, rest⟩ := parts
  obtain ⟨_, noted, logged, rest⟩ := Activity.bind_eq_ok.mp rest
  obtain ⟨rfl, rfl⟩ := Activity.pure_eq_ok.mp rest
  exact ⟨kept, middle, copied, Activity.log_quiet logged, rfl⟩

theorem editing_of_kept (step : Step) {path : Path} (edit : Edit) {kept : RunState}
    (copied : (if backup then backUp opened path else pure opened) session = .ok kept middle) :
    ∃ after, (do
      let kept ← if backup then backUp opened path else pure opened
      Activity.log .debug .running ("Applied " ++ step.id.shown ++ " to " ++ step.file.shown)
      return afterEdit kept step path edit) session = .ok (afterEdit kept step path edit) after ∧
        middle.Quiet after := by
  have noted : ∀ message, ∃ after, (do
      Activity.log .debug .running message
      return afterEdit kept step path edit) middle = .ok (afterEdit kept step path edit) after ∧
        middle.Quiet after := by
    intro message
    rw [Activity.bind_of_ok (Activity.log_apply ..)]
    exact ⟨_, rfl, Activity.log_quiet (Activity.log_apply ..)⟩
  cases backup with
  | true =>
      rw [if_pos rfl] at copied ⊢
      rw [Activity.bind_of_ok copied]
      exact noted _
  | false =>
      rw [if_neg Bool.false_ne_true] at copied ⊢
      rw [Activity.bind_of_ok copied]
      exact noted _

theorem applyStep_processed (free : state.isBlocked step = false)
    (success : applyStep backup state step session = .ok next after) :
    Processed backup step state session next after := by
  unfold applyStep at success
  obtain ⟨path, _, placed, rest⟩ := Activity.bind_eq_ok.mp success
  obtain ⟨key, rfl⟩ := pathOf_eq_ok.mp placed
  obtain ⟨outcome, ready, opening, rest⟩ := Activity.bind_eq_ok.mp rest
  obtain ⟨quiet, failed | buffered⟩ := openBuffer_cases opening
  · obtain ⟨failure, rfl, clean, absent, unread⟩ := failed
    obtain ⟨rfl, rfl⟩ := Activity.pure_eq_ok.mp rest
    exact .unreadable free key clean absent unread quiet
  · obtain ⟨opened, content, rfl, buffered⟩ := buffered
    obtain ⟨edit, _, edited, rest⟩ := Activity.bind_eq_ok.mp rest
    obtain ⟨made, rfl⟩ := Activity.value_eq_ok.mp edited
    cases edit with
    | none =>
        obtain ⟨rfl, rfl⟩ := Activity.pure_eq_ok.mp rest
        exact .unlocated free key buffered made quiet
    | some edit =>
        obtain ⟨kept, middle, copied, logged, rfl⟩ := editing_eq_ok rest
        exact .edited free key buffered made quiet copied logged

/-- Steps processed one after the other. -/
inductive Executes (backup : Bool) : RunState → Session → List Step → RunState → Session → Prop where
  | nil {state : RunState} {session after : Session} (quiet : session.Quiet after) :
      Executes backup state session [] state after
  | cons {state next final : RunState} {session middle last : Session} {step : Step}
      {steps : List Step} (first : Processed backup step state session next middle)
      (later : Executes backup next middle steps final last) :
      Executes backup state session (step :: steps) final last

theorem Processed.of_quiet {ready : Session} (quiet : session.Quiet ready)
    (processed : Processed backup step state ready next after) :
    Processed backup step state session next after := by
  cases processed with
  | blocked dependency rest => exact .blocked dependency (quiet.trans rest)
  | declined free rest => exact .declined free (quiet.trans rest)
  | unreadable free key clean absent unread rest =>
      exact .unreadable free (quiet.project ▸ key) clean absent (quiet.workspace ▸ unread)
        (quiet.trans rest)
  | unlocated free key buffered missed rest =>
      exact .unlocated free (quiet.project ▸ key) (quiet.workspace ▸ buffered) missed
        (quiet.trans rest)
  | edited free key buffered made before copied rest =>
      exact .edited free (quiet.project ▸ key) (quiet.workspace ▸ buffered) made
        (quiet.trans before) copied rest

theorem Processed.sameSetting (processed : Processed backup step state session next after) :
    session.SameSetting after := by
  cases processed with
  | blocked _ quiet => exact quiet.toSameSetting
  | declined _ quiet => exact quiet.toSameSetting
  | unreadable _ _ _ _ _ quiet => exact quiet.toSameSetting
  | unlocated _ _ _ _ quiet => exact quiet.toSameSetting
  | edited _ _ _ _ before copied quiet =>
      obtain ⟨_, setting, _⟩ := backUp_outcome (fun _ => False) copied
      exact (before.toSameSetting.trans setting).trans quiet.toSameSetting

/-- A processed step touches at most the place of the backup of its file. -/
theorem Processed.evolves {made : Place → Prop}
    (processed : Processed backup step state session next after) :
    Workspace.Evolves
      (fun place => ∃ key, fileKey? session.project step.file = some key ∧
        place = (key.withSuffix ".bak").place)
      made session.workspace after.workspace := by
  cases processed with
  | blocked _ quiet => exact quiet.workspace ▸ .refl _ _ _
  | declined _ quiet => exact quiet.workspace ▸ .refl _ _ _
  | unreadable _ _ _ _ _ quiet => exact quiet.workspace ▸ .refl _ _ _
  | unlocated _ _ _ _ quiet => exact quiet.workspace ▸ .refl _ _ _
  | edited _ known _ _ before copied quiet =>
      obtain ⟨_, _, evolved⟩ := backUp_outcome made copied
      rw [quiet.workspace, ← before.workspace]
      exact evolved.touching fun place here => ⟨_, known, here⟩

theorem Executes.sameSetting (executed : Executes backup state session steps final last) :
    session.SameSetting last := by
  induction executed with
  | nil quiet => exact quiet.toSameSetting
  | cons first _ induction => exact first.sameSetting.trans induction

def IsBackupPlace (project : Path) (steps : List Step) (place : Place) : Prop :=
  ∃ step ∈ steps, ∃ key, fileKey? project step.file = some key ∧
    place = (key.withSuffix ".bak").place

theorem Executes.evolves (made : Place → Prop)
    (executed : Executes backup state session steps final last) :
    Workspace.Evolves (IsBackupPlace session.project steps) made
      session.workspace last.workspace := by
  induction executed with
  | nil quiet => exact quiet.workspace ▸ .refl _ _ _
  | cons first _ induction =>
      rw [first.sameSetting.project] at induction
      refine (first.evolves.touching ?_).trans (induction.touching ?_)
      · rintro place ⟨key, known, here⟩
        exact ⟨_, List.mem_cons_self, key, known, here⟩
      · rintro place ⟨step, member, key, known, here⟩
        exact ⟨step, List.mem_cons_of_mem _ member, key, known, here⟩

theorem confirm_quiet {decision : Decision} (success : confirm step session = .ok decision after) :
    session.Quiet after := by
  unfold confirm at success
  obtain ⟨panel, _, shown, rest⟩ := Activity.bind_eq_ok.mp success
  obtain ⟨_, rfl⟩ := Activity.value_eq_ok.mp shown
  obtain ⟨_, displayed, display, rest⟩ := Activity.bind_eq_ok.mp rest
  obtain ⟨answer, answered, asked, rest⟩ := Activity.bind_eq_ok.mp rest
  obtain ⟨_, rfl⟩ := Activity.pure_eq_ok.mp rest
  exact (Activity.display_quiet display).trans (Activity.nextAnswer_quiet asked)

end Migration

end Restyle
