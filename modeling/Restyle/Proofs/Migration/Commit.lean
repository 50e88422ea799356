import Restyle.Proofs.Activity.Acceptance
import Restyle.Proofs.Migration.Tracking

/-!
# Writing out what was edited

After the steps the changed buffers are written one by one.  `Commits` says what
can become of each: it is not changed, it is stored, or it is refused, and then
the applied results of its file become failures.  Which of the last two happens
to a file does not hang on the other files.
-/

namespace Restyle

/-- Whether a result is an applied one of a file. -/
def StepResult.IsAppliedAt (project path : Path) (result : StepResult) : Prop :=
  result.status = .applied ∧ fileKey? project result.file = some path

instance (project path : Path) (result : StepResult) :
    Decidable (result.IsAppliedAt project path) :=
  inferInstanceAs (Decidable (_ ∧ _))

/-- A result after the write of a file was refused: a failure if it was an
applied one of the file. -/
def StepResult.refuse (project path : Path) (error : String) (result : StepResult) : StepResult :=
  if result.IsAppliedAt project path then { result with status := .failed, error := some error }
  else result

namespace RunState

/-- Marks the applied results of a file as failed. -/
def markRefused (project path : Path) (state : RunState) (results : List StepResult) : RunState :=
  results.foldl
    (fun current result =>
      if result.IsAppliedAt project path then current.mark result.stepId .failed else current)
    state

/-- The state after the write of a file was refused. -/
def refuse (project path : Path) (error : String) (state : RunState) : RunState :=
  { state.markRefused project path state.results with
    results := state.results.map (StepResult.refuse project path error) }

end RunState

namespace Migration

variable {state next final : RunState} {session after last : Session} {path : Path}
  {error : String} {buffers : List Buffer} {written : List Path}
  {refused : List (Path × String)}

theorem isAppliedAt_eq_ok {result : StepResult} {found : Bool}
    (success : isAppliedAt path result session = .ok found after) :
    found = decide (result.IsAppliedAt session.project path) ∧ session = after := by
  unfold isAppliedAt at success
  split at success
  · rename_i applied
    obtain ⟨key, _, placed, rest⟩ := Activity.bind_eq_ok.mp success
    obtain ⟨known, rfl⟩ := pathOf_eq_ok.mp placed
    obtain ⟨rfl, rfl⟩ := Activity.pure_eq_ok.mp rest
    exact ⟨by simp [StepResult.IsAppliedAt, applied, known], rfl⟩
  · rename_i other
    obtain ⟨rfl, rfl⟩ := Activity.pure_eq_ok.mp success
    exact ⟨by simp [StepResult.IsAppliedAt, other], rfl⟩

theorem failResults_eq_ok {results later : List StepResult}
    (success : failResults path error state results session = .ok (next, later) after) :
    next = state.markRefused session.project path results ∧
      later = results.map (StepResult.refuse session.project path error) ∧ session = after := by
  induction results generalizing state later next after with
  | nil =>
      unfold failResults at success
      obtain ⟨same, rfl⟩ := Activity.pure_eq_ok.mp success
      cases same
      exact ⟨rfl, rfl, rfl⟩
  | cons result results induction =>
      unfold failResults at success
      obtain ⟨found, _, asked, rest⟩ := Activity.bind_eq_ok.mp success
      obtain ⟨decided, rfl⟩ := isAppliedAt_eq_ok asked
      by_cases concerned : result.IsAppliedAt session.project path
      · rw [decided, if_pos (by simp [concerned])] at rest
        obtain ⟨⟨marked, others⟩, _, recursive, rest⟩ := Activity.bind_eq_ok.mp rest
        obtain ⟨rfl, rfl, rfl⟩ := induction recursive
        obtain ⟨same, rfl⟩ := Activity.pure_eq_ok.mp rest
        cases same
        refine ⟨?_, ?_, rfl⟩
        · simp only [RunState.markRefused, List.foldl_cons, if_pos concerned]
        · simp only [List.map_cons, StepResult.refuse, if_pos concerned]
      · rw [decided, if_neg (by simp [concerned])] at rest
        obtain ⟨⟨marked, others⟩, _, recursive, rest⟩ := Activity.bind_eq_ok.mp rest
        obtain ⟨rfl, rfl, rfl⟩ := induction recursive
        obtain ⟨same, rfl⟩ := Activity.pure_eq_ok.mp rest
        cases same
        refine ⟨?_, ?_, rfl⟩
        · simp only [RunState.markRefused, List.foldl_cons, if_neg concerned]
        · simp only [List.map_cons, StepResult.refuse, if_neg concerned]

/-- Everything that can become of changed buffers, with the files that were
written and those that were refused, each with the reason. -/
inductive Commits : RunState → Session → List Buffer → RunState → Session → List Path →
    List (Path × String) → Prop where
  | nil {state : RunState} {session : Session} : Commits state session [] state session [] []
  | unchanged {state final : RunState} {session last : Session} {buffer : Buffer}
      {buffers : List Buffer} {written : List Path} {refused : List (Path × String)}
      (same : buffer.content = buffer.loaded)
      (later : Commits state session buffers final last written refused) :
      Commits state session (buffer :: buffers) final last written refused
  | stored {state final : RunState} {session wrote ready last : Session} {buffer : Buffer}
      {buffers : List Buffer} {written : List Path} {refused : List (Path × String)}
      (changed : buffer.content ≠ buffer.loaded)
      (success : Activity.writeFile buffer.path (String.ofList buffer.content) session =
        .ok () wrote)
      (quiet : wrote.Quiet ready)
      (later : Commits state ready buffers final last written refused) :
      Commits state session (buffer :: buffers) final last (buffer.path :: written) refused
  | refused {state final : RunState} {session stopped ready last : Session} {buffer : Buffer}
      {buffers : List Buffer} {written : List Path} {refused : List (Path × String)}
      {failure : Failure} {error : String} (changed : buffer.content ≠ buffer.loaded)
      (stop : Activity.writeFile buffer.path (String.ofList buffer.content) session =
        .error failure stopped)
      (quiet : stopped.Quiet ready)
      (later : Commits (state.refuse session.project buffer.path error) ready buffers final last
        written refused) :
      Commits state session (buffer :: buffers) final last written
        ((buffer.path, error) :: refused)

theorem commit_commits {before files : List Path}
    (success : commit state before buffers session = .ok (final, files) last) :
    ∃ written refused, files = before ++ written ∧
      Commits state session buffers final last written refused := by
  induction buffers generalizing state session before with
  | nil =>
      unfold commit at success
      obtain ⟨same, rfl⟩ := Activity.pure_eq_ok.mp success
      cases same
      exact ⟨[], [], by simp, .nil⟩
  | cons buffer buffers induction =>
      unfold commit at success
      by_cases same : buffer.content = buffer.loaded
      · rw [if_pos same] at success
        obtain ⟨written, refused, whole, later⟩ := induction success
        exact ⟨written, refused, whole, .unchanged same later⟩
      · rw [if_neg same] at success
        obtain ⟨outcome, tried, attempted, rest⟩ := Activity.bind_eq_ok.mp success
        obtain ⟨_, rfl, wrote⟩ | ⟨failure, rfl, stop⟩ := Activity.attempt_eq_ok.mp attempted
        · obtain ⟨_, noted, logged, rest⟩ := Activity.bind_eq_ok.mp rest
          obtain ⟨written, refused, whole, later⟩ := induction rest
          refine ⟨buffer.path :: written, refused, by simp [whole], ?_⟩
          exact .stored same wrote (Activity.log_quiet logged) later
        · cases failure with
          | write cause =>
              obtain ⟨_, noted, logged, rest⟩ := Activity.bind_eq_ok.mp rest
              have quiet := Activity.log_quiet logged
              obtain ⟨⟨marked, results⟩, _, failed, rest⟩ := Activity.bind_eq_ok.mp rest
              obtain ⟨rfl, rfl, rfl⟩ := failResults_eq_ok failed
              obtain ⟨written, refused, whole, later⟩ := induction rest
              rw [quiet.project, (Activity.writeFile_error stop).1.project] at later
              exact ⟨written, _, whole, .refused same stop quiet later⟩
          | _ => cases rest

theorem Commits.sameSetting
    (committed : Commits state session buffers final last written refused) :
    session.SameSetting last := by
  induction committed with
  | nil => exact .refl _
  | unchanged _ _ induction => exact induction
  | stored _ success quiet _ induction =>
      exact ((Activity.writeFile_ok success).1.trans quiet.toSameSetting).trans induction
  | refused _ stop quiet _ induction =>
      exact ((Activity.writeFile_error stop).1.trans quiet.toSameSetting).trans induction

/-- Writing touches the places of the files and of their temporary files, and
makes directories above the files at most. -/
theorem Commits.evolves (committed : Commits state session buffers final last written refused) :
    Workspace.Evolves
      (fun place => ∃ buffer ∈ buffers,
        place = (Activity.temporaryFor session buffer.path).place ∨ place = buffer.path.place)
      (fun place => ∃ buffer ∈ buffers, buffer.path.parent.Passes place)
      session.workspace last.workspace := by
  induction committed with
  | nil => exact .refl _ _ _
  | unchanged _ _ induction =>
      refine induction.mono ?_ ?_
      · rintro place ⟨buffer, member, touched⟩
        exact ⟨buffer, List.mem_cons_of_mem _ member, touched⟩
      · rintro place ⟨buffer, member, passes⟩
        exact ⟨buffer, List.mem_cons_of_mem _ member, passes⟩
  | stored _ success quiet _ induction =>
      obtain ⟨setting, evolved, _⟩ := Activity.writeFile_ok success
      rw [quiet.workspace] at induction
      refine (evolved.mono ?_ ?_).trans (induction.mono ?_ ?_)
      · rintro place touched
        exact ⟨_, List.mem_cons_self, touched⟩
      · rintro place passes
        exact ⟨_, List.mem_cons_self, passes⟩
      · rintro place ⟨buffer, member, touched⟩
        rw [(setting.trans quiet.toSameSetting).temporaryFor] at touched
        exact ⟨buffer, List.mem_cons_of_mem _ member, touched⟩
      · rintro place ⟨buffer, member, passes⟩
        exact ⟨buffer, List.mem_cons_of_mem _ member, passes⟩
  | refused _ stop quiet _ induction =>
      obtain ⟨setting, evolved⟩ := Activity.writeFile_error stop
      rw [quiet.workspace] at induction
      refine (evolved.mono ?_ ?_).trans (induction.mono ?_ ?_)
      · rintro place touched
        exact ⟨_, List.mem_cons_self, Or.inl touched⟩
      · rintro place passes
        exact ⟨_, List.mem_cons_self, passes⟩
      · rintro place ⟨buffer, member, touched⟩
        rw [(setting.trans quiet.toSameSetting).temporaryFor] at touched
        exact ⟨buffer, List.mem_cons_of_mem _ member, touched⟩
      · rintro place ⟨buffer, member, passes⟩
        exact ⟨buffer, List.mem_cons_of_mem _ member, passes⟩

theorem Commits.refused_buffers
    (committed : Commits state session buffers final last written refused) :
    ∀ entry ∈ refused, entry.1 ∈ buffers.map Buffer.path := by
  induction committed with
  | nil => simp
  | unchanged _ _ induction =>
      intro entry member
      exact List.mem_cons_of_mem _ (induction entry member)
  | stored _ _ _ _ induction =>
      intro entry member
      exact List.mem_cons_of_mem _ (induction entry member)
  | refused _ _ _ _ induction =>
      intro entry member
      rcases List.mem_cons.mp member with rfl | later
      · exact List.mem_cons_self
      · exact List.mem_cons_of_mem _ (induction entry later)

/-- A result after the writes of files were refused. -/
def refuseAll (project : Path) (refused : List (Path × String)) (result : StepResult) :
    StepResult :=
  refused.foldl (fun current entry => current.refuse project entry.1 entry.2) result

theorem Commits.results (committed : Commits state session buffers final last written refused) :
    final.results = state.results.map (refuseAll session.project refused) := by
  induction committed with
  | nil => exact (List.map_id _).symm
  | unchanged _ _ induction => exact induction
  | stored _ success quiet _ induction =>
      rw [quiet.project, (Activity.writeFile_ok success).1.project] at induction
      exact induction
  | refused _ stop quiet _ induction =>
      rw [quiet.project, (Activity.writeFile_error stop).1.project] at induction
      rw [induction, RunState.refuse, List.map_map]
      rfl

theorem refuse_subject (project path : Path) (error : String) (result : StepResult) :
    (result.refuse project path error).subject = result.subject := by
  unfold StepResult.refuse
  split <;> rfl

theorem refuseAll_subject (project : Path) (refused : List (Path × String))
    (result : StepResult) : (refuseAll project refused result).subject = result.subject := by
  induction refused generalizing result with
  | nil => rfl
  | cons entry refused induction =>
      exact (induction (result.refuse project entry.1 entry.2)).trans
        (refuse_subject project entry.1 entry.2 result)

theorem subjects_refuseAll (project : Path) (refused : List (Path × String))
    (results : List StepResult) :
    (results.map (refuseAll project refused)).map StepResult.subject =
      results.map StepResult.subject := by
  rw [List.map_map]
  exact List.map_congr_left fun result _ => refuseAll_subject project refused result

theorem refuseAll_file (project : Path) (refused : List (Path × String)) (result : StepResult) :
    (refuseAll project refused result).file = result.file :=
  congrArg (fun subject : Json × Json × String => subject.2.1)
    (refuseAll_subject project refused result)

/-- A refusal turns the applied results of the refused files into failures, and
changes the status of no other. -/
theorem refuseAll_status (project : Path) (refused : List (Path × String)) (result : StepResult) :
    (refuseAll project refused result).status =
      if ∃ entry ∈ refused, result.IsAppliedAt project entry.1 then .failed
      else result.status := by
  induction refused generalizing result with
  | nil => simp [refuseAll]
  | cons entry refused induction =>
      have unfolded : refuseAll project (entry :: refused) result =
          refuseAll project refused (result.refuse project entry.1 entry.2) := rfl
      rw [unfolded, induction]
      by_cases here : result.IsAppliedAt project entry.1
      · have failed : (result.refuse project entry.1 entry.2).status = .failed := by
          simp only [StepResult.refuse, if_pos here]
        rw [if_neg, failed, if_pos ⟨entry, List.mem_cons_self, here⟩]
        rintro ⟨other, _, applied, _⟩
        rw [failed] at applied
        cases applied
      · have kept : result.refuse project entry.1 entry.2 = result := by
          simp only [StepResult.refuse, if_neg here]
        have same : (∃ other ∈ entry :: refused, result.IsAppliedAt project other.1) ↔
            ∃ other ∈ refused, result.IsAppliedAt project other.1 := by
          simp [here]
        rw [kept]
        by_cases later : ∃ other ∈ refused, result.IsAppliedAt project other.1
        · rw [if_pos later, if_pos (same.mpr later)]
        · rw [if_neg later, if_neg (fun found => later (same.mp found))]

/-- The file of a path is there with these bytes, and no directory stands where
its temporary file goes. -/
structure Replaceable (session : Session) (path : Path) (bytes : List UInt8) : Prop where
  read : session.workspace.readBytes path = .ok bytes
  free : session.workspace.get? (Activity.temporaryFor session path).place ≠ some .directory

theorem Replaceable.evolve {bytes : List UInt8} {touched made : Place → Prop}
    (ready : Replaceable session path bytes) (same : session.SameSetting after)
    (evolved : Workspace.Evolves touched made session.workspace after.workspace)
    (untouched : ¬ touched path.place)
    (unmade : ¬ made (Activity.temporaryFor session path).place) :
    Replaceable after path bytes := by
  constructor
  · exact evolved.readBytes untouched ready.read
  · rw [same.temporaryFor]
    intro directory
    rcases evolved.newDirectory _ directory with old | new
    · exact ready.free old
    · exact unmade new

/-- What becomes of a file whose buffer is written out: it stays unless the
buffer has changed, and then it is stored exactly if the session accepts it. -/
structure Settles (session : Session) (buffer : Buffer) (bytes : List UInt8)
    (refused : List (Path × String)) (last : Session) : Prop where
  unchanged : buffer.content = buffer.loaded → buffer.path ∉ refused.map Prod.fst ∧
    last.workspace.readBytes buffer.path = .ok bytes
  stored : buffer.content ≠ buffer.loaded → session.Accepts buffer.path →
    buffer.path ∉ refused.map Prod.fst ∧
      last.workspace.readBytes buffer.path = .ok (Text.encode buffer.content)
  refused : buffer.content ≠ buffer.loaded → ¬ session.Accepts buffer.path →
    buffer.path ∈ refused.map Prod.fst ∧ last.workspace.readBytes buffer.path = .ok bytes

/-- Whether no buffer but that of a file itself has to do with the file: none
stands at its place, and no temporary file does or hinders its own. -/
structure IsClear (session : Session) (buffers : List Buffer) (path : Path) : Prop where
  apart : ∀ other ∈ buffers, other.path ≠ path → other.path.place ≠ path.place
  spared : ∀ other ∈ buffers, (Activity.temporaryFor session other.path).place ≠ path.place
  free : ∀ other ∈ buffers,
    ¬ other.path.parent.Passes (Activity.temporaryFor session path).place

theorem IsClear.tail {buffer : Buffer} (clear : IsClear session (buffer :: buffers) path)
    (same : session.SameSetting after) : IsClear after buffers path where
  apart := fun other member => clear.apart other (List.mem_cons_of_mem _ member)
  spared := fun other member => by
    rw [same.temporaryFor]
    exact clear.spared other (List.mem_cons_of_mem _ member)
  free := fun other member => by
    rw [same.temporaryFor]
    exact clear.free other (List.mem_cons_of_mem _ member)

/-- Writing out other buffers leaves a file alone. -/
theorem Commits.keeps {bytes : List UInt8}
    (committed : Commits state session buffers final last written refused)
    (read : session.workspace.readBytes path = .ok bytes) (clear : IsClear session buffers path)
    (unbuffered : path ∉ buffers.map Buffer.path) :
    last.workspace.readBytes path = .ok bytes ∧ path ∉ refused.map Prod.fst := by
  have apart : ∀ buffer ∈ buffers, buffer.path.place ≠ path.place := fun buffer member =>
    clear.apart buffer member fun same => unbuffered (same ▸ List.mem_map_of_mem member)
  constructor
  · refine committed.evolves.readBytes ?_ read
    rintro ⟨buffer, member, temporary | target⟩
    · exact clear.spared buffer member temporary.symm
    · exact apart buffer member target.symm
  · intro listed
    obtain ⟨entry, member, rfl⟩ := List.mem_map.mp listed
    obtain ⟨buffer, found, same⟩ := List.mem_map.mp (committed.refused_buffers entry member)
    exact apart buffer found (congrArg Path.place same)

theorem Settles.of_sameSetting {bytes : List UInt8} {buffer : Buffer}
    (same : session.SameSetting after) (settled : Settles after buffer bytes refused last) :
    Settles session buffer bytes refused last where
  unchanged := settled.unchanged
  stored := fun changed accepted => settled.stored changed (same.accepts accepted)
  refused := fun changed rejected =>
    settled.refused changed fun accepted => rejected (same.symm.accepts accepted)

theorem Settles.refuse_other {bytes : List UInt8} {buffer : Buffer} {entry : Path × String}
    (apart : entry.1 ≠ buffer.path) (settled : Settles session buffer bytes refused last) :
    Settles session buffer bytes (entry :: refused) last where
  unchanged := fun same => by
    obtain ⟨absent, read⟩ := settled.unchanged same
    exact ⟨by simp_all [Ne.symm apart], read⟩
  stored := fun changed accepted => by
    obtain ⟨absent, read⟩ := settled.stored changed accepted
    exact ⟨by simp_all [Ne.symm apart], read⟩
  refused := fun changed rejected => by
    obtain ⟨listed, read⟩ := settled.refused changed rejected
    exact ⟨List.mem_cons_of_mem _ listed, read⟩

/-- The fate of a file when its buffer is written out, the temporary files of
others being out of its way. -/
theorem Commits.settles {bytes : List UInt8} {buffer : Buffer}
    (committed : Commits state session buffers final last written refused)
    (plain : session.HasPlainTag) (clean : buffer.path.hasNull = false)
    (ready : Replaceable session buffer.path bytes) (member : buffer ∈ buffers)
    (distinct : (buffers.map Buffer.path).Nodup) (clear : IsClear session buffers buffer.path) :
    Settles session buffer bytes refused last := by
  -- The buffer is the first one and the rest keeps its file, or it is among
  -- the rest and the first one keeps its file.
  induction committed with
  | nil => cases member
  | @unchanged state final session last head buffers written refused same later induction =>
      obtain ⟨new, distinctLater⟩ := List.nodup_cons.mp distinct
      have clearLater := clear.tail (.refl session)
      rcases List.mem_cons.mp member with rfl | among
      · obtain ⟨kept, absent⟩ := later.keeps ready.read clearLater new
        exact ⟨fun _ => ⟨absent, kept⟩, fun changed => absurd same changed,
          fun changed => absurd same changed⟩
      · exact induction plain ready among distinctLater clearLater
  | @stored state final session wrote next last head buffers written refused changed success quiet
      later induction =>
      obtain ⟨new, distinctLater⟩ := List.nodup_cons.mp distinct
      obtain ⟨setting, evolved, stands⟩ := Activity.writeFile_ok success
      have settingNext := setting.trans quiet.toSameSetting
      have clearLater := clear.tail settingNext
      rcases List.mem_cons.mp member with rfl | among
      · rw [← quiet.workspace] at stands
        obtain ⟨kept, absent⟩ := later.keeps stands clearLater new
        rw [String.toList_ofList] at kept
        exact ⟨fun same => absurd same changed, fun _ _ => ⟨absent, kept⟩, fun _ rejected =>
          absurd (Activity.accepts_of_writeFile plain clean ready.read success) rejected⟩
      · have elsewhere : head.path ≠ buffer.path :=
          fun path => new (path ▸ List.mem_map_of_mem among)
        have readyNext : Replaceable next buffer.path bytes := by
          refine ready.evolve settingNext (quiet.workspace ▸ evolved) ?_
            (clear.free head List.mem_cons_self)
          rintro (temporary | target)
          · exact clear.spared head List.mem_cons_self temporary.symm
          · exact clear.apart head List.mem_cons_self elsewhere target.symm
        exact (induction (settingNext.hasPlainTag plain) readyNext among distinctLater
          clearLater).of_sameSetting settingNext
  | @refused state final session stopped next last head buffers written refused failure error
      changed stop quiet later induction =>
      obtain ⟨new, distinctLater⟩ := List.nodup_cons.mp distinct
      obtain ⟨setting, evolved⟩ := Activity.writeFile_error stop
      have settingNext := setting.trans quiet.toSameSetting
      have clearLater := clear.tail settingNext
      rw [← quiet.workspace] at evolved
      have readyNext : Replaceable next buffer.path bytes := by
        refine ready.evolve settingNext evolved ?_ (clear.free head List.mem_cons_self)
        exact Ne.symm (clear.spared head List.mem_cons_self)
      rcases List.mem_cons.mp member with rfl | among
      · obtain ⟨kept, _⟩ := later.keeps readyNext.read clearLater new
        refine ⟨fun same => absurd same changed, fun _ accepted => ?_,
          fun _ _ => ⟨List.mem_cons_self, kept⟩⟩
        obtain ⟨_, success⟩ := Activity.writeFile_of_accepts plain clean ready.read ready.free
          accepted
        rw [success] at stop
        cases stop
      · have elsewhere : head.path ≠ buffer.path :=
          fun path => new (path ▸ List.mem_map_of_mem among)
        exact ((induction (settingNext.hasPlainTag plain) readyNext among distinctLater
          clearLater).of_sameSetting settingNext).refuse_other elsewhere

end Migration

end Restyle
