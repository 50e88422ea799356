import Restyle.Proofs.Activity.Maintenance
import Restyle.Proofs.Migration.Endings
import Restyle.Proofs.Migration.FailedRuns
import Restyle.Proofs.Migration.Insertions
import Restyle.Proofs.Stylesheet.Sections

/-!
# What one operation makes of the stylesheet

A run writes the stylesheet once at most, between the edited files and the
checkpoint, and a promotion writes nothing else.  So an operation either adds
its sections to the text that it finds, or leaves the file alone, however it ends.
-/

namespace Restyle

open Text Activity

variable {path : Path} {text content : String} {before middle after : Workspace}
  {touched made : Place → Prop} {first second sections : List Section}
  {tokens utilities : List String}

/-! ## Shown texts -/

/-- Whether a file shows a text when it is read, the empty one when there is no
file. -/
def Workspace.Shows (workspace : Workspace) (path : Path) (text : String) : Prop :=
  workspace.readText path = .ok text ∨
    text = "" ∧ ∀ bytes mode, workspace.get? path.place ≠ some (.file bytes mode)

namespace Workspace.Shows

theorem textAt (shows : before.Shows path text) : Migration.textAt before path = text := by
  unfold Migration.textAt
  rcases shows with read | ⟨rfl, absent⟩
  · rw [read]
  · cases read : before.readText path with
    | error failure => rfl
    | ok found =>
        obtain ⟨bytes, _, stored, _, _⟩ := Workspace.readText_eq_ok_iff.mp read
        obtain ⟨_, mode, standing⟩ := Workspace.readBytes_eq_ok_iff.mp stored
        exact absurd standing (absent bytes mode)

theorem eq_of_read (shows : before.Shows path text) (read : before.readText path = .ok content) :
    text = content := by
  have found := shows.textAt
  rw [Migration.textAt, read] at found
  exact found.symm

theorem return_not_mem (shows : before.Shows path text) : '\r' ∉ text.toList := by
  rcases shows with read | ⟨rfl, _⟩
  · obtain ⟨_, characters, _, _, rfl⟩ := Workspace.readText_eq_ok_iff.mp read
    rw [String.toList_ofList]
    exact return_not_mem_unifyBreaks characters
  · exact List.not_mem_nil

theorem of_evolves (shows : before.Shows path text)
    (evolved : Workspace.Evolves touched made before after) (untouched : ¬ touched path.place) :
    after.Shows path text := by
  rcases shows with read | ⟨empty, absent⟩
  · exact Or.inl (evolved.readText untouched read)
  · refine Or.inr ⟨empty, ?_⟩
    intro bytes mode standing
    rcases evolved.keepsOther _ untouched with kept | ⟨_, directory⟩
    · exact absent bytes mode (kept ▸ standing)
    · rw [directory] at standing
      cases standing

theorem of_written
    (written : after.readBytes path = .ok (Text.encode text.toList)) :
    after.Shows path (String.ofList (unifyBreaks text.toList)) :=
  Or.inl (Workspace.readText_eq_ok_iff.mpr ⟨_, _, written, decode_encode _, rfl⟩)

end Workspace.Shows

/-! ## Received sections -/

/-- What becomes of a stylesheet that receives sections.  One that receives none is
left alone. -/
structure Receives (path : Path) (sections : List Section) (before after : Workspace) : Prop where
  shows : ∀ text, before.Shows path text → after.Shows path (grown text sections)
  keeps : sections = [] → before.Keeps after path.place

theorem Receives.of_evolves (evolved : Workspace.Evolves touched made before after)
    (untouched : ¬ touched path.place) : Receives path [] before after where
  shows := fun _ shows => shows.of_evolves evolved untouched
  keeps := fun _ => evolved.keepsOther _ untouched

theorem Receives.trans (one : Receives path first before middle)
    (other : Receives path second middle after) (closed : ∀ piece ∈ first, piece.IsClosed) :
    Receives path (first ++ second) before after where
  shows := by
    intro text shows
    rw [← grown_grown closed]
    exact other.shows _ (one.shows text shows)
  keeps := by
    intro none
    obtain ⟨noneFirst, noneSecond⟩ := List.append_eq_nil_iff.mp none
    exact (one.keeps noneFirst).trans (other.keeps noneSecond)

/-- What is left alone before does not matter. -/
theorem Receives.after_none (one : Receives path [] before middle)
    (other : Receives path sections middle after) : Receives path sections before after :=
  one.trans other (by simp)

theorem Receives.then_none (one : Receives path sections before middle)
    (other : Receives path [] middle after) (closed : ∀ piece ∈ sections, piece.IsClosed) :
    Receives path sections before after := by
  simpa using one.trans other closed

theorem return_not_mem_grown (absent : '\r' ∉ text.toList)
    (clean : ∀ piece ∈ sections, '\r' ∉ piece.text.toList) :
    '\r' ∉ (grown text sections).toList := by
  by_cases none : sections = []
  · rw [none, grown_nil]
    exact absent
  · rw [grown_toList none]
    simp only [List.mem_append, List.mem_flatMap, List.mem_singleton, not_or]
    refine ⟨⟨fun member => absent (mem_of_mem_trimRight member), ?_⟩, by decide⟩
    rintro ⟨piece, member, inside⟩
    exact clean piece member inside

/-- A stylesheet that is written anew with sections behind what it showed has
received them. -/
theorem Receives.of_written (some : sections ≠ [])
    (clean : ∀ piece ∈ sections, '\r' ∉ piece.text.toList)
    (written : ∀ text, before.Shows path text →
      after.readBytes path = .ok (Text.encode (grown text sections).toList)) :
    Receives path sections before after where
  shows := by
    intro text shows
    have absent := return_not_mem_grown shows.return_not_mem clean
    have again := Workspace.Shows.of_written (written text shows)
    rw [unifyBreaks_of_not_mem absent, String.ofList_toList] at again
    exact again
  keeps := fun none => absurd none some

/-! ## Runs -/

/-- Whether the declaration of a step has no carriage return in it. -/
def Step.DeclaresCleanly (step : Step) : Prop :=
  ∀ declaration, step.token? = some declaration ∨ step.utility? = some declaration →
    '\r' ∉ declaration.toList

namespace Migration

variable {options : MigrationOptions} {layout : Layout} {index : IndexRebuild} {task : Task}
  {state executed : RunState} {session committed started ended : Session} {steps done : List Step}
  {backup : Bool} {written : List Path} {refused : List (Path × String)} {step : Step}
  {report : RunReport}

/-- The state of a run once its edits are written out. -/
def gather (options : MigrationOptions) (task : Task) : Activity RunState := do
  let executed ← executeAll options (startState task.checkpoint) task.steps
  let (state, _) ← commit executed [] executed.buffers
  return state

/-- The sections that the stylesheet receives when declarations are appended. -/
def appendedBy (stylesheet : Path) (state : RunState) (session : Session) : List Section :=
  match appendDeclarations stylesheet state session with
  | .ok _ _ => sectionsOf state.tokenDeclarations state.utilityBlocks
  | .error _ _ => []

def receivedFrom (options : MigrationOptions) (layout : Layout) (task : Task) (session : Session) :
    List Section :=
  match gather options task session with
  | .ok state committed => appendedBy layout.stylesheet state committed
  | .error _ _ => []

/-- The sections that the stylesheet receives from a run. -/
def appended (options : MigrationOptions) (layout : Layout) (session : Session) : List Section :=
  match prepare options layout session with
  | .ok task started =>
      if task.steps.isEmpty || !options.apply then [] else receivedFrom options layout task started
  | .error _ _ => []

/-- A state whose declarations are those of steps. -/
structure DeclaredBy (steps : List Step) (state : RunState) : Prop where
  tokens : ∀ declaration ∈ state.tokenDeclarations, ∃ step ∈ steps,
    step.token? = some declaration
  utilities : ∀ block ∈ state.utilityBlocks, ∃ step ∈ steps, step.utility? = some block

theorem utilityBlock_of_utility? {block : String} (declares : step.utility? = some block) :
    ['\x7d'] <:+ block.toList := by
  unfold Step.utility? Step.declaration? at declares
  split at declares
  · rename_i found
    cases declares
    split at found
    · cases found
      exact closed_utilityBlock _ _
    · cases found
    · cases found
  · cases declares

theorem DeclaredBy.closed (declared : DeclaredBy steps state) :
    ∀ piece ∈ sectionsOf state.tokenDeclarations state.utilityBlocks, piece.IsClosed := by
  apply closed_sectionsOf
  intro block member
  obtain ⟨step, _, declares⟩ := declared.utilities block member
  exact utilityBlock_of_utility? declares

theorem closed_appendedBy (declared : DeclaredBy steps state) (stylesheet : Path) :
    ∀ piece ∈ appendedBy stylesheet state session, piece.IsClosed := by
  unfold appendedBy
  split
  · exact declared.closed
  · simp

theorem return_not_mem_intercalate {between : List Char} {texts : List (List Char)}
    (joint : '\r' ∉ between) (clean : ∀ text ∈ texts, '\r' ∉ text) :
    '\r' ∉ between.intercalate texts := by
  induction texts with
  | nil => simp
  | cons first texts induction =>
      obtain ⟨here, later⟩ := List.forall_mem_cons.mp clean
      cases texts with
      | nil => simpa using here
      | cons second texts =>
          rw [List.intercalate_cons_cons]
          simp only [List.mem_append, not_or]
          exact ⟨⟨here, joint⟩, induction later⟩

theorem return_not_mem_sectionsOf (cleanTokens : ∀ token ∈ tokens, '\r' ∉ token.toList)
    (cleanUtilities : ∀ block ∈ utilities, '\r' ∉ block.toList) :
    ∀ piece ∈ sectionsOf tokens utilities, '\r' ∉ piece.text.toList := by
  unfold sectionsOf
  intro piece member
  rcases List.mem_append.mp member with early | late
  · split at early
    · cases early
    · rw [List.mem_singleton.mp early, Section.text_tokens]
      simp only [String.toList_append, String.toList_intercalate, List.mem_append, not_or]
      refine ⟨⟨by decide, return_not_mem_intercalate (by decide) ?_⟩, by decide⟩
      simpa using cleanTokens
  · split at late
    · cases late
    · rw [List.mem_singleton.mp late, Section.text_utilities]
      simp only [String.toList_append, String.toList_intercalate, List.mem_append, not_or]
      refine ⟨by decide, return_not_mem_intercalate (by decide) ?_⟩
      simpa using cleanUtilities

theorem temporary_ne (plain : session.HasPlainTag) (unnamed : session.temporaryName ∉ path.place)
    (target : Path) : path.place ≠ (temporaryFor session target).place := by
  intro same
  apply unnamed
  rw [same, Session.temporaryFor_place plain]
  simp

/-- Appending declarations adds their sections, or fails and does nothing. -/
theorem appendDeclarations_receives (declared : DeclaredBy steps state)
    (clean : ∀ step ∈ steps, step.DeclaresCleanly) (plain : session.HasPlainTag)
    (unnamed : session.temporaryName ∉ path.place)
    (some : ¬(state.tokenDeclarations = [] ∧ state.utilityBlocks = []))
    (ends : EndsIn (appendDeclarations path state) session ended) :
    Receives path (appendedBy path state session) session.workspace ended.workspace := by
  unfold appendedBy
  rcases ends with ⟨result, appending⟩ | ⟨failure, stopped⟩
  · rw [appending]
    obtain ⟨wrote, writing, quiet⟩ := appendDeclarations_eq_ok appending
    apply Receives.of_written
    · rw [sectionsOf]
      simpa [List.append_eq_nil_iff, List.isEmpty_iff] using some
    · apply return_not_mem_sectionsOf
      · intro token member
        obtain ⟨step, among, declares⟩ := declared.tokens token member
        exact clean step among token (Or.inl declares)
      · intro block member
        obtain ⟨step, among, declares⟩ := declared.utilities block member
        exact clean step among block (Or.inr declares)
    · intro text shows
      rw [shows.textAt, restyled_eq_grown] at writing
      rw [quiet.workspace]
      exact (writeFile_ok writing).2.2
  · rw [stopped]
    exact Receives.of_evolves (appendDeclarations_error stopped).2.1 (temporary_ne plain unnamed _)

/-- Bringing the stylesheet up to date appends what is declared, if anything is, and
does nothing else to files. -/
theorem updateStylesheet_ends {stylesheet : Path}
    (ends : EndsIn (updateStylesheet stylesheet state written) session ended) :
    ((state.tokenDeclarations = [] ∧ state.utilityBlocks = []) ∧ session = ended) ∨
      ¬(state.tokenDeclarations = [] ∧ state.utilityBlocks = []) ∧
        ∃ stopped, EndsIn (appendDeclarations stylesheet state) session stopped ∧
          stopped.Quiet ended := by
  unfold updateStylesheet at ends
  by_cases none : state.tokenDeclarations = [] ∧ state.utilityBlocks = []
  · rw [if_pos (by simp [none])] at ends
    have still : Maintains (session = ·) (pure (written, []) : Activity (List Path × List String)) :=
      maintains_pure _
    exact Or.inl ⟨none, still.ends rfl ends⟩
  · rw [if_neg (by simpa [and_comm] using none)] at ends
    refine Or.inr ⟨none, ?_⟩
    rcases ends.bind with ⟨failure, never⟩ | ⟨outcome, tried, attempted, rest⟩
    · unfold attempt at never
      split at never <;> cases never
    · obtain ⟨_, rfl, done⟩ | ⟨failure, rfl, stopped⟩ := attempt_eq_ok.mp attempted
      · exact ⟨tried, Or.inl ⟨_, done⟩, Maintains.ends (maintains_pure _) (.refl _) rest⟩
      · refine ⟨tried, Or.inr ⟨_, stopped⟩, ?_⟩
        have noted : ∀ message, Maintains tried.Quiet (do
            log .warning .running message
            return (written, [message])) := fun message =>
          (maintains_log (ignoresLog_quiet tried) _ _ _).bind fun _ => maintains_pure _
        cases failure with
        | write cause => exact Maintains.ends (noted _) (.refl _) rest
        | _ => exact Maintains.ends (maintains_throw _) (.refl _) rest

theorem conclude_evolves {files : List Path} {warnings : List String}
    (ends : EndsIn (conclude layout task state files warnings) session ended) :
    Workspace.Evolves (IsWritePlace session layout.checkpoint)
      layout.checkpoint.parent.Passes session.workspace ended.workspace := by
  rcases ends with ⟨report, returned⟩ | ⟨failure, stopped⟩
  · obtain ⟨_, wrote, _, _, writing, quiet, _⟩ := conclude_eq_ok returned
    rw [quiet.workspace]
    exact (writeFile_ok writing).2.1
  · exact (conclude_error stopped).2.1.touching fun _ => Or.inl

theorem finish_receives {sources : List Path} {middle : Session} (declared : DeclaredBy steps state)
    (clean : ∀ step ∈ steps, step.DeclaresCleanly)
    (committing : commit executed [] executed.buffers middle = .ok (state, sources) committed)
    (plain : committed.HasPlainTag) (unnamed : committed.temporaryName ∉ layout.stylesheet.place)
    (apart : layout.stylesheet.place ≠ layout.checkpoint.place)
    (ends : EndsIn (finish layout index task executed) middle ended) :
    Receives layout.stylesheet (appendedBy layout.stylesheet state committed)
      committed.workspace ended.workspace := by
  have nothing : state.tokenDeclarations = [] ∧ state.utilityBlocks = [] →
      appendedBy layout.stylesheet state committed = [] := by
    rintro ⟨noTokens, noUtilities⟩
    unfold appendedBy
    rw [noTokens, noUtilities]
    split <;> rfl
  have styled : ∀ {styled}, EndsIn (updateStylesheet layout.stylesheet state sources) committed
      styled → committed.SameSetting styled ∧ Receives layout.stylesheet
        (appendedBy layout.stylesheet state committed) committed.workspace styled.workspace := by
    intro styled updates
    rcases updateStylesheet_ends updates with ⟨none, rfl⟩ | ⟨some, stopped, appends, quiet⟩
    · rw [nothing none]
      exact ⟨.refl _, .of_evolves (.refl (fun _ => False) (fun _ => False) _) id⟩
    · refine ⟨?_, ?_⟩
      · rcases appends with ⟨_, appended⟩ | ⟨_, refused⟩
        · exact (appendDeclarations_outcome.1 _ _ appended).1.trans quiet.toSameSetting
        · exact (appendDeclarations_outcome.2 _ _ refused).1.trans quiet.toSameSetting
      · rw [quiet.workspace]
        exact appendDeclarations_receives declared clean plain unnamed some appends
  unfold finish at ends
  rcases ends.bind with ⟨_, uncommitted⟩ | ⟨_, _, again, ends⟩
  · rw [committing] at uncommitted
    cases uncommitted
  cases committing.symm.trans again
  rcases ends.bind with ⟨failure, unstyled⟩ | ⟨⟨files, warnings⟩, middle, updating, ends⟩
  · exact (styled (Or.inr ⟨failure, unstyled⟩)).2
  obtain ⟨setting, received⟩ := styled (Or.inl ⟨_, updating⟩)
  obtain ⟨ready, quiet, ends⟩ : ∃ ready, middle.Quiet ready ∧
      EndsIn (conclude layout task state files warnings) ready ended := by
    cases changed : !files.isEmpty with
    | true =>
        simp only [changed, if_true] at ends
        rcases ends.bind with ⟨failure, never⟩ | ⟨_, ready, rebuilt, ends⟩
        · cases index <;> cases never
        · exact ⟨ready, rebuildIndex_quiet rebuilt, ends⟩
    | false =>
        simp only [changed, Bool.false_eq_true, if_false] at ends
        exact ⟨middle, .refl _, ends⟩
  have saved := conclude_evolves ends
  rw [quiet.workspace] at saved
  apply received.then_none (.of_evolves saved _) (closed_appendedBy declared _)
  rintro (temporary | checkpoint)
  · rw [(setting.trans quiet.toSameSetting).temporaryFor] at temporary
    exact temporary_ne plain unnamed _ temporary
  · exact apart checkpoint

/-- Whether steps stay away from the stylesheet: it is not a file of theirs nor, if
files are backed up, the backup of one.  Their declarations hold no carriage
return, which would be read as a line feed later. -/
structure Respects (backup : Bool) (stylesheet : Path) (session : Session) (steps : List Step) :
    Prop where
  fresh : FreshTag session steps
  notFile : ∀ step ∈ steps, ∀ key, fileKey? session.project step.file = some key →
    key.place ≠ stylesheet.place
  notBackup : backup = true → ¬ IsBackupPlace session.project steps stylesheet.place
  notTemporary : session.temporaryName ∉ stylesheet.place
  clean : ∀ step ∈ steps, step.DeclaresCleanly

theorem Respects.of_quiet {stylesheet : Path} (respects : Respects backup stylesheet session steps)
    (quiet : session.Quiet started) : Respects backup stylesheet started steps where
  fresh := respects.fresh.of_quiet quiet
  notFile := by
    rw [quiet.project]
    exact respects.notFile
  notBackup := by
    rw [quiet.project]
    exact respects.notBackup
  notTemporary := by
    rw [quiet.temporaryName]
    exact respects.notTemporary
  clean := respects.clean

theorem Executes.workspace_eq
    (execution : Executes false state session done executed ended) :
    ended.workspace = session.workspace := by
  induction execution with
  | nil quiet => exact quiet.workspace
  | cons first _ induction =>
      refine induction.trans ?_
      cases first with
      | blocked _ quiet => exact quiet.workspace
      | declined _ quiet => exact quiet.workspace
      | unreadable _ _ _ _ _ quiet => exact quiet.workspace
      | unlocated _ _ _ _ quiet => exact quiet.workspace
      | edited _ _ _ _ before copied quiet =>
          rw [if_neg Bool.false_ne_true] at copied
          obtain ⟨_, rfl⟩ := pure_eq_ok.mp copied
          exact quiet.workspace.trans before.workspace

/-- Steps that stay away from the stylesheet leave it alone while they are executed. -/
theorem Executes.avoids {stylesheet : Path} (respects : Respects backup stylesheet session steps)
    (within : ∀ step ∈ done, step ∈ steps)
    (execution : Executes backup state session done executed ended) :
    Workspace.Evolves (· ≠ stylesheet.place) (fun _ => False) session.workspace
      ended.workspace := by
  cases backup with
  | false =>
      rw [execution.workspace_eq]
      exact .refl _ _ _
  | true =>
      refine (execution.evolves fun _ => False).touching ?_
      rintro place ⟨step, member, key, known, copied⟩ rfl
      exact respects.notBackup rfl ⟨step, within step member, key, known, copied⟩

theorem Commits.avoids {stylesheet : Path} (respects : Respects backup stylesheet session steps)
    (within : ∀ step ∈ done, step ∈ steps) (empty : state.buffers = [])
    {next : RunState} {middle : Session}
    (execution : Executes backup state session done executed middle)
    (commitment : Commits executed middle executed.buffers next committed written refused) :
    Workspace.Evolves (· ≠ stylesheet.place) (fun _ => False) session.workspace
      committed.workspace := by
  refine (execution.avoids respects within).trans ((commitment.evolves_of_writable
    (execution.writable respects.fresh within empty)).touching ?_)
  rintro place ⟨buffer, member, temporary | target⟩ rfl
  · rw [execution.sameSetting.temporaryFor] at temporary
    exact temporary_ne respects.fresh.plain respects.notTemporary _ temporary
  · obtain ⟨step, among, known⟩ := execution.isStepFile empty within buffer member
    exact respects.notFile step among _ known target.symm

theorem DeclaredBy.of_edited {results : List StepResult}
    (tokens : state.tokenDeclarations = (editedSteps (steps.zip results)).filterMap Step.token?)
    (utilities : state.utilityBlocks = (editedSteps (steps.zip results)).filterMap Step.utility?) :
    DeclaredBy steps state := by
  have among : ∀ step ∈ editedSteps (steps.zip results), step ∈ steps := by
    intro step member
    obtain ⟨pair, listed, rfl⟩ := List.mem_map.mp member
    exact (List.of_mem_zip (List.mem_filter.mp listed).1).1
  constructor
  · intro declaration member
    rw [tokens] at member
    obtain ⟨step, edited, declares⟩ := List.mem_filterMap.mp member
    exact ⟨step, among step edited, declares⟩
  · intro block member
    rw [utilities] at member
    obtain ⟨step, edited, declares⟩ := List.mem_filterMap.mp member
    exact ⟨step, among step edited, declares⟩

/-- What gathering comes to. -/
theorem gather_eq_ok (success : gather options task session = .ok state committed) :
    state.tokenDeclarations =
        (editedSteps (task.steps.zip state.results)).filterMap Step.token? ∧
      state.utilityBlocks =
        (editedSteps (task.steps.zip state.results)).filterMap Step.utility? := by
  unfold gather at success
  obtain ⟨executed, middle, executing, rest⟩ := bind_eq_ok.mp success
  obtain ⟨⟨gathered, sources⟩, _, committing, rest⟩ := bind_eq_ok.mp rest
  obtain ⟨rfl, rfl⟩ := pure_eq_ok.mp rest
  obtain ⟨done, cut, split, execution, _⟩ := executeAll_executes executing
  obtain ⟨_, _, _, commitment⟩ := commit_commits committing
  exact commitment.declares split execution

theorem gather_of_parts {sources : List Path} {middle : Session}
    (executing : executeAll options (startState task.checkpoint) task.steps session =
      .ok executed middle)
    (committing : commit executed [] executed.buffers middle = .ok (state, sources) committed) :
    gather options task session = .ok state committed := by
  unfold gather
  rw [bind_of_ok executing, bind_of_ok committing]
  rfl

theorem closed_receivedFrom (options : MigrationOptions) (layout : Layout) (task : Task)
    (session : Session) : ∀ piece ∈ receivedFrom options layout task session, piece.IsClosed := by
  unfold receivedFrom
  split
  · rename_i gathered
    obtain ⟨tokens, utilities⟩ := gather_eq_ok gathered
    exact closed_appendedBy (.of_edited tokens utilities) _
  · simp

theorem closed_appended (options : MigrationOptions) (layout : Layout) (session : Session) :
    ∀ piece ∈ appended options layout session, piece.IsClosed := by
  unfold appended
  split
  · split
    · simp
    · exact closed_receivedFrom _ _ _ _
  · simp

theorem applySteps_receives
    (respects : Respects options.backup layout.stylesheet session task.steps)
    (apart : layout.stylesheet.place ≠ layout.checkpoint.place)
    (ends : EndsIn (applySteps options layout index task.planPath task.digest task.checkpoint
      task.steps) session ended) :
    Receives layout.stylesheet (receivedFrom options layout task session)
      session.workspace ended.workspace := by
  have empty := startState_buffers task.checkpoint
  have within : ∀ {done cut}, task.steps = done ++ cut → ∀ step ∈ done, step ∈ task.steps := by
    intro done cut split step member
    rw [split]
    exact List.mem_append_left _ member
  rw [applySteps_eq] at ends
  rcases ends.bind with ⟨failure, stopped⟩ | ⟨executed, middle, executing, ends⟩
  · obtain ⟨done, cut, next, split, execution⟩ := executeAll_stops stopped
    have ungathered : gather options task session = .error failure ended := by
      unfold gather
      exact bind_of_error stopped
    rw [receivedFrom, ungathered]
    exact .of_evolves (execution.avoids respects (within split)) (not_not_intro rfl)
  · obtain ⟨done, cut, split, execution, _⟩ := executeAll_executes executing
    have keyed := execution.haveKeys (by simp [HaveKeys, startState_results])
    rw [← execution.sameSetting.project] at keyed
    obtain ⟨⟨state, sources⟩, committed, committing⟩ := commit_succeeds []
      (execution.sameSetting.hasPlainTag respects.fresh.plain)
      (execution.writable respects.fresh (within split) empty) keyed
    obtain ⟨_, _, _, commitment⟩ := commit_commits committing
    obtain ⟨tokens, utilities⟩ := commitment.declares split execution
    have setting := execution.sameSetting.trans commitment.sameSetting
    have received := finish_receives (.of_edited tokens utilities) respects.clean
      committing (setting.hasPlainTag respects.fresh.plain)
      (by rw [setting.temporaryName]; exact respects.notTemporary) apart ends
    rw [receivedFrom, gather_of_parts executing committing]
    exact (Receives.of_evolves (commitment.avoids respects (within split) empty execution)
      (not_not_intro rfl)).after_none received

/-- The steps that a run has before it, none if it cannot be prepared. -/
def scheduledSteps (options : MigrationOptions) (layout : Layout) (session : Session) : List Step :=
  match prepare options layout session with
  | .ok task _ => task.steps
  | .error _ _ => []

theorem run_receives
    (respects : Respects options.backup layout.stylesheet session
      (scheduledSteps options layout session))
    (apart : layout.stylesheet.place ≠ layout.checkpoint.place)
    (ends : EndsIn (run options layout index) session ended) :
    Receives layout.stylesheet (appended options layout session)
      session.workspace ended.workspace := by
  have unharmed : ∀ {ready : Session}, session.Quiet ready →
      Receives layout.stylesheet [] session.workspace ready.workspace := by
    intro ready quiet
    rw [quiet.workspace]
    exact .of_evolves (.refl (fun _ => False) (fun _ => False) _) id
  rw [run_eq] at ends
  rcases ends.bind with ⟨failure, unprepared⟩ | ⟨task, started, prepared, ends⟩
  · rw [appended, unprepared]
    exact unharmed ((isQuiet_prepare options layout session).2 _ _ unprepared)
  · have quiet := (prepare_eq_ok prepared).2
    rw [scheduledSteps, prepared] at respects
    simp only [appended, prepared]
    unfold perform at ends
    cases idle : task.steps.isEmpty with
    | true =>
        rw [idle, if_pos rfl] at ends
        exact unharmed ((maintains_pure _ : Maintains session.Quiet _).ends quiet ends)
    | false =>
        cases applying : options.apply with
        | true =>
            rw [idle, applying, if_neg Bool.false_ne_true, if_pos rfl] at ends
            have received := applySteps_receives (respects.of_quiet quiet) apart ends
            rw [quiet.workspace] at received
            exact received
        | false =>
            rw [idle, applying, if_neg Bool.false_ne_true, if_neg Bool.false_ne_true] at ends
            exact unharmed ((maintains_value _ : Maintains session.Quiet _).ends quiet ends)

theorem appendedBy_of_updated {stylesheet : Path} {files : List Path} {warnings : List String}
    (success : updateStylesheet stylesheet state written session = .ok (files, warnings) ended) :
    appendedBy stylesheet state session =
      if warnings = [] then sectionsOf state.tokenDeclarations state.utilityBlocks else [] := by
  cases updateStylesheet_updates success with
  | nothing none =>
      have nothing : sectionsOf state.tokenDeclarations state.utilityBlocks = [] := by
        rw [none.1, none.2]
        rfl
      rw [nothing, ite_self, appendedBy]
      split
      · exact nothing
      · rfl
  | appended _ success => rw [appendedBy, success, if_pos rfl]
  | warned _ stop => rw [appendedBy, stop, if_neg (by simp)]

/-- A run that returns without warnings adds the declarations of the steps that it has
edited, and one that returns with a warning adds nothing. -/
theorem appended_of_returned (applying : options.apply = true)
    (returned : run options layout index session = .ok report ended) :
    let edited := editedSteps ((scheduledSteps options layout session).zip report.results)
    appended options layout session =
      if report.warnings = [] then
        sectionsOf (edited.filterMap Step.token?) (edited.filterMap Step.utility?)
      else [] := by
  rw [run_eq] at returned
  obtain ⟨task, started, prepared, performed⟩ := bind_eq_ok.mp returned
  simp only [scheduledSteps, appended, prepared]
  unfold perform at performed
  cases idle : task.steps.isEmpty with
  | true =>
      rw [idle, if_pos rfl] at performed
      obtain ⟨rfl, rfl⟩ := pure_eq_ok.mp performed
      rw [List.isEmpty_iff.mp idle]
      rfl
  | false =>
      rw [idle, applying, if_neg Bool.false_ne_true, if_pos rfl, applySteps_eq] at performed
      obtain ⟨executed, middle, executing, finished⟩ := bind_eq_ok.mp performed
      obtain ⟨state, sources, committed, files, warnings, styled, ready, committing, updating, _,
        conclusion⟩ := finish_parts finished
      have gathered := gather_of_parts executing committing
      obtain ⟨tokens, utilities⟩ := gather_eq_ok gathered
      obtain ⟨_, _, _, _, _, _, recorded, _, _⟩ := conclude_eq_ok conclusion
      rw [recorded, ← tokens, ← utilities, conclude_warnings conclusion,
        ← appendedBy_of_updated updating, receivedFrom, gathered]
      simp [applying]

end Migration

end Restyle
