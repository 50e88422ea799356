import Restyle.Proofs.Migration.FailedRuns
import Restyle.Proofs.Workspace.Kinds

/-!
# Executions seen from outside

What an execution does to its lists, its results and the texts of its files is a
function of just these: `View.next?` computes it for one step, without buffers,
backups or a disk.  An execution that does not ask returns exactly when this
computation does, and it ends with the view that was computed.
-/

namespace Restyle

variable {workspace other : Workspace} {path : Path} {steps : List Step}

/-- The text of a file as a run sees it: that of the buffer if there is one, and
else what is on disk.  A path that holds the null character has none. -/
def RunState.textAt? (state : RunState) (workspace : Workspace) (path : Path) :
    Option (Except ReadFailure (List Char)) :=
  match state.buffer? path with
  | some buffer => some (.ok buffer.content)
  | none => if path.hasNull then none else some ((workspace.readText path).map String.toList)

namespace Migration

/-- What can be seen of a run: its lists, its results and the texts of files. -/
structure View where
  lists : Lists
  results : List StepResult
  text? : Path → Option (Except ReadFailure (List Char))

namespace View

/-- Records what became of a step. -/
def record (view : View) (step : Step) (status : StepStatus) (error : Option String)
    (size : Option EditSize) : View :=
  { view with
    lists := view.lists.mark step.id status
    results := view.results ++ [RunState.resultOf step status error size] }

def setText (view : View) (path : Path) (text : List Char) : View :=
  { view with text? := fun other => if other = path then some (.ok text) else view.text? other }

/-- What a step makes of a view, if it can be processed. -/
def next? (project : Path) (view : View) (step : Step) : Option View :=
  if step.dependencyList.any fun dependency => dependency.isAmong view.lists.failed then
    some (view.record step .skipped (some dependencyFailed) none)
  else
    match fileKey? project step.file with
    | none => none
    | some path =>
        match view.text? path with
        | none => none
        | some (.error failure) =>
            some (view.record step .failed (some (readReason step failure)) none)
        | some (.ok content) =>
            match step.edit content with
            | .error _ => none
            | .ok none =>
                some (view.record step .failed
                  (some ("Could not locate target at line " ++ toString step.line)) none)
            | .ok (some edit) =>
                some ((view.setText path edit.content).record step .applied none
                  (some ⟨edit.removed, edit.added⟩))

/-- The view with some results before its own. -/
def following (view : View) (earlier : List StepResult) : View :=
  { view with results := earlier ++ view.results }

theorem record_following (view : View) (earlier : List StepResult) (step : Step)
    (status : StepStatus) (error : Option String) (size : Option EditSize) :
    (view.following earlier).record step status error size =
      (view.record step status error size).following earlier := by
  simp [following, record]

/-- What a step makes of a view does not hang on the results before it. -/
theorem next?_following (project : Path) (view : View) (earlier : List StepResult) (step : Step) :
    next? project (view.following earlier) step =
      (next? project view step).map fun seen => seen.following earlier := by
  unfold next?
  have lists : (view.following earlier).lists = view.lists := rfl
  have texts : (view.following earlier).text? = view.text? := rfl
  rw [lists, texts]
  split
  · simp [record_following]
  · split
    · rfl
    · split
      · rfl
      · simp [record_following]
      · split
        · rfl
        · simp [record_following]
        · simp only [Option.map_some, Option.some.injEq]
          exact record_following (view.setText _ _) earlier _ _ _ _

theorem foldlM_following (project : Path) (view : View) (earlier : List StepResult)
    (steps : List Step) :
    steps.foldlM (next? project) (view.following earlier) =
      (steps.foldlM (next? project) view).map fun seen => seen.following earlier := by
  induction steps generalizing view with
  | nil => rfl
  | cons step steps induction =>
      rw [List.foldlM_cons, List.foldlM_cons, next?_following]
      cases next? project view step with
      | none => rfl
      | some seen => exact induction seen

theorem next?_text? {project : Path} {view seen : View} {step : Step}
    (computed : next? project view step = some seen) :
    seen.text? = view.text? ∨ ∃ path content edited, view.text? path = some (.ok content) ∧
      seen.text? = (view.setText path edited).text? := by
  unfold next? at computed
  split at computed
  · cases computed
    exact Or.inl rfl
  · split at computed
    · cases computed
    · rename_i path _
      split at computed
      · cases computed
      · cases computed
        exact Or.inl rfl
      · rename_i content text
        split at computed
        · cases computed
        · cases computed
          exact Or.inl rfl
        · rename_i edit _
          cases computed
          exact Or.inr ⟨path, content, edit.content, text, rfl⟩

theorem foldlM_unread {project : Path} {view seen : View} {failure : ReadFailure}
    (computed : steps.foldlM (next? project) view = some seen)
    (unread : view.text? path = some (.error failure)) : seen.text? path = some (.error failure) := by
  induction steps generalizing view with
  | nil =>
      cases computed
      exact unread
  | cons step steps induction =>
      rw [List.foldlM_cons] at computed
      obtain ⟨between, stepped, rest⟩ := Option.bind_eq_some_iff.mp computed
      apply induction rest
      rcases next?_text? stepped with same | ⟨edited, content, text, readable, set⟩
      · rw [same, unread]
      · have apart : path ≠ edited := by
          rintro rfl
          rw [unread] at readable
          cases readable
        rw [set, setText, ← unread]
        simp [apart]

/-- What is seen at the start of a run. -/
def atStart (lists : Lists) (workspace : Workspace) : View where
  lists
  results := []
  text? := fun path =>
    if path.hasNull then none else some ((workspace.readText path).map String.toList)

end View

/-- A run and its workspace have a view, as far as these files go. -/
structure Shows (files : Path → Prop) (state : RunState) (workspace : Workspace) (view : View) :
    Prop where
  lists : state.lists = view.lists
  results : state.results = view.results
  texts : ∀ path, files path → state.textAt? workspace path = view.text? path

variable {state next final : RunState} {session ready middle after last : Session} {step : Step}
  {backup ask : Bool} {view seen : View} {files : Path → Prop}

theorem shows_startState (files : Path → Prop) (checkpoint : Option Checkpoint)
    (workspace : Workspace) :
    Shows files (startState checkpoint) workspace
      (View.atStart (startState checkpoint).lists workspace) where
  lists := rfl
  results := startState_results checkpoint
  texts := fun path _ => by
    simp [RunState.textAt?, RunState.buffer?, startState_buffers, View.atStart]

theorem Shows.of_quiet (shows : Shows files state session.workspace view)
    (quiet : session.Quiet after) : Shows files state after.workspace view :=
  quiet.workspace ▸ shows

theorem Shows.record (shows : Shows files state workspace view) (step : Step) (status : StepStatus)
    (error : Option String) (size : Option EditSize) :
    Shows files (state.record step status error size) workspace
      (view.record step status error size) where
  lists := by rw [RunState.lists_record, shows.lists]; rfl
  results := by rw [RunState.record_results, shows.results]; rfl
  texts := fun path among => by
    unfold RunState.textAt?
    rw [RunState.buffer?_congr (RunState.record_buffers ..)]
    exact shows.texts path among

theorem Opens.textAt? {opened : RunState} {content : List Char}
    (buffered : Opens workspace path state opened content) (file : Path) :
    opened.textAt? workspace file = state.textAt? workspace file := by
  by_cases here : file = path
  · subst here
    cases buffered with
    | known found => rfl
    | loaded absent clean read =>
        unfold RunState.textAt?
        rw [absent]
        simp only [RunState.buffer?] at absent ⊢
        rw [List.find?_append, absent]
        simp [clean, read, Except.map]
  · unfold RunState.textAt?
    rw [buffered.buffer?.2 file here]

theorem Opens.shows {opened : RunState} {content : List Char}
    (buffered : Opens workspace path state opened content)
    (shows : Shows files state workspace view) : Shows files opened workspace view where
  lists := buffered.lists.trans shows.lists
  results := buffered.results.trans shows.results
  texts := fun file among => (buffered.textAt? file).trans (shows.texts file among)

theorem Opens.textAt?_self {opened : RunState} {content : List Char}
    (buffered : Opens workspace path state opened content) :
    state.textAt? workspace path = some (.ok content) := by
  rw [← buffered.textAt?]
  obtain ⟨⟨buffer, found, holds⟩, _⟩ := buffered.buffer?
  simp [RunState.textAt?, found, holds]

theorem openBuffer_of_text (step : Step) {content : List Char}
    (text : state.textAt? session.workspace path = some (.ok content)) :
    ∃ opened after, openBuffer state step path session = .ok (.ok (opened, content)) after ∧
      Opens session.workspace path state opened content ∧ session.Quiet after := by
  unfold RunState.textAt? at text
  unfold openBuffer
  cases found : state.buffer? path with
  | some buffer =>
      simp only [found, Option.some.injEq, Except.ok.injEq] at text
      subst text
      exact ⟨state, session, rfl, .known found, .refl _⟩
  | none =>
      simp only [found] at text
      split at text
      · cases text
      · rename_i clean
        have noNull : path.hasNull = false := by simpa using clean
        dsimp only
        rw [Activity.bind_of_ok (Activity.readText_apply noNull)]
        cases read : session.workspace.readText path with
        | error failure =>
            rw [read] at text
            cases text
        | ok whole =>
            rw [read] at text
            cases text
            dsimp only
            rw [Activity.bind_of_ok (Activity.log_apply ..)]
            exact ⟨_, _, rfl, .loaded found noNull read, Activity.log_quiet (Activity.log_apply ..)⟩

theorem openBuffer_of_failure {failure : ReadFailure}
    (text : state.textAt? session.workspace path = some (.error failure)) :
    openBuffer state step path session = .ok (.error (readReason step failure)) session := by
  unfold RunState.textAt? at text
  unfold openBuffer
  cases found : state.buffer? path with
  | some buffer =>
      simp only [found] at text
      cases text
  | none =>
      simp only [found] at text
      split at text
      · cases text
      · rename_i clean
        dsimp only
        rw [Activity.bind_of_ok (Activity.readText_apply (by simpa using clean))]
        cases read : session.workspace.readText path with
        | ok whole =>
            rw [read] at text
            cases text
        | error cause =>
            rw [read] at text
            cases text
            unfold readReason
            cases missing : failure.isMissing with
            | true =>
                simp only [missing, if_true]
                rfl
            | false =>
                simp only [missing, Bool.false_eq_true, if_false]
                rfl

/-- A workspace in which the files read the same shows the same. -/
theorem Shows.of_readText (shows : Shows files state workspace view)
    (same : ∀ path, files path → other.readText path = workspace.readText path) :
    Shows files state other view where
  lists := shows.lists
  results := shows.results
  texts := fun path among => by
    rw [← shows.texts path among]
    unfold RunState.textAt?
    rw [same path among]

theorem Shows.afterEdit {buffer : Buffer} (shows : Shows files state workspace view)
    (found : state.buffer? path = some buffer) (step : Step) (edit : Edit) :
    Shows files (afterEdit state step path edit) workspace
      ((view.setText path edit.content).record step .applied none
        (some ⟨edit.removed, edit.added⟩)) := by
  refine Shows.record ⟨?_, ?_, fun file among => ?_⟩ step _ _ _
  · rw [RunState.lists_keepSideEffect]
    exact shows.lists
  · rw [RunState.keepSideEffect_results]
    exact shows.results
  · unfold RunState.textAt? View.setText
    rw [RunState.buffer?_congr (RunState.keepSideEffect_buffers ..)]
    by_cases here : file = path
    · subst here
      simp [RunState.buffer?_setContent_self edit.content found]
    · rw [RunState.buffer?_setContent_other _ here]
      simp only [if_neg here]
      exact shows.texts file among

theorem isBlocked_eq (shows : Shows files state workspace view) (step : Step) :
    state.isBlocked step =
      step.dependencyList.any fun dependency => dependency.isAmong view.lists.failed := by
  have failed : state.failed = view.lists.failed := congrArg Lists.failed shows.lists
  rw [RunState.isBlocked, failed]

/-- The files that a step may read lie where its backup does not. -/
structure Spares (files : Path → Prop) (project : Path) (step : Step) : Prop where
  among : ∀ key, fileKey? project step.file = some key → files key
  aside : ∀ key, fileKey? project step.file = some key → ∀ path, files path →
    ¬ path.Passes (key.withSuffix ".bak").place

theorem keepCopy_shows (backup : Bool) {buffer : Buffer}
    (shows : Shows files state session.workspace view) (found : state.buffer? path = some buffer)
    (aside : ∀ file, files file → ¬ file.Passes (path.withSuffix ".bak").place) :
    ∃ kept middle, (if backup then backUp state path else pure state) session = .ok kept middle ∧
      kept.buffer? path = some buffer ∧ Shows files kept middle.workspace view := by
  obtain ⟨kept, middle, copied⟩ : ∃ kept middle,
      (if backup then backUp state path else pure state) session = .ok kept middle := by
    cases backup with
    | true => exact succeeds_backUp state path session
    | false => exact ⟨_, _, rfl⟩
  obtain ⟨⟨backedUp, rfl⟩, _, evolved⟩ := backUp_outcome (fun _ => False) copied
  refine ⟨_, middle, copied, found, ?_⟩
  have same : Shows files { state with backedUp } session.workspace view :=
    ⟨shows.lists, shows.results, shows.texts⟩
  have untouched : ∀ file, files file → ∀ place, file.Passes place →
      middle.workspace.get? place = session.workspace.get? place := by
    intro file among place passes
    apply evolved.get?_eq
    rintro rfl
    exact aside file among passes
  apply same.of_readText
  intro file among
  apply Workspace.readText_congr
  apply Workspace.readBytes_congr
  · exact fun place passes => .of_eq (untouched file among place passes)
  · exact untouched file among file.place ⟨file.names, List.prefix_rfl, rfl⟩

theorem process_of_next? (backup : Bool) (shows : Shows files state session.workspace view)
    (spares : Spares files session.project step)
    (computed : view.next? session.project step = some seen) :
    ∃ next after, process backup state step session = .ok next after ∧
      Shows files next after.workspace seen := by
  unfold View.next? at computed
  rw [← isBlocked_eq shows] at computed
  unfold process
  split at computed
  · rename_i blocked
    cases computed
    rw [if_pos blocked, skipBlocked, Activity.bind_of_ok (Activity.log_apply ..)]
    exact ⟨_, _, rfl, shows.record step _ _ _⟩
  · rename_i free
    rw [if_neg free]
    rcases key : fileKey? session.project step.file with _ | path
    · simp [key] at computed
    simp only [key, ← shows.texts path (spares.among path key)] at computed
    unfold applyStep
    rw [Activity.bind_of_ok (pathOf_eq_ok.mpr ⟨key, rfl⟩)]
    rcases text : state.textAt? session.workspace path with _ | failure | content
    · simp [text] at computed
    · simp only [text, Option.some.injEq] at computed
      subst computed
      rw [Activity.bind_of_ok (openBuffer_of_failure text)]
      exact ⟨_, _, rfl, shows.record step _ _ _⟩
    obtain ⟨opened, ready, opening, buffered, quiet⟩ := openBuffer_of_text step text
    have showsOpened := (buffered.shows shows).of_quiet quiet
    rw [Activity.bind_of_ok opening]
    dsimp only
    rcases made : step.edit content with fault | _ | edit
    · simp [text, made] at computed
    · rw [Activity.bind_of_ok (Activity.value_eq_ok.mpr ⟨rfl, rfl⟩)]
      simp only [text, made, Option.some.injEq] at computed
      subst computed
      exact ⟨_, _, rfl, showsOpened.record step _ _ _⟩
    · rw [Activity.bind_of_ok (Activity.value_eq_ok.mpr ⟨rfl, rfl⟩)]
      simp only [text, made, Option.some.injEq] at computed
      subst computed
      obtain ⟨⟨buffer, holding, _⟩, _⟩ := buffered.buffer?
      obtain ⟨kept, middle, copied, holds, showsKept⟩ :=
        keepCopy_shows backup showsOpened holding (spares.aside path key)
      obtain ⟨after, edited, noted⟩ := editing_of_kept step edit copied
      exact ⟨_, after, edited, (showsKept.afterEdit holds step edit).of_quiet noted⟩

theorem next?_isSome_of_process (shows : Shows files state session.workspace view)
    (spares : Spares files session.project step)
    (success : process backup state step session = .ok next after) :
    (view.next? session.project step).isSome = true := by
  unfold View.next?
  rw [← isBlocked_eq shows]
  unfold process at success
  split
  · rfl
  · rename_i free
    rw [if_neg free] at success
    unfold applyStep at success
    obtain ⟨path, _, placed, rest⟩ := Activity.bind_eq_ok.mp success
    obtain ⟨key, rfl⟩ := pathOf_eq_ok.mp placed
    obtain ⟨outcome, ready, opening, rest⟩ := Activity.bind_eq_ok.mp rest
    simp only [key, ← shows.texts path (spares.among path key)]
    obtain ⟨_, ⟨failure, _, clean, absent, unread⟩ | ⟨opened, content, rfl, buffered⟩⟩ :=
      openBuffer_cases opening
    · simp [RunState.textAt?, absent, clean, unread, Except.map]
    · rw [buffered.textAt?_self]
      obtain ⟨edit, _, edited, _⟩ := Activity.bind_eq_ok.mp rest
      obtain ⟨made, rfl⟩ := Activity.value_eq_ok.mp edited
      cases edit <;> simp [made]

/-- An execution that does not ask computes the view of its end. -/
theorem execute_of_view (backup : Bool) (shows : Shows files state session.workspace view)
    (spares : ∀ step ∈ steps, Spares files session.project step)
    (computed : steps.foldlM (View.next? session.project) view = some seen) :
    ∃ final last, execute backup false state steps session = .ok final last ∧
      Shows files final last.workspace seen := by
  induction steps generalizing state session view with
  | nil =>
      cases computed
      exact ⟨state, session, rfl, shows⟩
  | cons step steps induction =>
      obtain ⟨first, later⟩ := List.forall_mem_cons.mp spares
      rw [List.foldlM_cons] at computed
      obtain ⟨between, step?, rest⟩ := Option.bind_eq_some_iff.mp computed
      obtain ⟨next, middle, processed, showsNext⟩ := process_of_next? backup shows first step?
      have project := (process_processed processed).sameSetting.project
      rw [← project] at later rest
      obtain ⟨final, last, executed, showsFinal⟩ := induction showsNext later rest
      refine ⟨final, last, ?_, showsFinal⟩
      rw [execute_cons, Activity.bind_of_ok processed]
      exact executed

/-- The view of the end of an execution that does not ask can be computed. -/
theorem view_of_execute (shows : Shows files state session.workspace view)
    (spares : ∀ step ∈ steps, Spares files session.project step)
    (success : execute backup false state steps session = .ok final last) :
    ∃ seen, steps.foldlM (View.next? session.project) view = some seen ∧
      Shows files final last.workspace seen := by
  induction steps generalizing state session view with
  | nil =>
      unfold execute at success
      obtain ⟨rfl, rfl⟩ := Activity.pure_eq_ok.mp success
      exact ⟨view, rfl, shows⟩
  | cons step steps induction =>
      obtain ⟨first, later⟩ := List.forall_mem_cons.mp spares
      rw [execute_cons] at success
      obtain ⟨next, middle, processed, rest⟩ := Activity.bind_eq_ok.mp success
      obtain ⟨between, computed⟩ :=
        Option.isSome_iff_exists.mp (next?_isSome_of_process shows first processed)
      obtain ⟨_, _, again, showsNext⟩ := process_of_next? backup shows first computed
      rw [processed] at again
      cases again
      have project := (process_processed processed).sameSetting.project
      rw [← project] at later
      obtain ⟨seen, whole, showsFinal⟩ := induction showsNext later rest
      refine ⟨seen, ?_, showsFinal⟩
      rw [List.foldlM_cons, computed, ← project]
      exact whole

/-- An execution in which no step failed or was skipped computes the view after
its first steps, as many as it has results. -/
theorem view_of_applied (shows : Shows files state session.workspace view)
    (spares : ∀ step ∈ steps, Spares files session.project step)
    (success : execute backup ask state steps session = .ok final last)
    (applied : ∀ result ∈ final.results, result.status = .applied) :
    ∃ count seen, final.results.length = state.results.length + count ∧
      (steps.take count).foldlM (View.next? session.project) view = some seen ∧
        Shows files final last.workspace seen := by
  induction steps generalizing ask state session view with
  | nil =>
      unfold execute at success
      obtain ⟨rfl, rfl⟩ := Activity.pure_eq_ok.mp success
      exact ⟨0, view, rfl, rfl, shows⟩
  | cons step steps induction =>
      obtain ⟨decision, next, middle, handled, ⟨rfl, rfl, rfl⟩ | ⟨goesOn, rest⟩⟩ :=
        execute_eq_ok success
      · obtain ⟨_, rfl, quiet⟩ := handled.of_quit
        exact ⟨0, view, rfl, rfl, shows.of_quiet quiet⟩
      · by_cases no : decision = some .no
        · subst no
          obtain ⟨rfl, _⟩ := handled.of_declined
          obtain ⟨_, _, _, executed, _⟩ := execute_executes rest
          obtain ⟨outcomes, results, _⟩ := executed.records
          have skipped : RunState.resultOf step .skipped none none ∈ final.results := by
            rw [results, RunState.record_results]
            simp
          cases applied _ skipped
        · obtain ⟨ready, quiet, processed⟩ := handled.acts goesOn no
          obtain ⟨first, others⟩ := List.forall_mem_cons.mp spares
          rw [← quiet.project] at first others ⊢
          have showsReady := shows.of_quiet quiet
          obtain ⟨between, computed⟩ :=
            Option.isSome_iff_exists.mp (next?_isSome_of_process showsReady first processed)
          obtain ⟨_, _, again, showsNext⟩ := process_of_next? backup showsReady first computed
          rw [processed] at again
          cases again
          have project := (process_processed processed).sameSetting.project
          rw [← project] at others
          obtain ⟨count, seen, grown, whole, showsFinal⟩ := induction showsNext others rest
          obtain ⟨result, recorded, _, _⟩ := (process_processed processed).records
          refine ⟨count + 1, seen, ?_, ?_, showsFinal⟩
          · rw [grown, recorded, List.length_append, List.length_singleton]
            omega
          · rw [List.take_succ_cons, List.foldlM_cons, computed, ← project]
            exact whole

variable {options : MigrationOptions}

theorem executeAll_of_calm (calm : options.interactive = false) (start : RunState)
    (steps : List Step) :
    executeAll options start steps = execute options.backup false start steps := by
  unfold executeAll
  rw [calm]
  rfl

theorem view_of_executeAll (shows : Shows files state session.workspace view)
    (spares : ∀ step ∈ steps, Spares files session.project step)
    (success : executeAll options state steps session = .ok final last)
    (applied : ∀ result ∈ final.results, result.status = .applied) :
    ∃ count seen, final.results.length = state.results.length + count ∧
      (steps.take count).foldlM (View.next? session.project) view = some seen ∧
        Shows files final last.workspace seen := by
  obtain ⟨inner, body, closed, _⟩ := executeAll_eq_ok success
  have begun := conversing_quiet options session
  rw [← begun.project] at spares ⊢
  obtain ⟨count, seen, grown, computed, showsFinal⟩ :=
    view_of_applied (shows.of_quiet begun) spares body applied
  exact ⟨count, seen, grown, computed, showsFinal.of_quiet closed⟩

end Migration

end Restyle
