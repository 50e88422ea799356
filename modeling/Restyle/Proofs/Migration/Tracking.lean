import Restyle.Proofs.Migration.Execution

/-!
# Following one file through an execution

`Tracks` relates a file on disk, its buffer and its text: the file still reads
as it did at the start, and the buffer, once it is there, was loaded from that
and holds the text.  A step of the file turns the text into what its edit makes
of it; a skipped step and a step of another file leave it alone.
-/

namespace Restyle

/-- The text that a step makes of a text: the edited one, or the text itself
when there is no edit. -/
def Step.applyTo (step : Step) (text : List Char) : List Char :=
  match step.edit text with
  | .ok (some edit) => edit.content
  | _ => text

/-- The text that steps make of a text, one after the other. -/
def editInOrder (text : List Char) (steps : List Step) : List Char :=
  steps.foldl (fun current step => step.applyTo current) text

@[simp]
theorem editInOrder_nil (text : List Char) : editInOrder text [] = text := rfl

@[simp]
theorem editInOrder_cons (text : List Char) (step : Step) (steps : List Step) :
    editInOrder text (step :: steps) = editInOrder (step.applyTo text) steps := rfl

/-- What a result tells about its step, apart from the outcome. -/
def Step.subject (step : Step) : Json × Json × String :=
  (step.id, step.file, step.action.description)

/-- The step that a result is about. -/
def StepResult.subject (result : StepResult) : Json × Json × String :=
  (result.stepId, result.file, result.action)

namespace RunState

variable {state : RunState}

@[simp]
theorem mark_results (state : RunState) (id : Json) (status : StepStatus) :
    (state.mark id status).results = state.results := by
  cases status <;> rfl

@[simp]
theorem mark_buffers (state : RunState) (id : Json) (status : StepStatus) :
    (state.mark id status).buffers = state.buffers := by
  cases status <;> rfl

@[simp]
theorem record_buffers (state : RunState) (step : Step) (status : StepStatus)
    (error : Option String) (size : Option EditSize) :
    (state.record step status error size).buffers = state.buffers := by
  simp [record]

/-- The result that is recorded for a step. -/
def resultOf (step : Step) (status : StepStatus) (error : Option String)
    (size : Option EditSize) : StepResult :=
  { stepId := step.id, status, file := step.file, action := step.action.description, error, size }

@[simp]
theorem record_results (state : RunState) (step : Step) (status : StepStatus)
    (error : Option String) (size : Option EditSize) :
    (state.record step status error size).results =
      state.results ++ [resultOf step status error size] := by
  simp [record, resultOf]

@[simp]
theorem keepSideEffect_buffers (state : RunState) (effect : Option SideEffect) :
    (state.keepSideEffect effect).buffers = state.buffers := by
  rcases effect with _ | (_ | _) <;> rfl

@[simp]
theorem keepSideEffect_results (state : RunState) (effect : Option SideEffect) :
    (state.keepSideEffect effect).results = state.results := by
  rcases effect with _ | (_ | _) <;> rfl

theorem buffer?_congr {other : RunState} (same : other.buffers = state.buffers) (path : Path) :
    other.buffer? path = state.buffer? path := by
  rw [buffer?, same, buffer?]

theorem path_of_buffer? {path : Path} {buffer : Buffer} (found : state.buffer? path = some buffer) :
    buffer.path = path := by
  have holds := List.find?_some found
  simpa using holds

theorem buffer?_setContent_self {path : Path} {buffer : Buffer} (content : List Char)
    (found : state.buffer? path = some buffer) :
    (state.setContent path content).buffer? path = some { buffer with content } := by
  unfold buffer? setContent at *
  rw [List.find?_map]
  have same : ((fun other : Buffer => decide (other.path = path)) ∘ fun other =>
      if other.path = path then { other with content } else other) =
        fun other : Buffer => decide (other.path = path) := by
    funext other
    by_cases here : other.path = path
    · simp [here]
    · simp [here]
  rw [same, found]
  have here : buffer.path = path := by simpa using List.find?_some found
  simp [here]

theorem buffer?_setContent_other {path other : Path} (content : List Char) (apart : other ≠ path) :
    (state.setContent path content).buffer? other = state.buffer? other := by
  unfold buffer? setContent
  rw [List.find?_map]
  have same : ((fun buffer : Buffer => decide (buffer.path = other)) ∘ fun buffer =>
      if buffer.path = path then { buffer with content } else buffer) =
        fun buffer : Buffer => decide (buffer.path = other) := by
    funext buffer
    by_cases here : buffer.path = path
    · simp [here]
    · simp [here]
  rw [same]
  cases found : state.buffers.find? fun buffer => decide (buffer.path = other) with
  | none => rfl
  | some buffer =>
      have there : buffer.path = other := by simpa using List.find?_some found
      simp [there, apart]

end RunState

namespace Migration

variable {state opened kept next final : RunState} {session middle after last : Session}
  {step : Step} {steps : List Step} {backup : Bool} {path other : Path}
  {initial text content : List Char}

theorem Opens.results {workspace : Workspace} (buffered : Opens workspace path state opened content) :
    opened.results = state.results := by
  cases buffered <;> rfl

/-- Opening gives the path a buffer and leaves the buffers of other paths. -/
theorem Opens.buffer? {workspace : Workspace} (buffered : Opens workspace path state opened content) :
    (∃ buffer, opened.buffer? path = some buffer ∧ buffer.content = content) ∧
      ∀ other, other ≠ path → opened.buffer? other = state.buffer? other := by
  cases buffered with
  | known found => exact ⟨⟨_, found, rfl⟩, fun _ _ => rfl⟩
  | loaded absent clean read =>
      rename_i text
      unfold RunState.buffer? at *
      constructor
      · refine ⟨⟨path, text.toList, text.toList⟩, ?_, rfl⟩
        rw [List.find?_append, absent]
        simp
      · intro other apart
        simp [List.find?_append, apart.symm]

theorem Opens.bufferPaths {workspace : Workspace}
    (buffered : Opens workspace path state opened content) :
    opened.buffers.map Buffer.path = state.buffers.map Buffer.path ∨
      (state.buffer? path = none ∧ path.hasNull = false ∧
        opened.buffers.map Buffer.path = state.buffers.map Buffer.path ++ [path]) := by
  cases buffered with
  | known found => exact Or.inl rfl
  | loaded absent clean read => exact Or.inr ⟨absent, clean, by simp⟩

theorem Processed.bufferPaths (processed : Processed backup step state session next after) :
    next.buffers.map Buffer.path = state.buffers.map Buffer.path ∨
      ∃ key, fileKey? session.project step.file = some key ∧ state.buffer? key = none ∧
        key.hasNull = false ∧
        next.buffers.map Buffer.path = state.buffers.map Buffer.path ++ [key] := by
  cases processed with
  | blocked _ _ => exact Or.inl (by rw [RunState.record_buffers])
  | declined _ _ => exact Or.inl (by rw [RunState.record_buffers])
  | unreadable _ _ _ _ _ _ => exact Or.inl (by rw [RunState.fail, RunState.record_buffers])
  | unlocated _ known buffered _ _ =>
      rw [RunState.fail, RunState.record_buffers]
      rcases buffered.bufferPaths with same | ⟨absent, clean, added⟩
      · exact Or.inl same
      · exact Or.inr ⟨_, known, absent, clean, added⟩
  | edited free known buffered made before copied quiet =>
      rename_i opened kept ready middle key content edit
      obtain ⟨⟨backedUp, rfl⟩, _, _⟩ := backUp_outcome (fun _ => False) copied
      have paths : ∀ buffers : List Buffer,
          (buffers.map fun buffer =>
            if buffer.path = key then { buffer with content := edit.content }
            else buffer).map Buffer.path = buffers.map Buffer.path := by
        intro buffers
        rw [List.map_map]
        apply List.map_congr_left
        intro buffer _
        dsimp only [Function.comp]
        split <;> rfl
      rw [afterEdit, RunState.record_buffers, RunState.keepSideEffect_buffers,
        RunState.setContent, paths]
      rcases buffered.bufferPaths with same | ⟨absent, clean, added⟩
      · exact Or.inl same
      · exact Or.inr ⟨_, known, absent, clean, added⟩

theorem not_mem_bufferPaths (absent : state.buffer? path = none) :
    path ∉ state.buffers.map Buffer.path := by
  intro listed
  obtain ⟨buffer, member, rfl⟩ := List.mem_map.mp listed
  have other := List.find?_eq_none.mp absent buffer member
  simp at other

/-- An execution keeps one buffer for each file, and only for files of its steps
that can be opened. -/
theorem Executes.bufferPaths (executed : Executes backup state session steps final last)
    (distinct : (state.buffers.map Buffer.path).Nodup) :
    (final.buffers.map Buffer.path).Nodup ∧
      ∀ path ∈ final.buffers.map Buffer.path, path ∈ state.buffers.map Buffer.path ∨
        path.hasNull = false ∧
          ∃ step ∈ steps, fileKey? session.project step.file = some path := by
  induction executed with
  | nil _ => exact ⟨distinct, fun path member => Or.inl member⟩
  | @cons state next final session middle last step steps first later induction =>
      rcases first.bufferPaths with same | ⟨key, known, absent, clean, added⟩
      · rw [same] at induction
        obtain ⟨distinctFinal, sources⟩ := induction distinct
        refine ⟨distinctFinal, fun path member => ?_⟩
        rcases sources path member with old | ⟨clean, step, among, known⟩
        · exact Or.inl old
        · rw [first.sameSetting.project] at known
          exact Or.inr ⟨clean, step, List.mem_cons_of_mem _ among, known⟩
      · have distinctNext : (next.buffers.map Buffer.path).Nodup := by
          rw [added, List.nodup_append]
          refine ⟨distinct, by simp, ?_⟩
          rintro old member new fresh rfl
          rw [List.mem_singleton.mp fresh] at member
          exact not_mem_bufferPaths absent member
        obtain ⟨distinctFinal, sources⟩ := induction distinctNext
        refine ⟨distinctFinal, fun path member => ?_⟩
        rcases sources path member with old | ⟨cleanLater, step, among, found⟩
        · rw [added] at old
          rcases List.mem_append.mp old with before | here
          · exact Or.inl before
          · rw [List.mem_singleton.mp here]
            exact Or.inr ⟨clean, _, List.mem_cons_self, known⟩
        · rw [first.sameSetting.project] at found
          exact Or.inr ⟨cleanLater, step, List.mem_cons_of_mem _ among, found⟩

theorem buffer?_afterEdit (kept : RunState) (step : Step) (key : Path) (edit : Edit) (path : Path) :
    (afterEdit kept step key edit).buffer? path =
      (kept.setContent key edit.content).buffer? path := by
  rw [afterEdit, RunState.buffer?_congr (RunState.record_buffers ..),
    RunState.buffer?_congr (RunState.keepSideEffect_buffers ..)]

/-- The file of a path as a run sees it. -/
structure Tracks (path : Path) (initial : List Char) (state : RunState) (workspace : Workspace)
    (text : List Char) : Prop where
  disk : workspace.readText path = .ok (String.ofList initial)
  buffered : (state.buffer? path = none ∧ text = initial) ∨
    ∃ buffer, state.buffer? path = some buffer ∧ buffer.loaded = initial ∧ buffer.content = text

theorem Tracks.of_buffer? (tracked : Tracks path initial state session.workspace text)
    {workspace : Workspace} (disk : workspace.readText path = session.workspace.readText path)
    (same : next.buffer? path = state.buffer? path) : Tracks path initial next workspace text where
  disk := disk.trans tracked.disk
  buffered := same ▸ tracked.buffered

/-- A tracked file can be opened, and what is opened is its text. -/
theorem Tracks.opens {workspace : Workspace} (tracked : Tracks path initial state workspace text)
    (buffered : Opens workspace path state opened content) :
    content = text ∧ ∃ buffer, opened.buffer? path = some buffer ∧ buffer.loaded = initial := by
  cases buffered with
  | known found =>
      rcases tracked.buffered with ⟨absent, _⟩ | ⟨buffer, same, loaded, holds⟩
      · rw [absent] at found
        cases found
      · have equal := Option.some.inj (found.symm.trans same)
        subst equal
        exact ⟨holds, _, same, loaded⟩
  | loaded absent clean read =>
      have loaded := tracked.disk
      rw [read] at loaded
      cases loaded
      rcases tracked.buffered with ⟨_, start⟩ | ⟨buffer, found, _⟩
      · refine ⟨by simp [start], ⟨path, initial, initial⟩, ?_, rfl⟩
        unfold RunState.buffer? at *
        rw [List.find?_append, absent]
        simp
      · rw [absent] at found
        cases found

/-- What one processed step does to a file: the place of its backup apart, a
step on the file edits its text, and any other leaves it. -/
theorem Processed.tracks (processed : Processed backup step state session next after)
    (apart : ∀ key, fileKey? session.project step.file = some key →
      (key.withSuffix ".bak").place ≠ path.place)
    (tracked : Tracks path initial state session.workspace text) :
    ∃ result, next.results = state.results ++ [result] ∧ result.subject = step.subject ∧
        if result.status ≠ .skipped ∧ fileKey? session.project step.file = some path then
          (result.status = .applied ↔ ∃ edit, step.edit text = .ok (some edit)) ∧
            (result.status = .failed ↔ step.edit text = .ok none) ∧
              Tracks path initial next after.workspace (step.applyTo text)
        else Tracks path initial next after.workspace text := by
  cases processed with
  | blocked dependency quiet =>
      refine ⟨_, RunState.record_results .., rfl, ?_⟩
      rw [if_neg (by simp [RunState.resultOf])]
      exact tracked.of_buffer? (by rw [quiet.workspace])
        (RunState.buffer?_congr (RunState.record_buffers ..) path)
  | declined free quiet =>
      refine ⟨_, RunState.record_results .., rfl, ?_⟩
      rw [if_neg (by simp [RunState.resultOf])]
      exact tracked.of_buffer? (by rw [quiet.workspace])
        (RunState.buffer?_congr (RunState.record_buffers ..) path)
  | unreadable free known clean absent unread quiet =>
      rename_i key failure
      have elsewhere : key ≠ path := by
        rintro rfl
        rw [tracked.disk] at unread
        cases unread
      refine ⟨_, RunState.record_results .., rfl, ?_⟩
      rw [if_neg (by simp [known, elsewhere])]
      exact tracked.of_buffer? (by rw [quiet.workspace])
        (RunState.buffer?_congr (RunState.record_buffers ..) path)
  | unlocated free known buffered missed quiet =>
      rename_i opened key content
      refine ⟨RunState.resultOf step .failed
        (some ("Could not locate target at line " ++ toString step.line)) none, ?_, rfl, ?_⟩
      · rw [RunState.fail, RunState.record_results, buffered.results]
      · by_cases here : key = path
        · subst key
          obtain ⟨rfl, buffer, found, loaded⟩ := tracked.opens buffered
          obtain ⟨⟨other, found', holds⟩, _⟩ := buffered.buffer?
          obtain rfl := Option.some.inj (found.symm.trans found')
          rw [if_pos ⟨by simp [RunState.resultOf], known⟩]
          refine ⟨by simp [RunState.resultOf, missed], by simp [RunState.resultOf, missed], ?_⟩
          have unchanged : step.applyTo content = content := by simp [Step.applyTo, missed]
          rw [unchanged]
          exact ⟨quiet.workspace ▸ tracked.disk, Or.inr ⟨buffer,
            (RunState.buffer?_congr (RunState.record_buffers ..) path).trans found, loaded, holds⟩⟩
        · rw [if_neg (by simp [known, here])]
          exact tracked.of_buffer? (by rw [quiet.workspace])
            ((RunState.buffer?_congr (RunState.record_buffers ..) path).trans
              (buffered.buffer?.2 path (Ne.symm here)))
  | edited free known buffered made before copied quiet =>
      rename_i opened kept ready middle key content edit
      obtain ⟨⟨backedUp, rfl⟩, _, evolved⟩ := backUp_outcome (fun _ => False) copied
      have disk : after.workspace.readText path = .ok (String.ofList initial) := by
        rw [quiet.workspace]
        exact evolved.readText (apart key known).symm (before.workspace ▸ tracked.disk)
      refine ⟨RunState.resultOf step .applied none (some ⟨edit.removed, edit.added⟩), ?_, rfl, ?_⟩
      · rw [afterEdit, RunState.record_results, RunState.keepSideEffect_results]
        show opened.results ++ _ = _
        rw [buffered.results]
      · by_cases here : key = path
        · subst key
          obtain ⟨rfl, buffer, found, loaded⟩ := tracked.opens buffered
          rw [if_pos ⟨by simp [RunState.resultOf], known⟩]
          refine ⟨by simp [RunState.resultOf, made], by simp [RunState.resultOf, made], disk,
            Or.inr ⟨{ buffer with content := edit.content }, ?_, loaded, ?_⟩⟩
          · rw [buffer?_afterEdit]
            exact RunState.buffer?_setContent_self edit.content found
          · simp [Step.applyTo, made]
        · rw [if_neg (by simp [known, here])]
          refine ⟨disk, ?_⟩
          rw [buffer?_afterEdit, RunState.buffer?_setContent_other _ (Ne.symm here)]
          have untouched := buffered.buffer?.2 path (Ne.symm here)
          exact untouched ▸ tracked.buffered

/-- The pairs of a step and its result that concern a file and were not
skipped. -/
def attemptedOn (project path : Path) (pairs : List (Step × StepResult)) :
    List (Step × StepResult) :=
  pairs.filter fun pair =>
    pair.2.status ≠ .skipped ∧ fileKey? project pair.1.file = some path

/-- Whether results are those of editing a text in order: applied where the step
finds its target in the text it meets, and failed where it does not. -/
def Accounts : List Char → List (Step × StepResult) → Prop
  | _, [] => True
  | text, (step, result) :: later =>
      (result.status = .applied ↔ ∃ edit, step.edit text = .ok (some edit)) ∧
        (result.status = .failed ↔ step.edit text = .ok none) ∧
          Accounts (step.applyTo text) later

/-- An execution edits the text of a file with the steps on that file that are
not skipped, and its results account for that. -/
theorem Executes.tracks (executed : Executes backup state session steps final last)
    (apart : ∀ step ∈ steps, ∀ key, fileKey? session.project step.file = some key →
      (key.withSuffix ".bak").place ≠ path.place)
    (tracked : Tracks path initial state session.workspace text) :
    ∃ outcomes, final.results = state.results ++ outcomes ∧
      outcomes.map StepResult.subject = steps.map Step.subject ∧
        Accounts text (attemptedOn session.project path (steps.zip outcomes)) ∧
          Tracks path initial final last.workspace
            (editInOrder text
              ((attemptedOn session.project path (steps.zip outcomes)).map Prod.fst)) := by
  induction executed generalizing text with
  | nil quiet =>
      refine ⟨[], by simp, rfl, trivial, ?_⟩
      exact ⟨quiet.workspace ▸ tracked.disk, tracked.buffered⟩
  | @cons state next final session middle last step steps first later induction =>
      have setting := first.sameSetting
      obtain ⟨result, recorded, about, effect⟩ :=
        first.tracks (apart step List.mem_cons_self) tracked
      have apartLater : ∀ step ∈ steps, ∀ key, fileKey? middle.project step.file = some key →
          (key.withSuffix ".bak").place ≠ path.place := by
        intro step member key known
        rw [setting.project] at known
        exact apart step (List.mem_cons_of_mem _ member) key known
      by_cases concerned :
          result.status ≠ .skipped ∧ fileKey? session.project step.file = some path
      · rw [if_pos concerned] at effect
        obtain ⟨applied, failed, trackedNext⟩ := effect
        obtain ⟨outcomes, results, subjects, accounted, trackedFinal⟩ :=
          induction apartLater trackedNext
        rw [setting.project] at accounted trackedFinal
        have attempted : attemptedOn session.project path ((step :: steps).zip (result :: outcomes)) =
            (step, result) :: attemptedOn session.project path (steps.zip outcomes) := by
          simp [attemptedOn, concerned]
        refine ⟨result :: outcomes, by simp [results, recorded], by simp [about, subjects], ?_, ?_⟩
        · rw [attempted]
          exact ⟨applied, failed, accounted⟩
        · rw [attempted]
          exact trackedFinal
      · rw [if_neg concerned] at effect
        obtain ⟨outcomes, results, subjects, accounted, trackedFinal⟩ := induction apartLater effect
        rw [setting.project] at accounted trackedFinal
        have attempted : attemptedOn session.project path ((step :: steps).zip (result :: outcomes)) =
            attemptedOn session.project path (steps.zip outcomes) := by
          simp only [attemptedOn, List.zip_cons_cons]
          rw [List.filter_cons_of_neg]
          simpa using concerned
        refine ⟨result :: outcomes, by simp [results, recorded], by simp [about, subjects], ?_, ?_⟩
        · rw [attempted]
          exact accounted
        · rw [attempted]
          exact trackedFinal

end Migration

end Restyle
