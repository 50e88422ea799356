import Restyle.Proofs.Computation
import Restyle.Proofs.Migration.Insertions
import Restyle.Proofs.Migration.Presence
import Restyle.Proofs.Migration.Progress

/-!
# What the stylesheet receives

A declaration goes with some edits.  A run collects the declarations while it
processes its steps, and adds them to the stylesheet after the files have been
written out.  The steps whose declarations are added are those whose edit was
made, which the size in their results tells.  They are the applied steps when
every file is accepted; a step whose file is refused becomes a failure, and its
declaration is added all the same.
-/

namespace Restyle

variable {step : Step} {content : List Char} {edit : Edit}

/-- The declaration that goes with the edit of a step. -/
def Step.declaration? (step : Step) : Option SideEffect :=
  match step.action with
  | .extract (.text pattern) (.text utility) => some (.utility (utilityBlock utility pattern))
  | .tokenize (.text value) token => some (.token (tokenDeclaration value.toList token.shown))
  | _ => none

/-- The declaration hangs on the step alone, not on the text that is edited. -/
theorem Step.edit_sideEffect (made : step.edit content = .ok (some edit)) :
    edit.sideEffect = step.declaration? := by
  unfold Step.declaration?
  cases Step.edits_of_edit made with
  | replaced action | extracted action | tokenized action | removed action => rw [action]

/-- The token that a step declares. -/
def Step.token? (step : Step) : Option String :=
  match step.declaration? with
  | some (.token declaration) => some declaration
  | _ => none

/-- The utility that a step declares. -/
def Step.utility? (step : Step) : Option String :=
  match step.declaration? with
  | some (.utility block) => some block
  | _ => none

theorem RunState.keepSideEffect_tokens (state : RunState) (step : Step) :
    (state.keepSideEffect step.declaration?).tokenDeclarations =
      state.tokenDeclarations ++ step.token?.toList := by
  unfold Step.token?
  rcases step.declaration? with _ | (block | declaration)
  · exact (List.append_nil _).symm
  · exact (List.append_nil _).symm
  · rfl

theorem RunState.keepSideEffect_utilities (state : RunState) (step : Step) :
    (state.keepSideEffect step.declaration?).utilityBlocks =
      state.utilityBlocks ++ step.utility?.toList := by
  unfold Step.utility?
  rcases step.declaration? with _ | (block | declaration)
  · exact (List.append_nil _).symm
  · rfl
  · exact (List.append_nil _).symm

namespace Migration

variable {options : MigrationOptions} {layout : Layout} {index : IndexRebuild} {task : Task}
  {report : RunReport} {state opened next final : RunState}
  {session started middle committed styled after last : Session} {steps : List Step}
  {backup : Bool} {path : Path} {written files : List Path} {refused : List (Path × String)}
  {warnings : List String}

/-- The steps whose edit was made, as the sizes in their results tell. -/
def editedSteps (pairs : List (Step × StepResult)) : List Step :=
  (pairs.filter fun pair => pair.2.size.isSome).map Prod.fst

theorem editedSteps_cons (pair : Step × StepResult) (pairs : List (Step × StepResult)) :
    editedSteps (pair :: pairs) = editedSteps [pair] ++ editedSteps pairs := by
  unfold editedSteps
  rw [← List.map_append, ← List.filter_append]
  rfl

def appliedSteps (pairs : List (Step × StepResult)) : List Step :=
  (pairs.filter fun pair => pair.2.status = .applied).map Prod.fst

theorem Processed.declares (processed : Processed backup step state session next after) :
    ∃ result, next.results = state.results ++ [result] ∧ result.subject = step.subject ∧
      (result.size.isSome = true ↔ result.status = .applied) ∧
        next.tokenDeclarations = state.tokenDeclarations ++
          (editedSteps [(step, result)]).filterMap Step.token? ∧
        next.utilityBlocks = state.utilityBlocks ++
          (editedSteps [(step, result)]).filterMap Step.utility? := by
  have recorded : ∀ (state : RunState) {status error}, status ≠ .applied →
      ∃ result, (state.record step status error none).results = state.results ++ [result] ∧
        result.subject = step.subject ∧ (result.size.isSome = true ↔ result.status = .applied) ∧
        (state.record step status error none).tokenDeclarations = state.tokenDeclarations ++
          (editedSteps [(step, result)]).filterMap Step.token? ∧
        (state.record step status error none).utilityBlocks = state.utilityBlocks ++
          (editedSteps [(step, result)]).filterMap Step.utility? := by
    intro state status error other
    refine ⟨_, RunState.record_results .., rfl, by simp [RunState.resultOf, other], ?_, ?_⟩
    · cases status <;> simp [editedSteps, RunState.resultOf, RunState.record, RunState.mark]
    · cases status <;> simp [editedSteps, RunState.resultOf, RunState.record, RunState.mark]
  cases processed with
  | blocked _ _ => exact recorded state (by decide)
  | declined _ _ => exact recorded state (by decide)
  | unreadable _ _ _ _ _ _ => exact recorded state (by decide)
  | unlocated _ _ buffered _ _ =>
      cases buffered with
      | known _ => exact recorded state (by decide)
      | loaded _ _ _ => exact recorded { state with buffers := _ } (by decide)
  | edited free known buffered made before copied quiet =>
      rename_i opened kept ready middle key content edit
      obtain ⟨⟨backedUp, rfl⟩, _⟩ := backUp_outcome (fun _ => True) copied
      have sameTokens : opened.tokenDeclarations = state.tokenDeclarations := by
        cases buffered <;> rfl
      have sameBlocks : opened.utilityBlocks = state.utilityBlocks := by
        cases buffered <;> rfl
      refine ⟨RunState.resultOf step .applied none (some ⟨edit.removed, edit.added⟩), ?_, rfl,
        by simp [RunState.resultOf], ?_, ?_⟩
      · rw [afterEdit_results]
        exact congrArg (· ++ _) buffered.results
      · rw [afterEdit, Step.edit_sideEffect made, ← sameTokens]
        exact (RunState.keepSideEffect_tokens ..).trans (by
          cases declared : step.token? <;>
            simp [editedSteps, RunState.resultOf, RunState.setContent, declared])
      · rw [afterEdit, Step.edit_sideEffect made, ← sameBlocks]
        exact (RunState.keepSideEffect_utilities ..).trans (by
          cases declared : step.utility? <;>
            simp [editedSteps, RunState.resultOf, RunState.setContent, declared])

/-- An execution collects the declarations of the steps whose edit was made. -/
theorem Executes.declares (executed : Executes backup state session steps final last) :
    ∃ outcomes, final.results = state.results ++ outcomes ∧
      outcomes.map StepResult.subject = steps.map Step.subject ∧
        (∀ result ∈ outcomes, result.size.isSome = true ↔ result.status = .applied) ∧
          final.tokenDeclarations = state.tokenDeclarations ++
            (editedSteps (steps.zip outcomes)).filterMap Step.token? ∧
          final.utilityBlocks = state.utilityBlocks ++
            (editedSteps (steps.zip outcomes)).filterMap Step.utility? := by
  induction executed with
  | nil _ => exact ⟨[], by simp, rfl, by simp, by simp [editedSteps], by simp [editedSteps]⟩
  | cons first _ induction =>
      obtain ⟨result, recorded, about, sized, tokens, utilities⟩ := first.declares
      obtain ⟨outcomes, results, subjects, sizes, laterTokens, laterUtilities⟩ := induction
      refine ⟨result :: outcomes, by simp [results, recorded], by simp [about, subjects],
        List.forall_mem_cons.mpr ⟨sized, sizes⟩, ?_, ?_⟩
      · rw [laterTokens, tokens, List.append_assoc, ← List.filterMap_append, ← editedSteps_cons,
          List.zip_cons_cons]
      · rw [laterUtilities, utilities, List.append_assoc, ← List.filterMap_append,
          ← editedSteps_cons, List.zip_cons_cons]

theorem Commits.declarations {buffers : List Buffer}
    (commitment : Commits state session buffers final last written refused) :
    final.tokenDeclarations = state.tokenDeclarations ∧
      final.utilityBlocks = state.utilityBlocks := by
  have marked : ∀ (project path : Path) (results : List StepResult) (state : RunState),
      (state.markRefused project path results).tokenDeclarations = state.tokenDeclarations ∧
        (state.markRefused project path results).utilityBlocks = state.utilityBlocks := by
    intro project path results
    induction results with
    | nil => exact fun state => ⟨rfl, rfl⟩
    | cons result results induction =>
        intro state
        rw [RunState.markRefused, List.foldl_cons]
        split
        · exact induction _
        · exact induction _
  induction commitment with
  | nil => exact ⟨rfl, rfl⟩
  | unchanged _ _ induction => exact induction
  | stored _ _ _ _ induction => exact induction
  | refused _ _ _ _ induction =>
      exact ⟨induction.1.trans (marked ..).1, induction.2.trans (marked ..).2⟩

theorem refuseAll_size (project : Path) (refused : List (Path × String)) (result : StepResult) :
    (refuseAll project refused result).size = result.size := by
  induction refused generalizing result with
  | nil => rfl
  | cons entry refused induction =>
      refine (induction (result.refuse project entry.1 entry.2)).trans ?_
      unfold StepResult.refuse
      split <;> rfl

/-- The text of a file, which is empty if it cannot be read. -/
def textAt (workspace : Workspace) (path : Path) : String :=
  match workspace.readText path with
  | .ok text => text
  | .error _ => ""

theorem textAt_of_evolves {touched : Place → Prop} {before after : Workspace}
    (evolved : Workspace.Evolves touched (fun _ => False) before after)
    (untouched : ¬ touched path.place) : textAt after path = textAt before path := by
  unfold textAt
  cases early : before.readText path with
  | ok text => rw [evolved.readText untouched early]
  | error failure =>
      cases late : after.readText path with
      | ok text =>
          rw [evolved.symm.readText untouched late] at early
          cases early
      | error other => rfl

/-- A stylesheet with the declarations of a run. -/
def restyled (old : String) (tokens utilities : List String) : String :=
  withUtilities (withTokens old tokens) utilities

theorem appendDeclarations_eq_ok {stylesheet : Path}
    (success : appendDeclarations stylesheet state session = .ok () after) :
    ∃ wrote, Activity.writeFile stylesheet
        (restyled (textAt session.workspace stylesheet) state.tokenDeclarations
          state.utilityBlocks) session = .ok () wrote ∧ wrote.Quiet after := by
  unfold appendDeclarations at success
  obtain ⟨outcome, ready, read, rest⟩ := Activity.bind_eq_ok.mp success
  obtain ⟨clean, known, rfl⟩ := Activity.readText_eq_ok.mp read
  unfold textAt
  rw [← known]
  cases outcome with
  | ok text =>
      obtain ⟨old, _, chosen, rest⟩ := Activity.bind_eq_ok.mp rest
      obtain ⟨rfl, rfl⟩ := Activity.pure_eq_ok.mp chosen
      obtain ⟨_, wrote, writing, logged⟩ := Activity.bind_eq_ok.mp rest
      exact ⟨wrote, writing, Activity.log_quiet logged⟩
  | error failure =>
      cases missing : failure.isMissing with
      | false =>
          simp only [missing, Bool.false_eq_true, if_false] at rest
          cases rest
      | true =>
          simp only [missing, if_true] at rest
          obtain ⟨old, _, chosen, rest⟩ := Activity.bind_eq_ok.mp rest
          obtain ⟨rfl, rfl⟩ := Activity.pure_eq_ok.mp chosen
          obtain ⟨_, wrote, writing, logged⟩ := Activity.bind_eq_ok.mp rest
          exact ⟨wrote, writing, Activity.log_quiet logged⟩

/-- Without a warning, a run with declarations has written them to the
stylesheet, and a run without any has left it alone. -/
theorem updateStylesheet_eq_ok {stylesheet : Path}
    (success : updateStylesheet stylesheet state written session = .ok (files, []) after) :
    if state.tokenDeclarations = [] ∧ state.utilityBlocks = [] then session = after
    else ∃ wrote, Activity.writeFile stylesheet
        (restyled (textAt session.workspace stylesheet) state.tokenDeclarations
          state.utilityBlocks) session = .ok () wrote ∧ wrote.Quiet after := by
  cases updateStylesheet_updates success with
  | nothing none => rw [if_pos none]
  | appended some success =>
      rw [if_neg some]
      exact appendDeclarations_eq_ok success

theorem conclude_warnings (success : conclude layout task state files warnings session =
    .ok report after) : report.warnings = warnings := by
  unfold conclude at success
  obtain ⟨stamp, _, _, rest⟩ := Activity.bind_eq_ok.mp success
  obtain ⟨_, _, _, rest⟩ := Activity.bind_eq_ok.mp rest
  obtain ⟨rfl, _⟩ := Activity.pure_eq_ok.mp rest
  rfl

theorem editedSteps_refuseAll (project : Path) (refused : List (Path × String))
    (steps : List Step) (outcomes : List StepResult) :
    editedSteps (steps.zip (outcomes.map (refuseAll project refused))) =
      editedSteps (steps.zip outcomes) := by
  unfold editedSteps
  rw [List.zip_map_right, List.filter_map, List.map_map]
  have same : ((fun pair : Step × StepResult => pair.2.size.isSome) ∘
      Prod.map id (refuseAll project refused)) = fun pair => pair.2.size.isSome := by
    funext pair
    exact congrArg Option.isSome (refuseAll_size project refused pair.2)
  rw [same]
  rfl

/-- What a run without warnings has made of the stylesheet.  The declarations of
the steps whose edit was made stand at its end; before them stands what the
stylesheet held, as long as no step reaches it. -/
structure Styles (layout : Layout) (steps : List Step) (session : Session) (report : RunReport)
    (after : Session) : Prop where
  declared : let edited := editedSteps (steps.zip report.results)
    ∃ old, (OutOfReach session steps layout.stylesheet.place →
        old = textAt session.workspace layout.stylesheet) ∧
      if edited.filterMap Step.token? = [] ∧ edited.filterMap Step.utility? = [] then
        OutOfReach session steps layout.stylesheet.place →
          session.workspace.Keeps after.workspace layout.stylesheet.place
      else
        after.workspace.readBytes layout.stylesheet = .ok (Text.encode
          (restyled old (edited.filterMap Step.token?) (edited.filterMap Step.utility?)).toList)
  applied : ∀ pair ∈ steps.zip report.results, pair.2.status = .applied → pair.2.size.isSome = true
  edited : ∀ pair ∈ steps.zip report.results, pair.2.size.isSome = true →
    pair.2.status = .applied ∨ pair.2.status = .failed ∧
      ∃ key, fileKey? session.project pair.1.file = some key ∧ ¬ session.Accepts key

/-- Once its edits are written out, a run has gathered the declarations of the
steps that it has edited. -/
theorem Commits.declares {next : RunState} {middle : Session} {cut : List Step}
    {done : List Step} (split : steps = done ++ cut)
    (execution : Executes backup (startState task.checkpoint) session done executed middle)
    (commitment : Commits executed middle executed.buffers next committed written refused) :
    next.tokenDeclarations = (editedSteps (steps.zip next.results)).filterMap Step.token? ∧
      next.utilityBlocks = (editedSteps (steps.zip next.results)).filterMap Step.utility? := by
  obtain ⟨outcomes, results, subjects, _, tokens, utilities⟩ := execution.declares
  rw [startState_results, List.nil_append] at results
  have edits : editedSteps (steps.zip next.results) = editedSteps (done.zip outcomes) := by
    rw [commitment.results, results, split, zip_cut, editedSteps_refuseAll]
    rw [List.length_map]
    simpa using congrArg List.length subjects
  have noTokens : (startState task.checkpoint).tokenDeclarations = [] := by
    cases task.checkpoint <;> rfl
  have noUtilities : (startState task.checkpoint).utilityBlocks = [] := by
    cases task.checkpoint <;> rfl
  rw [edits, commitment.declarations.1, commitment.declarations.2, tokens, utilities, noTokens,
    noUtilities, List.nil_append, List.nil_append]
  exact ⟨rfl, rfl⟩

/-- The end of a run without warnings adds the declarations to the stylesheet, or
leaves it alone if there are none. -/
theorem ending_declares {committed styled ready : Session}
    (updating : updateStylesheet layout.stylesheet state before committed =
      .ok (files, []) styled)
    (quiet : styled.Quiet ready)
    (conclusion : conclude layout task state files [] ready = .ok report after)
    (beside : layout.stylesheet.place ≠ (Activity.temporaryFor ready layout.checkpoint).place)
    (apart : layout.stylesheet.place ≠ layout.checkpoint.place) :
    if state.tokenDeclarations = [] ∧ state.utilityBlocks = [] then
      committed.workspace.Keeps after.workspace layout.stylesheet.place
    else
      after.workspace.readBytes layout.stylesheet = .ok (Text.encode
        (restyled (textAt committed.workspace layout.stylesheet) state.tokenDeclarations
          state.utilityBlocks).toList) := by
  obtain ⟨_, _, _, _, saving, ended, _⟩ := conclude_eq_ok conclusion
  obtain ⟨_, saved, _⟩ := Activity.writeFile_ok saving
  rw [← ended.workspace, quiet.workspace] at saved
  have untouched := not_or.mpr ⟨beside, apart⟩
  have updated := updateStylesheet_eq_ok updating
  split
  · rename_i none
    rw [if_pos none] at updated
    subst updated
    exact saved.keepsOther _ untouched
  · rename_i some
    rw [if_neg some] at updated
    obtain ⟨stored, writing, noted⟩ := updated
    refine saved.readBytes untouched ?_
    rw [noted.workspace]
    exact (Activity.writeFile_ok writing).2.2

theorem refuseAll_sizes {done : List Step} {outcomes : List StepResult}
    (subjects : outcomes.map StepResult.subject = done.map Step.subject)
    (sizes : ∀ result ∈ outcomes, result.size.isSome = true ↔ result.status = .applied)
    (rejects : ∀ entry ∈ refused, ¬ session.Accepts entry.1) :
    ∀ pair ∈ done.zip (outcomes.map (refuseAll session.project refused)),
      (pair.2.status = .applied → pair.2.size.isSome = true) ∧
        (pair.2.size.isSome = true →
          pair.2.status = .applied ∨ pair.2.status = .failed ∧
            ∃ key, fileKey? session.project pair.1.file = some key ∧ ¬ session.Accepts key) := by
  intro pair member
  rw [List.zip_map_right] at member
  obtain ⟨⟨step, old⟩, among, rfl⟩ := List.mem_map.mp member
  have file : old.file = step.file := congrArg (·.2.1) (subject_of_zip subjects among)
  simp only [Prod.map_fst, Prod.map_snd, id, refuseAll_size, refuseAll_status,
    sizes old (List.of_mem_zip among).2]
  split
  · rename_i rejected
    obtain ⟨entry, listed, _, known⟩ := rejected
    exact ⟨nofun, fun _ => Or.inr ⟨rfl, entry.1, file ▸ known, rejects entry listed⟩⟩
  · exact ⟨id, Or.inl⟩

theorem Applies.styles (applies : Applies options layout task session report after)
    (fresh : FreshTag session task.steps)
    (apart : layout.stylesheet.place ≠ layout.checkpoint.place)
    (unnamed : session.temporaryName ∉ layout.stylesheet.place) (unwarned : report.warnings = []) :
    Styles layout task.steps session report after := by
  cases applies with
  | @intro done cut executed state written files refused warnings _ _ middle committed styled
      ready _ split whole execution commitment updating setting _ quiet conclusion =>
      obtain rfl := (conclude_warnings conclusion).symm.trans unwarned
      have within : ∀ step ∈ done, step ∈ task.steps := by
        intro step member
        rw [split]
        exact List.mem_append_left _ member
      obtain ⟨outcomes, results, subjects, sizes, _⟩ := execution.declares
      rw [startState_results, List.nil_append] at results
      obtain ⟨_, _, _, _, _, _, reported, _⟩ := conclude_eq_ok conclusion
      have refusals : report.results = outcomes.map (refuseAll session.project refused) := by
        rw [reported, commitment.results, results, execution.sameSetting.project]
      have aligned : report.results.length = done.length := by
        rw [refusals, List.length_map]
        simpa using congrArg List.length subjects
      have pairs : task.steps.zip report.results = done.zip report.results := by
        rw [split]
        exact zip_cut aligned cut
      have settingReady : session.SameSetting ready :=
        ((execution.sameSetting.trans commitment.sameSetting).trans setting).trans
          quiet.toSameSetting
      have beside : layout.stylesheet.place ≠
          (Activity.temporaryFor ready layout.checkpoint).place := by
        intro same
        apply unnamed
        rw [same, settingReady.temporaryFor, Session.temporaryFor_place fresh.plain]
        simp
      have spared := commitment.spares fresh within (startState_buffers _) execution
      have declares := ending_declares updating quiet conclusion beside apart
      obtain ⟨tokens, utilities⟩ := commitment.declares split execution
      rw [tokens, utilities, ← reported] at declares
      have told := refuseAll_sizes subjects sizes fun entry listed accepted =>
        commitment.rejects (execution.sameSetting.hasPlainTag fresh.plain)
          (execution.writable fresh within (startState_buffers _)) entry listed
          (execution.sameSetting.accepts accepted)
      rw [← refusals, ← pairs] at told
      refine ⟨⟨textAt committed.workspace layout.stylesheet, fun away =>
        textAt_of_evolves spared fun reached => reached away, ?_⟩, fun pair member =>
          (told pair member).1, fun pair member => (told pair member).2⟩
      split
      · rename_i none
        rw [if_pos none] at declares
        intro away
        exact Workspace.Keeps.trans (spared.keepsOther _ fun reached => reached away) declares
      · rename_i some
        rw [if_neg some] at declares
        exact declares

theorem OutOfReach.of_quiet {place : Place} (away : OutOfReach session steps place)
    (quiet : session.Quiet after) : OutOfReach after steps place where
  notFile := by
    rw [quiet.project]
    exact away.notFile
  notBackup := by
    rw [quiet.project]
    exact away.notBackup
  notTemporary := by
    rw [quiet.temporaryName]
    exact away.notTemporary

/-- Only steps whose file is refused are edited and not applied. -/
theorem Styles.editedSteps_eq (styles : Styles layout steps session report after)
    (accepted : ∀ step ∈ steps, ∀ key, fileKey? session.project step.file = some key →
      session.Accepts key) :
    editedSteps (steps.zip report.results) = appliedSteps (steps.zip report.results) := by
  unfold editedSteps appliedSteps
  congr 1
  apply List.filter_congr
  intro pair member
  rw [Bool.eq_iff_iff, decide_eq_true_iff]
  constructor
  · intro made
    rcases styles.edited pair member made with applied | ⟨_, key, known, rejected⟩
    · exact applied
    · exact absurd (accepted pair.1 (List.of_mem_zip member).1 key known) rejected
  · exact styles.applied pair member

theorem Styles.of_quiet (quiet : session.Quiet started)
    (styles : Styles layout steps started report after) :
    Styles layout steps session report after where
  declared := by
    obtain ⟨old, before, declared⟩ := styles.declared
    rw [quiet.workspace] at before declared
    refine ⟨old, fun away => before (away.of_quiet quiet), ?_⟩
    split
    · rename_i none
      rw [if_pos none] at declared
      exact fun away => declared (away.of_quiet quiet)
    · rename_i some
      rw [if_neg some] at declared
      exact declared
  applied := styles.applied
  edited := fun pair member made => by
    rcases styles.edited pair member made with applied | ⟨failed, key, known, rejected⟩
    · exact Or.inl applied
    · exact Or.inr ⟨failed, key, quiet.project ▸ known, fun accepted =>
        rejected (quiet.accepts accepted)⟩

/-- A run without warnings adds to the stylesheet the declarations of the steps
whose edit was made, in the order of the schedule and each as often as it is
made.  These steps are the applied ones and those that were edited in vain,
their file being refused: when every file is accepted, the stylesheet receives
the declarations of the applied steps and no others. -/
theorem stylesheet_receives_declarations (applying : options.apply = true)
    (returned : run options layout index session = .ok report after)
    (prepared : prepare options layout session = .ok task started)
    (fresh : FreshTag session task.steps)
    (apart : layout.stylesheet.place ≠ layout.checkpoint.place)
    (unnamed : session.temporaryName ∉ layout.stylesheet.place) (unwarned : report.warnings = []) :
    let pairs := task.steps.zip report.results
    let tokens := (editedSteps pairs).filterMap Step.token?
    let utilities := (editedSteps pairs).filterMap Step.utility?
    (∃ old, (OutOfReach session task.steps layout.stylesheet.place →
        old = textAt session.workspace layout.stylesheet) ∧
      if tokens = [] ∧ utilities = [] then
        OutOfReach session task.steps layout.stylesheet.place →
          session.workspace.Keeps after.workspace layout.stylesheet.place
      else
        after.workspace.readBytes layout.stylesheet =
          .ok (Text.encode (withUtilities (withTokens old tokens) utilities).toList)) ∧
      (∀ pair ∈ pairs, pair.2.size.isSome = true →
        pair.2.status = .applied ∨ pair.2.status = .failed ∧
          ∃ key, fileKey? session.project pair.1.file = some key ∧ ¬ session.Accepts key) ∧
      (∀ pair ∈ pairs, pair.2.status = .applied → pair.2.size.isSome = true) ∧
      ((∀ step ∈ task.steps, ∀ key, fileKey? session.project step.file = some key →
          session.Accepts key) →
        editedSteps pairs = appliedSteps pairs) := by
  have styles : Styles layout task.steps session report after := by
    obtain ⟨other, again, same, course⟩ := run_cases applying returned
    rw [prepared] at same
    cases same
    have quiet := (prepare_eq_ok prepared).2
    rcases course with ⟨none, rfl, rfl⟩ | ⟨_, applies⟩
    · rw [none]
      refine ⟨⟨_, fun _ => rfl, ?_⟩, by simp, by simp⟩
      rw [if_pos ⟨rfl, rfl⟩]
      exact fun _ => Or.inl (by rw [quiet.workspace])
    · exact (applies.styles (fresh.of_quiet quiet) apart (by rw [quiet.temporaryName]; exact unnamed)
        unwarned).of_quiet quiet
  exact ⟨styles.declared, styles.edited, styles.applied, styles.editedSteps_eq⟩

/-- The document of a plan of one step, which makes a token of a class. -/
def tokenPlan : Json :=
  .object
    [("version", .integer 1),
      ("steps", .array
        [.object
          [("id", .text "a"), ("file", .text "f"), ("line", .integer 1), ("ruleId", .text ""),
            ("severity", .text "info"), ("confidence", .integer 1),
            ("action", .object
              [("type", .text "tokenize"), ("value", .text "x"), ("tokenName", .text "--t")])]])]

/-- A project with that plan, in which one file cannot be written. -/
def tokenProject (locked : Path) : Session where
  workspace :=
    ⟨[(["p"], .directory),
      (["p", "plan"], .file (Text.encode (Json.compactText tokenPlan)) 420),
      (["p", "f"], .file (Text.encode "x y".toList) 420)]⟩
  project := ⟨.root, ["p"]⟩
  now := 0
  temporaryTag := "0"
  trouble := fun path => if path = locked then some (.moving, { cause := .noSpace }) else none

/-- The source file of that project. -/
def tokenFile : Path := ⟨.root, ["p", "f"]⟩

/-- What is seen of a run: the files of the steps of its plan, how its steps
ended, the warnings, the declarations, and the stylesheet. -/
structure StylingView where
  files : List Json
  statuses : List StepStatus
  warnings : List String
  tokens : List String
  utilities : List String
  stylesheet : Option (List UInt8)
  deriving DecidableEq

def StylingView.of (layout : Layout) (task : Task) (report : RunReport) (after : Session) :
    StylingView where
  files := task.plan.steps.map Step.file
  statuses := report.results.map StepResult.status
  warnings := report.warnings
  tokens := (editedSteps (task.steps.zip report.results)).filterMap Step.token?
  utilities := (editedSteps (task.steps.zip report.results)).filterMap Step.utility?
  stylesheet := (after.workspace.readBytes layout.stylesheet).toOption

theorem locked_observed :
    observe { apply := true } smallLayout .absent (tokenProject tokenFile)
        (StylingView.of smallLayout) =
      some ⟨[.text "f"], [.failed], [], ["--t: x;"], [],
        some (Text.encode (withTokens "" ["--t: x;"]).toList)⟩ := by
  rw [observe_loads]
  decide +kernel

theorem readBytes_of_toOption {bytes : List UInt8}
    (read : (after.workspace.readBytes path).toOption = some bytes) :
    after.workspace.readBytes path = .ok bytes :=
  eq_ok_of_toOption read

theorem tokenProject_fresh (locked : Path) (files : ∀ step ∈ steps, step.file = .text "f") :
    FreshTag (tokenProject locked) steps ∧ ∀ step ∈ steps, ∀ key,
      fileKey? (tokenProject locked).project step.file = some key → key = tokenFile := by
  have keys : ∀ step ∈ steps, ∀ key,
      fileKey? (tokenProject locked).project step.file = some key → key = tokenFile := by
    intro step member key known
    rw [files step member] at known
    have here : fileKey? ⟨.root, ["p"]⟩ (.text "f") = some tokenFile := by decide
    exact Option.some.inj (known.symm.trans here)
  have plain : (tokenProject tokenFile).HasPlainTag := by decide
  refine ⟨FreshTag.of_entries plain ?_ fun step member name known => ?_, keys⟩
  · exact (by decide : ∀ pair ∈ (tokenProject tokenFile).workspace.entries,
      (tokenProject tokenFile).temporaryName ∉ pair.1)
  · rw [keys step member name known]
    exact (by decide : (tokenProject tokenFile).temporaryName ∉ tokenFile.names)

theorem tokenProject_outOfReach {locked : Path} {place : Place}
    (files : ∀ step ∈ steps, step.file = .text "f")
    (away : place ≠ tokenFile.place ∧ place ≠ (tokenFile.withSuffix ".bak").place ∧
      (tokenProject locked).temporaryName ∉ place) :
    OutOfReach (tokenProject locked) steps place := by
  obtain ⟨_, keys⟩ := tokenProject_fresh locked files
  refine ⟨fun step member name known => ?_, ?_, away.2.2⟩
  · rw [keys step member name known]
    exact away.1.symm
  · rintro ⟨step, member, name, known, same⟩
    rw [keys step member name known] at same
    exact away.2.1 same

theorem files_of_map {file : Json} (files : steps.map Step.file = [file]) :
    ∀ step ∈ steps, step.file = file := by
  intro step member
  have listed := List.mem_map_of_mem (f := Step.file) member
  rw [files] at listed
  exact List.mem_singleton.mp listed

theorem stylesheet_receives_declarations_locked :
    ∃ report after, run { apply := true } smallLayout .absent (tokenProject tokenFile) =
        .ok report after ∧
      report.results.map StepResult.status = [.failed] ∧
        after.workspace.readBytes smallLayout.stylesheet =
          .ok (Text.encode (withTokens "" ["--t: x;"]).toList) := by
  obtain ⟨task, started, report, after, prepared, returned, seen⟩ := observe_eq_some locked_observed
  simp only [StylingView.of, StylingView.mk.injEq] at seen
  obtain ⟨planned, statuses, unwarned, tokens, utilities, _⟩ := seen
  have files : ∀ step ∈ task.steps, step.file = .text "f" := fun step member =>
    files_of_map planned step ((prepare_eq_ok prepared).1.steps.steps.1 step member).1
  obtain ⟨⟨old, before, declared⟩, _⟩ := stylesheet_receives_declarations rfl returned prepared
    (tokenProject_fresh tokenFile files).1 (by decide) (by decide) unwarned
  obtain rfl : old = "" := before (tokenProject_outOfReach files (by decide))
  rw [tokens, utilities, if_neg (by simp)] at declared
  exact ⟨report, after, returned, statuses, declared⟩

/-- A step that ends as a failure leaves its declaration in the stylesheet. -/
theorem refused_step_declared :
    ∃ task started report after,
      prepare { apply := true } smallLayout (tokenProject tokenFile) = .ok task started ∧
      run { apply := true } smallLayout .absent (tokenProject tokenFile) = .ok report after ∧
      report.warnings = [] ∧ appliedSteps (task.steps.zip report.results) = [] ∧
        after.workspace.readBytes smallLayout.stylesheet =
          .ok (Text.encode (withTokens "" ["--t: x;"]).toList) := by
  obtain ⟨task, started, report, after, prepared, returned, seen⟩ := observe_eq_some locked_observed
  simp only [StylingView.of, StylingView.mk.injEq] at seen
  obtain ⟨_, statuses, unwarned, _, _, styled⟩ := seen
  refine ⟨task, started, report, after, prepared, returned, unwarned, ?_, ?_⟩
  · unfold appliedSteps
    rw [List.map_eq_nil_iff, List.filter_eq_nil_iff]
    intro pair member
    have listed := List.mem_map_of_mem (f := StepResult.status) (List.of_mem_zip member).2
    rw [statuses] at listed
    simp [List.mem_singleton.mp listed]
  · exact readBytes_of_toOption styled

end Migration

end Restyle
