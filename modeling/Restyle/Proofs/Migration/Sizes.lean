import Mathlib.Algebra.BigOperators.Group.Finset.Piecewise
import Restyle.Proofs.Edit.Sizes
import Restyle.Proofs.Migration.Reports

/-!
# What results count and what files gain

An applied result counts the characters that its edit removed and added.  While steps
are executed the text of a file gains just what the results on the file count, for
edits count what they do and every other step leaves all texts alone.  Where the write
of a file is refused its results count no more.
-/

namespace Restyle

open Migration

/-- By how much the edit of a result makes its file longer, if the result is an
applied one. -/
def StepResult.gain (result : StepResult) : Int :=
  match result.status with
  | .applied =>
      let size := result.size.getD ⟨0, 0⟩
      size.added - size.removed
  | _ => 0

theorem StepResult.gain_eq_zero {result : StepResult} (other : result.status ≠ .applied) :
    result.gain = 0 := by
  unfold gain
  split
  · rename_i applied
    exact absurd applied other
  · rfl

/-- The gain of a result on one file. -/
def StepResult.gainOn (project path : Path) (result : StepResult) : Int :=
  if fileKey? project result.file = some path then result.gain else 0

/-- The gain of results on one file. -/
def gainOn (project path : Path) (results : List StepResult) : Int :=
  (results.map (StepResult.gainOn project path)).sum

theorem foldl_count_gain (results : List StepResult) (summary : RunSummary) :
    (results.foldl RunSummary.count summary).added -
        (results.foldl RunSummary.count summary).removed =
      summary.added - summary.removed + (results.map StepResult.gain).sum := by
  induction results generalizing summary with
  | nil => simp
  | cons result results induction =>
      have counted : (summary.count result).added - (summary.count result).removed =
          summary.added - summary.removed + result.gain := by
        unfold RunSummary.count StepResult.gain
        cases result.status <;> dsimp only <;> omega
      rw [List.foldl_cons, induction, counted, List.map_cons, List.sum_cons, Int.add_assoc]

/-- Every gain is the gain on one file, where the files of all applied results are
among the given ones. -/
theorem sum_gainOn {project : Path} (files : Finset Path) {results : List StepResult}
    (named : ∀ result ∈ results, result.status = .applied →
      ∃ path ∈ files, fileKey? project result.file = some path) :
    ∑ path ∈ files, gainOn project path results = (results.map StepResult.gain).sum := by
  induction results with
  | nil => simp [gainOn]
  | cons result results induction =>
      obtain ⟨first, later⟩ := List.forall_mem_cons.mp named
      have here : ∑ path ∈ files, result.gainOn project path = result.gain := by
        by_cases applied : result.status = .applied
        · obtain ⟨path, among, known⟩ := first applied
          simp [StepResult.gainOn, known, among]
        · simp [StepResult.gainOn, StepResult.gain_eq_zero applied]
      simp only [gainOn, List.map_cons, List.sum_cons] at induction ⊢
      rw [Finset.sum_add_distrib, here, induction later]

namespace RunState

variable {state other : RunState} {path : Path}

/-- By how much the text of a file has become longer since it was read. -/
def gain (state : RunState) (path : Path) : Int :=
  match state.buffer? path with
  | some buffer => buffer.content.length - buffer.loaded.length
  | none => 0

theorem gain_congr (same : other.buffer? path = state.buffer? path) :
    other.gain path = state.gain path := by
  rw [gain, same, gain]

end RunState

namespace Migration

variable {state opened next final : RunState} {session middle after last : Session} {step : Step}
  {steps : List Step} {backup : Bool} {path : Path} {content : List Char}

theorem Opens.gain {workspace : Workspace} (buffered : Opens workspace path state opened content)
    (file : Path) : opened.gain file = state.gain file := by
  by_cases here : file = path
  · subst here
    cases buffered with
    | known found => rfl
    | loaded absent clean read =>
        unfold RunState.gain
        rw [absent]
        unfold RunState.buffer? at absent ⊢
        rw [List.find?_append, absent]
        simp
  · exact RunState.gain_congr (buffered.buffer?.2 file here)

theorem gains_record {project : Path} {status : StepStatus} {error : Option String}
    (results : opened.results = state.results) (gains : ∀ path, opened.gain path = state.gain path)
    (other : status ≠ .applied) :
    ∃ result, (opened.record step status error none).results = state.results ++ [result] ∧
      ∀ path, (opened.record step status error none).gain path =
        state.gain path + result.gainOn project path := by
  refine ⟨RunState.resultOf step status error none, ?_, fun path => ?_⟩
  · rw [RunState.record_results, results]
  · have nothing : (RunState.resultOf step status error none).gainOn project path = 0 := by
      rw [StepResult.gainOn, StepResult.gain_eq_zero other, ite_self]
    rw [nothing, Int.add_zero, ← gains]
    exact RunState.gain_congr (RunState.buffer?_congr (RunState.record_buffers ..) path)

theorem Processed.gains (processed : Processed backup step state session next after) :
    ∃ result, next.results = state.results ++ [result] ∧
      ∀ path, next.gain path = state.gain path + result.gainOn session.project path := by
  cases processed with
  | blocked _ _ => exact gains_record rfl (fun _ => rfl) nofun
  | declined _ _ => exact gains_record rfl (fun _ => rfl) nofun
  | unreadable _ _ _ _ _ _ => exact gains_record rfl (fun _ => rfl) nofun
  | unlocated _ _ buffered _ _ =>
      exact gains_record buffered.results buffered.gain nofun
  | edited free known buffered made before copied quiet =>
      rename_i opened kept ready middle key content edit
      obtain ⟨⟨backedUp, rfl⟩, _⟩ := backUp_outcome (fun _ => True) copied
      refine ⟨RunState.resultOf step .applied none (some ⟨edit.removed, edit.added⟩), ?_,
        fun path => ?_⟩
      · rw [afterEdit_results]
        show opened.results ++ _ = _
        rw [buffered.results]
      rw [← buffered.gain, RunState.gain_congr (buffer?_afterEdit ..)]
      show (opened.setContent key edit.content).gain path = _
      by_cases here : path = key
      · subst here
        obtain ⟨⟨buffer, found, rfl⟩, _⟩ := buffered.buffer?
        have length := Step.edit_length made
        have counted : (RunState.resultOf step .applied none
            (some ⟨edit.removed, edit.added⟩)).gainOn session.project path =
              edit.added - edit.removed := if_pos known
        rw [counted, RunState.gain, RunState.gain, RunState.buffer?_setContent_self _ found, found]
        dsimp only
        omega
      · have uncounted : (RunState.resultOf step .applied none
            (some ⟨edit.removed, edit.added⟩)).gainOn session.project path = 0 := by
          apply if_neg
          show fileKey? session.project step.file ≠ some path
          rw [known, ne_eq, Option.some.injEq]
          exact Ne.symm here
        rw [uncounted, Int.add_zero]
        exact RunState.gain_congr (RunState.buffer?_setContent_other _ here)

/-- An execution makes every file longer by what its results count on the file. -/
theorem Executes.gains (executed : Executes backup state session steps final last)
    (balanced : ∀ path, state.gain path = gainOn session.project path state.results) (path : Path) :
    final.gain path = gainOn session.project path final.results := by
  induction executed with
  | nil _ => exact balanced path
  | @cons state next final session middle last step steps first later induction =>
      obtain ⟨result, recorded, gained⟩ := first.gains
      have project := first.sameSetting.project
      rw [← project]
      apply induction
      intro path
      rw [project, gained, balanced, recorded]
      simp [gainOn]

/-- Results on a file count no more once the file was refused, and results on another
file count as before. -/
theorem gainOn_refuseAll (project path : Path) (refused : List (Path × String))
    (results : List StepResult) :
    gainOn project path (results.map (refuseAll project refused)) =
      if path ∈ refused.map Prod.fst then 0 else gainOn project path results := by
  have each : ∀ result : StepResult, (refuseAll project refused result).gainOn project path =
      if path ∈ refused.map Prod.fst then 0 else result.gainOn project path := by
    intro result
    unfold StepResult.gainOn
    rw [refuseAll_file]
    by_cases key : fileKey? project result.file = some path
    · rw [if_pos key, if_pos key]
      obtain ⟨kept, fails⟩ := @refuseAll_status_of_key path project refused result key
      by_cases listed : path ∈ refused.map Prod.fst
      · rw [if_pos listed]
        apply StepResult.gain_eq_zero
        by_cases applied : result.status = .applied
        · rw [fails listed applied]
          nofun
        · rw [refuseAll_status]
          split
          · nofun
          · exact applied
      · rw [if_neg listed, StepResult.gain, kept listed, refuseAll_size, StepResult.gain]
    · rw [if_neg key, if_neg key, ite_self]
  have whole : results.map (StepResult.gainOn project path ∘ refuseAll project refused) =
      results.map fun result =>
        if path ∈ refused.map Prod.fst then 0 else result.gainOn project path :=
    List.map_congr_left fun result _ => each result
  rw [gainOn, List.map_map, whole]
  split
  · simp
  · rfl

end Migration

end Restyle
