import Restyle.Proofs.Migration.Upkeep

/-!
# The answers that a run takes

Only questions take answers, one each, in the order in which they come.  So an
execution that leaves steps out was told to quit, and the answer that told it so
is the last one that it took.
-/

namespace Restyle

namespace Migration

open Activity

variable {options : MigrationOptions} {layout : Layout} {index : IndexRebuild} {task : Task}
  {state next final : RunState} {session middle after last : Session} {step : Step}
  {steps : List Step} {backup ask : Bool} {decision : Option Decision} {report : RunReport}

/-- Whether the last answer taken was to quit. -/
def Quits (before after : List String) : Prop :=
  ∃ asked answer, before = asked ++ answer :: after ∧ Decision.ofAnswer answer = .quit

theorem Quits.append {before later : List String} (quits : Quits before later)
    (taken : List String) : Quits (taken ++ before) later := by
  obtain ⟨asked, told, whole, quit⟩ := quits
  exact ⟨taken ++ asked, told, by rw [whole, List.append_assoc], quit⟩

theorem confirm_takes {decision : Decision} (success : confirm step session = .ok decision after) :
    ∃ answer, session.answers = answer :: after.answers ∧ decision = Decision.ofAnswer answer := by
  unfold confirm at success
  obtain ⟨panel, _, shown, rest⟩ := bind_eq_ok.mp success
  obtain ⟨_, rfl⟩ := value_eq_ok.mp shown
  obtain ⟨_, displayed, display, rest⟩ := bind_eq_ok.mp rest
  obtain ⟨answer, _, asked, rest⟩ := bind_eq_ok.mp rest
  obtain ⟨later, coming, rfl⟩ := nextAnswer_eq_ok.mp asked
  obtain ⟨rfl, rfl⟩ := pure_eq_ok.mp rest
  cases display
  exact ⟨answer, coming, rfl⟩

/-- Having certain answers left. -/
def HasAnswers (answers : List String) (session : Session) : Prop :=
  session.answers = answers

theorem ignoresLog_hasAnswers {answers : List String} : IgnoresLog (HasAnswers answers) :=
  fun _ _ same => same

theorem ignoresWorkspace_hasAnswers {answers : List String} :
    IgnoresWorkspace (HasAnswers answers) :=
  fun _ _ same => same

theorem applyStep_answers (success : applyStep backup state step session = .ok next after) :
    after.answers = session.answers :=
  (maintains_applyStep ignoresLog_hasAnswers
    (fun _ => maintains_copyFile ignoresWorkspace_hasAnswers _ _) backup state step).ok rfl success

theorem process_answers (success : process backup state step session = .ok next after) :
    after.answers = session.answers := by
  unfold process at success
  split at success
  · exact (maintains_skipBlocked ignoresLog_hasAnswers state step).ok rfl success
  · exact applyStep_answers success

/-- The answers that handling a step takes, and what they decide. -/
theorem Handled.answers (handled : Handled backup ask state step session decision next after) :
    ∃ taken, session.answers = taken ++ after.answers ∧
      taken.map Decision.ofAnswer = decision.toList := by
  cases handled with
  | unasked calm processed => exact ⟨[], (process_answers processed).symm, rfl⟩
  | declined asking free asked =>
      obtain ⟨answer, coming, told⟩ := confirm_takes asked
      exact ⟨[answer], coming, congrArg (fun decision => [decision]) told.symm⟩
  | accepted asking asked consent processed =>
      obtain ⟨answer, coming, told⟩ := confirm_takes asked
      refine ⟨[answer], ?_, congrArg (fun decision => [decision]) told.symm⟩
      rw [coming, process_answers processed]
      rfl
  | quit asking asked quiet answers =>
      obtain ⟨answer, coming, told⟩ := confirm_takes asked
      refine ⟨[answer], ?_, congrArg (fun decision => [decision]) told.symm⟩
      rw [coming, answers]
      rfl

/-- An execution processes the steps in order, all of them unless it was told to
quit. -/
theorem execute_answers (success : execute backup ask state steps session = .ok final last) :
    ∃ done cut, steps = done ++ cut ∧ Executes backup state session done final last ∧
      (cut = [] ∨ ask = true ∧ Quits session.answers last.answers) := by
  induction steps generalizing ask state session with
  | nil =>
      unfold execute at success
      obtain ⟨rfl, rfl⟩ := pure_eq_ok.mp success
      exact ⟨[], [], rfl, .nil (.refl _), Or.inl rfl⟩
  | cons step steps induction =>
      obtain ⟨decision, next, middle, handled, ending⟩ := execute_eq_ok success
      obtain ⟨taken, coming, told⟩ := handled.answers
      rcases ending with ⟨rfl, rfl, rfl⟩ | ⟨goesOn, rest⟩
      · obtain ⟨asking, rfl, quiet⟩ := handled.of_quit
        obtain ⟨answer, rfl, quit⟩ := List.map_eq_singleton_iff.mp told
        exact ⟨[], step :: steps, rfl, .nil quiet, Or.inr ⟨asking, [], answer, coming, quit⟩⟩
      · obtain ⟨done, cut, rfl, executed, ends⟩ := induction rest
        refine ⟨step :: done, cut, rfl, .cons (handled.processed goesOn) executed,
          ends.imp_right fun later => ⟨(Bool.and_eq_true_iff.mp later.1).1, ?_⟩⟩
        rw [coming]
        exact later.2.append taken

theorem executeAll_answers
    (success : executeAll options state steps session = .ok final last) :
    ∃ done cut, steps = done ++ cut ∧ Executes options.backup state session done final last ∧
      (cut = [] ∨ options.interactive = true ∧ Quits session.answers last.answers) := by
  obtain ⟨inner, body, closed, answers⟩ := executeAll_eq_ok success
  obtain ⟨done, cut, split, executed, ending⟩ := execute_answers body
  rw [conversing_answers, ← answers] at ending
  exact ⟨done, cut, split,
    (executed.of_quiet (conversing_quiet options session)).then_quiet closed, ending⟩

theorem finish_answers {executed : RunState}
    (success : finish layout index task executed session = .ok report after) :
    after.answers = session.answers := by
  have writes : ∀ target content,
      Maintains (HasAnswers session.answers) (writeFile target content) :=
    fun _ _ => maintains_writeFile ignoresLog_hasAnswers ignoresWorkspace_hasAnswers _ _
  exact (maintains_finish ignoresLog_hasAnswers (fun _ _ same => same)
    (fun _ _ _ => writes _ _) (fun _ => writes _ _) (fun _ => writes _ _) index task).ok rfl success

theorem prepare_answers (success : prepare options layout session = .ok task after) :
    after.answers = session.answers :=
  (maintains_prepare ignoresLog_hasAnswers options layout).ok rfl success

end Migration

end Restyle
