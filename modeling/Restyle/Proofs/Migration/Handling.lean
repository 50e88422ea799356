import Restyle.Proofs.Activity.Failing
import Restyle.Proofs.Migration.Execution

/-!
# Handling steps

A run takes its steps one at a time.  It asks about a step, unless the step is blocked
or it need not ask any more, and then processes it, records that it was declined, or
stops.  `Handled` lists these ways, and an execution is one step that is handled and
an execution of the others.
-/

namespace Restyle

namespace Migration

open Activity

variable {state next final : RunState} {session middle after last : Session} {step : Step}
  {steps : List Step} {backup ask : Bool} {decision : Option Decision} {failure : Failure}

/-- What a run that does not ask does with a step. -/
def process (backup : Bool) (state : RunState) (step : Step) : Activity RunState :=
  if state.isBlocked step then skipBlocked state step else applyStep backup state step

theorem execute_cons (backup : Bool) (state : RunState) (step : Step) (steps : List Step) :
    execute backup false state (step :: steps) =
      process backup state step >>= fun next => execute backup false next steps := by
  rw [execute, process]
  cases state.isBlocked step <;> rfl

theorem process_processed (success : process backup state step session = .ok next after) :
    Processed backup step state session next after := by
  unfold process at success
  split at success
  · rename_i dependency
    unfold skipBlocked at success
    obtain ⟨_, noted, logged, recorded⟩ := bind_eq_ok.mp success
    obtain ⟨rfl, rfl⟩ := pure_eq_ok.mp recorded
    exact .blocked dependency (log_quiet logged)
  · rename_i free
    exact applyStep_processed (by simpa using free) success

/-- What is done about a step: the decision on it, if it is asked about, and the
state after it. -/
def handle (backup ask : Bool) (state : RunState) (step : Step) :
    Activity (Option Decision × RunState) := do
  if ask && !state.isBlocked step then
    match ← confirm step with
    | .quit =>
        Activity.log .info .running ("Stopped at " ++ step.id.shown ++ " on user request")
        return (some .quit, state)
    | .no => return (some .no, state.record step .skipped none none)
    | .all => return (some .all, ← process backup state step)
    | .yes => return (some .yes, ← process backup state step)
  else return (none, ← process backup state step)

/-- Whether later steps are asked about. -/
def asksOn (ask : Bool) (decision : Option Decision) : Bool :=
  ask && decide (decision ≠ some .all)

theorem execute_handle (backup ask : Bool) (state : RunState) (step : Step) (steps : List Step) :
    execute backup ask state (step :: steps) = (do
      let (decision, next) ← handle backup ask state step
      if decision = some .quit then return next
      else execute backup (asksOn ask decision) next steps) := by
  rw [execute, handle, process]
  cases dependency : state.isBlocked step with
  | true => simp [asksOn]
  | false =>
      cases ask with
      | false => simp [asksOn]
      | true =>
          simp only [Bool.false_eq_true, if_false, if_true, Bool.not_false, Bool.and_self,
            bind_assoc]
          congr 1
          funext decision
          cases decision with
          | quit => simp
          | no => simp [asksOn]
          | all => simp [asksOn]
          | yes => simp [asksOn]

/-- What can become of a step that is handled. -/
inductive Handled (backup ask : Bool) (state : RunState) (step : Step) (session : Session) :
    Option Decision → RunState → Session → Prop where
  | unasked {next : RunState} {after : Session} (calm : ask = false ∨ state.isBlocked step = true)
      (processed : process backup state step session = .ok next after) :
      Handled backup ask state step session none next after
  | declined {after : Session} (asking : ask = true) (free : state.isBlocked step = false)
      (asked : confirm step session = .ok .no after) :
      Handled backup ask state step session (some .no) (state.record step .skipped none none) after
  | accepted {decision : Decision} {next : RunState} {ready after : Session} (asking : ask = true)
      (asked : confirm step session = .ok decision ready)
      (consent : decision = .yes ∨ decision = .all)
      (processed : process backup state step ready = .ok next after) :
      Handled backup ask state step session (some decision) next after
  | quit {ready after : Session} (asking : ask = true)
      (asked : confirm step session = .ok .quit ready) (quiet : ready.Quiet after)
      (answers : after.answers = ready.answers) :
      Handled backup ask state step session (some .quit) state after

theorem handle_eq_ok
    (success : handle backup ask state step session = .ok (decision, next) after) :
    Handled backup ask state step session decision next after := by
  unfold handle at success
  split at success
  · rename_i free
    obtain ⟨asking, free⟩ := Bool.and_eq_true_iff.mp free
    obtain ⟨told, ready, asked, rest⟩ := bind_eq_ok.mp success
    cases told with
    | quit =>
        obtain ⟨_, _, logged, rest⟩ := bind_eq_ok.mp rest
        obtain ⟨same, rfl⟩ := pure_eq_ok.mp rest
        cases same
        have quiet := log_quiet logged
        cases logged
        exact .quit asking asked quiet rfl
    | no =>
        obtain ⟨same, rfl⟩ := pure_eq_ok.mp rest
        cases same
        exact .declined asking (Bool.not_eq_true' _ ▸ free) asked
    | all =>
        obtain ⟨_, _, processed, rest⟩ := bind_eq_ok.mp rest
        obtain ⟨same, rfl⟩ := pure_eq_ok.mp rest
        cases same
        exact .accepted asking asked (Or.inr rfl) processed
    | yes =>
        obtain ⟨_, _, processed, rest⟩ := bind_eq_ok.mp rest
        obtain ⟨same, rfl⟩ := pure_eq_ok.mp rest
        cases same
        exact .accepted asking asked (Or.inl rfl) processed
  · rename_i calm
    obtain ⟨_, _, processed, rest⟩ := bind_eq_ok.mp success
    obtain ⟨same, rfl⟩ := pure_eq_ok.mp rest
    cases same
    refine .unasked ?_ processed
    rw [Bool.not_eq_true, Bool.and_eq_false_iff, Bool.not_eq_false'] at calm
    exact calm

theorem handle_eq_error (stopped : handle backup ask state step session = .error failure after) :
    (∃ ready, session.Quiet ready ∧ process backup state step ready = .error failure after) ∨
      ask = true ∧ confirm step session = .error failure after := by
  have given : ∀ {told : Option Decision} {ready : Session},
      (process backup state step >>= fun next => pure (told, next)) ready = .error failure after →
        process backup state step ready = .error failure after := by
    intro told ready failed
    rcases bind_eq_error.mp failed with early | ⟨_, _, _, late⟩
    · exact early
    · cases late
  unfold handle at stopped
  split at stopped
  · rename_i free
    rcases bind_eq_error.mp stopped with unasked | ⟨told, ready, asked, rest⟩
    · exact Or.inr ⟨(Bool.and_eq_true_iff.mp free).1, unasked⟩
    · have quiet := confirm_quiet asked
      cases told with
      | quit =>
          rcases bind_eq_error.mp rest with early | ⟨_, _, _, late⟩
          · cases early
          · cases late
      | no => cases rest
      | all => exact Or.inl ⟨ready, quiet, given rest⟩
      | yes => exact Or.inl ⟨ready, quiet, given rest⟩
  · exact Or.inl ⟨session, .refl _, given stopped⟩

theorem Handled.processed (handled : Handled backup ask state step session decision next after)
    (goesOn : decision ≠ some .quit) : Processed backup step state session next after := by
  cases handled with
  | unasked calm processed => exact process_processed processed
  | declined asking free asked =>
      exact .declined free (confirm_quiet asked)
  | accepted asking asked consent processed =>
      exact (process_processed processed).of_quiet (confirm_quiet asked)
  | quit asking asked quiet answers => exact absurd rfl goesOn

/-- A step that neither is declined nor ends the run is processed. -/
theorem Handled.acts (handled : Handled backup ask state step session decision next after)
    (goesOn : decision ≠ some .quit) (kept : decision ≠ some .no) :
    ∃ ready, session.Quiet ready ∧ process backup state step ready = .ok next after := by
  cases handled with
  | unasked calm processed => exact ⟨session, .refl _, processed⟩
  | declined asking free asked => exact absurd rfl kept
  | accepted asking asked consent processed => exact ⟨_, confirm_quiet asked, processed⟩
  | quit asking asked quiet answers => exact absurd rfl goesOn

theorem Handled.of_declined
    (handled : Handled backup ask state step session (some .no) next after) :
    next = state.record step .skipped none none ∧ session.Quiet after := by
  cases handled with
  | declined asking free asked => exact ⟨rfl, confirm_quiet asked⟩
  | accepted asking asked consent processed =>
      rcases consent with consent | consent
      · cases consent
      · cases consent

theorem Handled.of_quit (handled : Handled backup ask state step session (some .quit) next after) :
    ask = true ∧ next = state ∧ session.Quiet after := by
  cases handled with
  | accepted asking asked consent processed =>
      rcases consent with consent | consent
      · cases consent
      · cases consent
  | quit asking asked quiet answers =>
      exact ⟨asking, rfl, (confirm_quiet asked).trans quiet⟩

/-! ## Executions -/

/-- An execution that returns has handled its first step, and was told to quit or went
on. -/
theorem execute_eq_ok
    (success : execute backup ask state (step :: steps) session = .ok final last) :
    ∃ decision next middle, Handled backup ask state step session decision next middle ∧
      (decision = some .quit ∧ final = next ∧ last = middle ∨
        decision ≠ some .quit ∧
          execute backup (asksOn ask decision) next steps middle = .ok final last) := by
  rw [execute_handle] at success
  obtain ⟨⟨decision, next⟩, middle, handled, rest⟩ := bind_eq_ok.mp success
  refine ⟨decision, next, middle, handle_eq_ok handled, ?_⟩
  dsimp only at rest
  split at rest
  · rename_i quit
    obtain ⟨rfl, rfl⟩ := pure_eq_ok.mp rest
    exact Or.inl ⟨quit, rfl, rfl⟩
  · rename_i goesOn
    exact Or.inr ⟨goesOn, rest⟩

/-- An execution that fails has failed in handling its first step, or after it. -/
theorem execute_eq_error
    (stopped : execute backup ask state (step :: steps) session = .error failure after) :
    handle backup ask state step session = .error failure after ∨
      ∃ decision next middle, Handled backup ask state step session decision next middle ∧
        decision ≠ some .quit ∧
          execute backup (asksOn ask decision) next steps middle = .error failure after := by
  rw [execute_handle] at stopped
  rcases bind_eq_error.mp stopped with early | ⟨⟨decision, next⟩, middle, handled, rest⟩
  · exact Or.inl early
  · dsimp only at rest
    split at rest
    · cases rest
    · rename_i goesOn
      exact Or.inr ⟨decision, next, middle, handle_eq_ok handled, goesOn, rest⟩

/-- An execution processes the steps in order, all of them unless it may be told
to quit. -/
theorem execute_executes (success : execute backup ask state steps session = .ok final last) :
    ∃ done cut, steps = done ++ cut ∧ Executes backup state session done final last ∧
      (ask = false → cut = []) := by
  induction steps generalizing ask state session with
  | nil =>
      unfold execute at success
      obtain ⟨rfl, rfl⟩ := pure_eq_ok.mp success
      exact ⟨[], [], rfl, .nil (.refl _), fun _ => rfl⟩
  | cons step steps induction =>
      obtain ⟨decision, next, middle, handled, ⟨rfl, rfl, rfl⟩ | ⟨goesOn, rest⟩⟩ :=
        execute_eq_ok success
      · obtain ⟨asking, rfl, quiet⟩ := handled.of_quit
        exact ⟨[], step :: steps, rfl, .nil quiet, fun unasked => by simp [unasked] at asking⟩
      · obtain ⟨done, cut, rfl, executed, whole⟩ := induction rest
        exact ⟨step :: done, cut, rfl, .cons (handled.processed goesOn) executed,
          fun unasked => whole (by simp [asksOn, unasked])⟩

end Migration

end Restyle
