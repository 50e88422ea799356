import Restyle.Proofs.Migration.Tallies

/-!
# The steps that a run comes to

A run that is told to quit, or that fails, does not come to all of its steps.
`Arrives` gives the steps that it does come to, each with the state and the session that
the run has then, so that a statement about them also holds of a run that never returns.
What comes after an arrival is the execution of what is left from there, and a step has a
result exactly when the run came to it and handled it.
-/

namespace Restyle

namespace Migration

open Activity

variable {options : MigrationOptions} {task : Task} {state next final start : RunState}
  {session started middle after last : Session} {step : Step} {steps : List Step}
  {backup ask : Bool} {decision : Option Decision} {result : StepResult}

/-- Where an execution is when it comes to a step. -/
structure Arrival where
  /-- Whether steps are asked about. -/
  asks : Bool
  state : RunState
  session : Session
  step : Step

/-- The steps that an execution comes to. -/
inductive Arrives (backup : Bool) :
    Bool → RunState → Session → List Step → Arrival → Prop where
  | here {ask : Bool} {state : RunState} {session : Session} {step : Step} {steps : List Step} :
      Arrives backup ask state session (step :: steps) ⟨ask, state, session, step⟩
  | later {ask : Bool} {state next : RunState} {session middle : Session} {step : Step}
      {steps : List Step} {decision : Option Decision} {arrival : Arrival}
      (handled : handle backup ask state step session = .ok (decision, next) middle)
      (goesOn : decision ≠ some .quit)
      (arrives : Arrives backup (asksOn ask decision) next middle steps arrival) :
      Arrives backup ask state session (step :: steps) arrival

variable {arrival : Arrival}

/-- What an execution does with the step that it has come to. -/
def Arrival.handling (backup : Bool) (arrival : Arrival) :
    EStateM.Result Failure Session (Option Decision × RunState) :=
  handle backup arrival.asks arrival.state arrival.step arrival.session

/-- An execution has processed the steps before an arrival, and goes on with the step and
those behind it. -/
theorem Arrives.split (arrives : Arrives backup ask state session steps arrival) :
    ∃ before behind, steps = before ++ arrival.step :: behind ∧
      Executes backup state session before arrival.state arrival.session ∧
      execute backup ask state steps session =
        execute backup arrival.asks arrival.state (arrival.step :: behind) arrival.session := by
  induction arrives with
  | here => exact ⟨[], _, rfl, .nil (.refl _), rfl⟩
  | @later ask state next session middle step steps decision arrival handled goesOn _ induction =>
      obtain ⟨before, behind, rfl, executes, same⟩ := induction
      refine ⟨step :: before, behind, rfl, .cons ((handle_eq_ok handled).processed goesOn) executes,
        ?_⟩
      rw [execute_handle, bind_of_ok handled, ← same]
      exact congrFun (if_neg goesOn) middle

/-- Each result of an execution that returns was recorded where it came to a step. -/
theorem arrives_of_result (executed : execute backup ask state steps session = .ok final last)
    (member : result ∈ final.results) :
    result ∈ state.results ∨ ∃ arrival decision next middle,
      Arrives backup ask state session steps arrival ∧
        arrival.handling backup = .ok (decision, next) middle ∧
        next.results = arrival.state.results ++ [result] := by
  induction steps generalizing ask state session with
  | nil =>
      obtain ⟨rfl, rfl⟩ := pure_eq_ok.mp executed
      exact Or.inl member
  | cons step steps induction =>
      rw [execute_handle] at executed
      obtain ⟨⟨decision, next⟩, middle, handled, rest⟩ := bind_eq_ok.mp executed
      dsimp only at rest
      split at rest
      · rename_i quit
        subst quit
        obtain ⟨rfl, rfl⟩ := pure_eq_ok.mp rest
        obtain ⟨_, rfl, _⟩ := (handle_eq_ok handled).of_quit
        exact Or.inl member
      · rename_i goesOn
        obtain ⟨new, results, _⟩ := ((handle_eq_ok handled).processed goesOn).records
        rcases induction rest with old | ⟨arrival, told, changed, there, arrives, recorded⟩
        · rw [results] at old
          rcases List.mem_append.mp old with before | here
          · exact Or.inl before
          · rw [← List.mem_singleton.mp here] at results
            exact Or.inr ⟨_, decision, next, middle, .here, handled, results⟩
        · exact Or.inr ⟨arrival, told, changed, there, .later handled goesOn arrives, recorded⟩

/-- Whether a run that was prepared comes to a step.  One that may not change files comes
to none. -/
def ComesTo (options : MigrationOptions) (task : Task) (started : Session) (arrival : Arrival) :
    Prop :=
  options.apply = true ∧
    Arrives options.backup options.interactive (startState task.checkpoint)
      (conversing options started) task.steps arrival

end Migration

end Restyle
