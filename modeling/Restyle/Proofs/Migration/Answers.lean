import Restyle.Proofs.Migration.Likeness
import Restyle.Proofs.Migration.Stylesheet
import Restyle.Proofs.Migration.Verdicts

/-!
# Answers select steps

A run that asks about its steps records nothing about the answers but which steps
were declined.  So what it does to the others is what a run that does not ask does
with them alone, and a run whose steps are all accepted does what it would have done
without asking.
-/

namespace Restyle

namespace Migration

open Activity

variable {options : MigrationOptions} {layout : Layout} {index : IndexRebuild} {task : Task}
  {state other mirror next final : RunState} {session middle ready after : Session}
  {step : Step} {steps : List Step} {backup ask : Bool} {verdicts : List Verdict}
  {decision : Option Decision} {failure : Failure} {ids : List Json}

/-- Two states that agree but for the results and the skipped steps. -/
structure SharesWork (state other : RunState) : Prop where
  buffers : other.buffers = state.buffers
  backedUp : other.backedUp = state.backedUp
  utilityBlocks : other.utilityBlocks = state.utilityBlocks
  tokenDeclarations : other.tokenDeclarations = state.tokenDeclarations
  completed : other.completed = state.completed
  failed : other.failed = state.failed

theorem SharesWork.record (shares : SharesWork state other) (step : Step) (status : StepStatus)
    (error : Option String) (size : Option EditSize) :
    SharesWork (state.record step status error size) (other.record step status error size) := by
  obtain ⟨buffers, backedUp, utilities, tokens, completed, failed⟩ := shares
  cases status <;>
    exact ⟨buffers, backedUp, utilities, tokens,
      by simp only [RunState.record, RunState.mark, completed],
      by simp only [RunState.record, RunState.mark, failed]⟩

theorem SharesWork.keepSideEffect (shares : SharesWork state other) (effect : Option SideEffect) :
    SharesWork (state.keepSideEffect effect) (other.keepSideEffect effect) := by
  obtain ⟨buffers, backedUp, utilities, tokens, completed, failed⟩ := shares
  rcases effect with _ | block | declaration
  · exact ⟨buffers, backedUp, utilities, tokens, completed, failed⟩
  · exact ⟨buffers, backedUp, by simp only [RunState.keepSideEffect, utilities], tokens, completed,
      failed⟩
  · exact ⟨buffers, backedUp, utilities, by simp only [RunState.keepSideEffect, tokens], completed,
      failed⟩

/-- A state, and one that lacks the results of certain steps. -/
structure Omits (ids : List Json) (state other : RunState) : Prop extends
    SharesWork state other where
  results : other.results = state.results.filter fun result => !result.stepId.isAmong ids

theorem Omits.record (omits : Omits ids state other) (kept : step.id.isAmong ids = false)
    (status : StepStatus) (error : Option String) (size : Option EditSize) :
    Omits ids (state.record step status error size) (other.record step status error size) where
  toSharesWork := omits.toSharesWork.record step status error size
  results := by
    rw [RunState.record_results, RunState.record_results, omits.results, List.filter_append]
    simp [RunState.resultOf, kept]

/-- Steps with different identifiers, none of which is recorded yet. -/
structure AreNew (steps : List Step) (state : RunState) : Prop where
  fresh : ∀ step ∈ steps, ∀ id ∈ state.lists.all, Json.same step.id id = false
  distinct : steps.Pairwise fun first second => Json.same second.id first.id = false

theorem AreNew.later (new : AreNew (step :: steps) state)
    (processed : Processed backup step state session next after) : AreNew steps next := by
  obtain ⟨different, distinct⟩ := List.pairwise_cons.mp new.distinct
  obtain ⟨result, _, subject, lists⟩ := processed.records
  have named : result.stepId = step.id := congrArg Prod.fst subject
  refine ⟨fun later member id recorded => ?_, distinct⟩
  rw [lists] at recorded
  rcases Lists.mem_all_mark recorded with rfl | old
  · rw [named]
    exact different later member
  · exact new.fresh later (List.mem_cons_of_mem _ member) id old

/-- Whether a run fails because it cannot ask about one of its steps: there is no
answer left, or the question cannot be shown. -/
def FailsToAsk (steps : List Step) (failure : Failure) : Prop :=
  failure = .noAnswer ∨
    ∃ step ∈ steps, ∃ fault, Display.promptPanel step = .error fault ∧ failure = .value fault

theorem FailsToAsk.cons (fails : FailsToAsk steps failure) (step : Step) :
    FailsToAsk (step :: steps) failure := by
  rcases fails with silent | ⟨asked, member, unshown⟩
  · exact Or.inl silent
  · exact Or.inr ⟨asked, List.mem_cons_of_mem _ member, unshown⟩

/-- Answers that accept every step: yes, as long as none accepts all that remain. -/
def Consents : List String → Prop
  | [] => True
  | answer :: later =>
      Decision.ofAnswer answer = .all ∨ Decision.ofAnswer answer = .yes ∧ Consents later

theorem Consents.confirmed {decision : Decision} (consents : Consents session.answers)
    (asked : confirm step session = .ok decision after) :
    decision = .all ∨ decision = .yes ∧ Consents after.answers := by
  obtain ⟨answer, coming, told⟩ := confirm_takes asked
  rw [coming, Consents, ← told] at consents
  exact consents

theorem Consents.handled (consents : ask = true → Consents session.answers)
    (handled : Handled backup ask state step session decision next after) :
    decision ≠ some .quit ∧ decision ≠ some .no ∧
      (asksOn ask decision = true → Consents after.answers) := by
  cases handled with
  | unasked calm processed =>
      rw [process_answers processed]
      exact ⟨by simp, by simp, fun on => consents (Bool.and_eq_true_iff.mp on).1⟩
  | declined asking free asked =>
      rcases (consents asking).confirmed asked with all | ⟨yes, _⟩
      · cases all
      · cases yes
  | accepted asking asked consent processed =>
      rw [process_answers processed]
      rcases (consents asking).confirmed asked with rfl | ⟨rfl, later⟩
      · exact ⟨by simp, by simp, fun on => by simp [asksOn] at on⟩
      · exact ⟨by simp, by simp, fun _ => later⟩
  | quit asking asked still answers =>
      rcases (consents asking).confirmed asked with all | ⟨yes, _⟩
      · cases all
      · cases yes

theorem AreNew.start (keys : ∀ step ∈ steps, step.id.isKey = true)
    (distinct : (steps.map (·.id.key?)).Nodup) : AreNew steps {} where
  fresh := by simp [RunState.lists, Lists.all]
  distinct := by
    refine (List.pairwise_map.mp distinct).imp_of_mem fun {first second} _ member differs => ?_
    apply Bool.eq_false_iff.mpr
    rw [Ne, Json.same_iff (keys second member)]
    exact fun same => differs same.symm

end Migration

end Restyle
