import Restyle.Proofs.Schedule.Precedence

/-!
# Warnings about cycles

Where identifiers are texts and no two steps have one, each warning names a cycle
of dependencies.  Without a warning, and without a fault, every dependency comes
before the steps that have it.  Then positions in the order go down along
dependencies, so no step needs itself.
-/

namespace Restyle

open Relation

variable {steps : List Step} {early late : Step}

/-- Steps of which no cycle is reported, though all were walked from. -/
structure Unwarned (steps : List Step) : Prop where
  areDistinct : AreDistinct steps
  notNull : ∀ step ∈ steps, step.id ≠ .null
  sound : (walkSteps steps).fault = none
  silent : cycles steps = []

namespace Unwarned

theorem idxOf_lt (unwarned : Unwarned steps) (dependsOn : late.DependsOn steps early) :
    (order steps).idxOf early < (order steps).idxOf late := by
  have placed := (unwarned.areDistinct.order_perm unwarned.sound).mem_iff.mpr dependsOn.1
  obtain ⟨before, behind, ordered⟩ := List.append_of_mem placed
  have earlier : early ∈ before := by
    apply (unwarned.areDistinct.mem_before (dependsOn.heeds unwarned.notNull) ordered).resolve_right
    exact fun reported => reported.1 unwarned.silent
  have once : late ∉ before := by
    have distinct := (order_nodup unwarned.areDistinct.keys).of_map
    rw [ordered] at distinct
    exact fun again => (List.nodup_append.mp distinct).2.2 late again late List.mem_cons_self rfl
  rw [ordered, List.idxOf_append_of_mem earlier, List.idxOf_append_of_notMem once,
    List.idxOf_cons_self, Nat.add_zero]
  exact List.idxOf_lt_length_of_mem earlier

theorem idxOf_lt_of_path (unwarned : Unwarned steps)
    (path : TransGen (Step.DependsOn steps) late early) :
    (order steps).idxOf early < (order steps).idxOf late := by
  induction path with
  | single dependsOn => exact unwarned.idxOf_lt dependsOn
  | tail _ dependsOn induction => exact (unwarned.idxOf_lt dependsOn).trans induction

theorem acyclic (unwarned : Unwarned steps) (step : Step) :
    ¬ TransGen (Step.DependsOn steps) step step :=
  fun around => Nat.lt_irrefl _ (unwarned.idxOf_lt_of_path around)

end Unwarned

end Restyle
