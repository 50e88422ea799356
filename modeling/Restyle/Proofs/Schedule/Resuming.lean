import Restyle.Proofs.Schedule.Coverage

/-!
# Schedules that are resumed

With the first steps of a schedule completed, the same filters schedule the steps
that remain as they would have come, wherever the schedule is cut and also where
it breaks a cycle.  Only a completed null can change that: it no longer ends the
dependencies of a step that names it.
-/

namespace Restyle

variable {steps : List Step} {selection : Selection} {schedule : Schedule} {completed : List Json}
  {count : Nat}

/-- The steps that remain look at no completed null if those to come next do not. -/
theorem sparesNull_of_drop (scheduled : Schedule.ofSteps steps = .ok schedule)
    (sound : schedule.fault = none) (first : completed = (schedule.steps.take count).map (·.id))
    (notNull : ∀ step ∈ schedule.steps.drop count,
      .null ∈ step.dependencyList → .null ∉ completed) :
    SparesNull completed steps.reverse := by
  have keys := (Schedule.ofSteps_eq_ok scheduled).1
  cases (Schedule.ofSteps_of_keys keys).symm.trans scheduled
  intro step found remains
  have isKey := keys step (List.mem_reverse.mp (stepWith?_mem found))
  have ordered : step ∈ order steps :=
    (mem_order_iff keys sound).mpr ((stepWith?_eq_some_iff isKey).mp found).2
  rw [← List.take_append_drop count (order steps), List.mem_append] at ordered
  refine notNull step (ordered.resolve_left fun taken => ?_)
  have among : step.id.isAmong completed = true :=
    List.any_eq_true.mpr ⟨step.id, first ▸ List.mem_map_of_mem taken, Json.same_self isKey⟩
  rw [isOpen, among] at remains
  cases remains

/-- A schedule that is resumed goes on in its order.  With texts as identifiers there
is a schedule.  Whenever there is one, the same filters schedule the rest of it once
its first steps are completed, unless a step of the rest has a null among its
dependencies and a step with a null as its identifier is completed. -/
theorem resumed_schedule_goes_on (fresh : selection.completed = []) :
    (AreNamed steps → selection.HasKeys →
      (selection.file = "" ∨ ∀ step ∈ steps, ∃ path, step.file = .text path) →
        ∃ schedule, (selection.filter steps >>= Schedule.ofSteps) = .ok schedule ∧
          schedule.fault = none) ∧
      ∀ schedule, (selection.filter steps >>= Schedule.ofSteps) = .ok schedule →
        schedule.fault = none → ∀ count completed,
          completed = (schedule.steps.take count).map (·.id) →
          (∀ step ∈ schedule.steps.drop count,
            .null ∈ step.dependencyList → .null ∉ completed) →
          ∃ rest,
            (({ selection with completed } : Selection).filter steps >>= Schedule.ofSteps) =
                .ok rest ∧
              rest.fault = none ∧ rest.steps = schedule.steps.drop count := by
  refine ⟨AreNamed.scheduled, ?_⟩
  intro schedule made sound count completed first notNull
  obtain ⟨selected, filtered, scheduled⟩ := bind_eq_ok_iff.mp made
  obtain ⟨keys, members, _⟩ := Schedule.ofSteps_eq_ok scheduled
  have completedKeys : ∀ id ∈ completed, id.isKey = true := by
    intro id member
    rw [first] at member
    obtain ⟨step, taken, rfl⟩ := List.mem_map.mp member
    exact keys step (members step (List.mem_of_mem_take taken))
  have spares := sparesNull_of_drop scheduled sound first notNull
  obtain ⟨rest, resumed, faultless, remaining⟩ :=
    Schedule.ofSteps_openSteps scheduled sound spares first
  refine ⟨rest, bind_eq_ok_iff.mpr ⟨openSteps completed selected, ?_, resumed⟩, faultless,
    remaining⟩
  exact Selection.filter_openSteps fresh filtered keys completedKeys

/-- Two steps that need each other and heed a third, a step for all of them, and one
that is left out. -/
def tangledSteps : List Step :=
  [.naming "all" [.text "a", .text "b", .text "c"], .naming "a" [.text "c", .text "b"],
    .naming "b" [.text "a", .text "out"], .naming "c" [.text "z"], .naming "out" []]

theorem resumed_schedule_goes_on_tangled :
    ∃ rest,
      (({ skip := [.text "out"], completed := [.text "c", .text "b"] } : Selection).filter
          tangledSteps >>= Schedule.ofSteps) = .ok rest ∧
        rest.fault = none ∧
          rest.steps = [.naming "a" [.text "c", .text "b"],
            .naming "all" [.text "a", .text "b", .text "c"]] := by
  obtain ⟨_, goesOn⟩ :=
    @resumed_schedule_goes_on tangledSteps { skip := [.text "out"] } rfl
  have scheduled : (({ skip := [.text "out"] } : Selection).filter tangledSteps >>=
      Schedule.ofSteps) = .ok
        { steps := [.naming "c" [.text "z"], .naming "b" [.text "a", .text "out"],
            .naming "a" [.text "c", .text "b"],
            .naming "all" [.text "a", .text "b", .text "c"]]
          warnings := ["Dependency cycle between steps a -> b -> a; breaking it at a"]
          fault := none } := by
    decide +kernel
  exact goesOn _ scheduled rfl 2 _ rfl (by decide +kernel)

/-- A step whose identifier is null, and one that names it before another step. -/
def awaitingSteps : List Step :=
  [{ Step.naming "" [] with id := .null }, .naming "a" [.null, .text "b"], .naming "b" []]

/-- With a completed null the steps that remain come in another order. -/
theorem completed_null_turns_schedule :
    AreDistinct awaitingSteps ∧
      ∃ schedule rest, (({} : Selection).filter awaitingSteps >>= Schedule.ofSteps) = .ok schedule ∧
        schedule.fault = none ∧ (schedule.steps.take 1).map (·.id) = [.null] ∧
          (({ completed := [.null] } : Selection).filter awaitingSteps >>= Schedule.ofSteps) =
              .ok rest ∧
            rest.fault = none ∧ rest.steps ≠ schedule.steps.drop 1 := by
  refine ⟨⟨?_, ?_⟩, ⟨awaitingSteps, [], none⟩,
    ⟨[.naming "b" [], .naming "a" [.null, .text "b"]], [], none⟩, ?_⟩
  · simp [awaitingSteps, Step.naming, Json.isKey]
  · simp [awaitingSteps, Step.naming, Json.key?]
  · decide +kernel

end Restyle
