import Restyle.Proofs.Schedule.Coverage

/-!
# Dependencies come first

A step comes after each dependency that it heeds, unless a cycle is reported and
the dependency needs the step in turn.  A reported cycle is one of steps that need
themselves.  So where no step needs itself, the walk reports no cycle, meets no
fault and puts all dependencies first.
-/

namespace Restyle

open Relation

variable {latest steps : List Step} {id dependency : Json} {step early late : Step}

/-- A step of a list has another step of it as a dependency. -/
def Step.DependsOn (steps : List Step) (late early : Step) : Prop :=
  late ∈ steps ∧ early ∈ steps ∧ early.id.isAmong late.dependencyList = true

/-- A step of a list has another step of it as a dependency that is looked at. -/
def Step.Heeds (steps : List Step) (late early : Step) : Prop :=
  late ∈ steps ∧ early ∈ steps ∧ early.id.isAmong (late.heeded steps) = true

instance : Decidable (Step.DependsOn steps late early) :=
  inferInstanceAs (Decidable (late ∈ steps ∧ early ∈ steps ∧ _ = true))

instance : Decidable (Step.Heeds steps late early) :=
  inferInstanceAs (Decidable (late ∈ steps ∧ early ∈ steps ∧ _ = true))

theorem Step.Heeds.dependsOn (heeds : late.Heeds steps early) : late.DependsOn steps early := by
  obtain ⟨member, among, listed⟩ := heeds
  obtain ⟨dependency, heeded, equal⟩ := List.any_eq_true.mp listed
  exact ⟨member, among, List.any_eq_true.mpr ⟨dependency, Step.mem_of_heeded heeded, equal⟩⟩

theorem Step.heeded_reverse (step : Step) : step.heeded steps.reverse = step.heeded steps := by
  simp [Step.heeded]

theorem Step.heeded_eq (notNull : ∀ step ∈ steps, step.id ≠ .null) (step : Step) :
    step.heeded steps = step.dependencyList := by
  unfold Step.heeded
  rw [if_neg]
  rintro ⟨other, member, isNull⟩
  exact notNull other member isNull

theorem Step.DependsOn.heeds (notNull : ∀ step ∈ steps, step.id ≠ .null)
    (dependsOn : late.DependsOn steps early) : late.Heeds steps early := by
  obtain ⟨member, among, listed⟩ := dependsOn
  refine ⟨member, among, ?_⟩
  rw [Step.heeded_eq notNull]
  exact listed

/-- The step that a heeded dependency names comes before or needs the step in turn, and
then a cycle is reported. -/
theorem mem_before_of_named {before behind : List Step}
    (keys : ∀ step ∈ steps, step.id.isKey = true)
    (ordered : order steps = before ++ late :: behind) (heeded : dependency ∈ late.heeded steps)
    (named : stepWith? dependency steps.reverse = some early) :
    early ∈ before ∨ cycles steps ≠ [] ∧ TransGen (Step.Needs steps.reverse) early late := by
  obtain ⟨first, second, done, beforeFirst, fromSecond⟩ := List.filterMap_eq_append_iff.mp ordered
  obtain ⟨unknown, id, later, rfl, noSteps, found, _⟩ := List.filterMap_eq_cons_iff.mp fromSecond
  have within : (first ++ unknown) ++ [id] <+: (walkSteps steps).done := by
    rw [done]
    exact ⟨later, by simp⟩
  rw [← Step.heeded_reverse] at heeded
  have traced := Walk.walkSteps_traced keys
  rcases traced.after _ id within late found dependency heeded early named with
    ⟨other, there, reached⟩ | ⟨reported, back⟩
  · left
    rw [← beforeFirst]
    refine List.mem_filterMap.mpr ⟨other, ?_, reached⟩
    rcases List.mem_append.mp there with here | there
    · exact here
    · rw [noSteps other there] at reached
      cases reached
  · right
    refine ⟨?_, back⟩
    simpa [Walk.hasReported, cycles] using reported

/-- What a step needs it has as a dependency. -/
theorem Step.Needs.dependsOn (keys : ∀ step ∈ steps, step.id.isKey = true)
    (needs : late.Needs steps.reverse early) : late.DependsOn steps early := by
  obtain ⟨member, dependency, listed, named⟩ := needs
  have among := List.mem_reverse.mp (stepWith?_mem named)
  have isKey := keys early among
  have equal := stepWith?_same named
  have dependencyKey := Json.isKey_of_same_key isKey equal
  refine ⟨List.mem_reverse.mp member, among, List.any_eq_true.mpr ⟨dependency, listed, ?_⟩⟩
  exact (Json.same_iff isKey).mpr ((Json.same_iff dependencyKey).mp equal).symm

/-- Steps that depend on steps of lower rank only do not need themselves. -/
theorem not_dependsOn_itself {rank : Step → Nat}
    (falls : ∀ late early, late.DependsOn steps early → rank early < rank late) (step : Step) :
    ¬ TransGen (Step.DependsOn steps) step step := by
  have below : ∀ {late early : Step}, TransGen (Step.DependsOn steps) late early →
      rank early < rank late := by
    intro late early needs
    induction needs with
    | single direct => exact falls _ _ direct
    | tail _ direct induction => exact (falls _ _ direct).trans induction
  exact fun around => Nat.lt_irrefl _ (below around)

section
variable (keys : ∀ step ∈ steps, step.id.isKey = true)
  (sound : (walkSteps steps).fault = none)
include keys sound

theorem stepWith?_of_mem_order (among : early ∈ order steps)
    (equal : Json.same early.id dependency = true) :
    stepWith? dependency steps.reverse = some early := by
  have last := (mem_order_iff keys sound).mp among
  have isKey := keys early last.mem
  have dependencyKey := Json.isKey_of_same isKey equal
  apply (stepWith?_eq_some_iff dependencyKey).mpr
  exact ⟨(Json.same_iff dependencyKey).mpr ((Json.same_iff isKey).mp equal).symm, last⟩

/-- A null is an identifier in the order if it is one in the list. -/
theorem Step.heeded_order (step : Step) : step.heeded (order steps) = step.heeded steps := by
  have same : (∃ other ∈ order steps, other.id = .null) ↔ ∃ other ∈ steps, other.id = .null := by
    constructor
    · rintro ⟨other, among, isNull⟩
      exact ⟨other, ((mem_order_iff keys sound).mp among).mem, isNull⟩
    · rintro ⟨other, member, isNull⟩
      have named : (stepWith? .null steps.reverse).isSome = true := by
        apply stepWith?_isSome (List.mem_reverse.mpr member)
        rw [isNull]
        exact Json.same_self rfl
      obtain ⟨last, found⟩ := Option.isSome_iff_exists.mp named
      obtain ⟨equal, isLast⟩ := (stepWith?_eq_some_iff (by rfl)).mp found
      exact ⟨last, (mem_order_iff keys sound).mpr isLast, Json.eq_null_of_null_same equal⟩
  simp only [Step.heeded, same]

/-- Where no step needs itself, a step of the order comes before the steps of it that
heed it, also when steps of the list have one identifier. -/
theorem mem_before_of_acyclic {before behind : List Step}
    (acyclic : ∀ step, ¬ TransGen (Step.DependsOn steps) step step)
    (ordered : order steps = before ++ late :: behind) (among : early ∈ order steps)
    (listed : early.id.isAmong (late.heeded (order steps)) = true) : early ∈ before := by
  obtain ⟨dependency, heeded, equal⟩ := List.any_eq_true.mp listed
  rw [Step.heeded_order keys sound] at heeded
  have named := stepWith?_of_mem_order keys sound among equal
  rcases mem_before_of_named keys ordered heeded named with earlier | ⟨_, back⟩
  · exact earlier
  · have there : late ∈ order steps := ordered ▸ List.mem_append_right _ List.mem_cons_self
    have member := ((mem_order_iff keys sound).mp there).mem
    have needs : late.Needs steps.reverse early :=
      ⟨List.mem_reverse.mpr member, dependency, Step.mem_of_heeded heeded, named⟩
    exact absurd (TransGen.mono (fun _ _ => Step.Needs.dependsOn keys) _ _ (back.tail needs))
      (acyclic early)

end

namespace AreDistinct

variable (areDistinct : AreDistinct steps)
include areDistinct

theorem stepWith?_of_isAmong {dependencies : List Json} (among : early ∈ steps)
    (listed : early.id.isAmong dependencies = true) :
    ∃ dependency ∈ dependencies, stepWith? dependency steps.reverse = some early := by
  obtain ⟨dependency, member, equal⟩ := List.any_eq_true.mp listed
  have isKey := areDistinct.keys early among
  have dependencyKey := Json.isKey_of_same isKey equal
  refine ⟨dependency, member, areDistinct.stepWith?_eq among dependencyKey ?_⟩
  exact (Json.same_iff dependencyKey).mpr ((Json.same_iff isKey).mp equal).symm

theorem needs_iff : late.Needs steps.reverse early ↔ late.DependsOn steps early := by
  constructor
  · exact Step.Needs.dependsOn areDistinct.keys
  · rintro ⟨member, among, listed⟩
    exact ⟨List.mem_reverse.mpr member, areDistinct.stepWith?_of_isAmong among listed⟩

/-- What a step heeds comes before it or needs it in turn, and then a cycle is
reported. -/
theorem mem_before {before behind : List Step} (heeds : late.Heeds steps early)
    (ordered : order steps = before ++ late :: behind) :
    early ∈ before ∨ cycles steps ≠ [] ∧ TransGen (Step.DependsOn steps) early late := by
  obtain ⟨_, among, listed⟩ := heeds
  obtain ⟨dependency, heeded, named⟩ := areDistinct.stepWith?_of_isAmong among listed
  apply (mem_before_of_named areDistinct.keys ordered heeded named).imp_right
  rintro ⟨reported, back⟩
  exact ⟨reported, TransGen.mono (fun _ _ => areDistinct.needs_iff.mp) _ _ back⟩

theorem precedes (sound : (walkSteps steps).fault = none) (heeds : late.Heeds steps early) :
    [early, late].Sublist (order steps) ∨
      cycles steps ≠ [] ∧ TransGen (Step.DependsOn steps) early late := by
  have placed := (areDistinct.order_perm sound).mem_iff.mpr heeds.1
  obtain ⟨before, behind, ordered⟩ := List.append_of_mem placed
  apply (areDistinct.mem_before heeds ordered).imp_left
  intro earlier
  rw [ordered]
  exact (List.singleton_sublist.mpr earlier).append (List.singleton_sublist.mpr List.mem_cons_self)

theorem dependsOn_of_links {name next : String} (links : TransGen (Links steps) name next)
    (member : late ∈ steps) (named : late.id = .text name) (among : early ∈ steps)
    (reached : early.id = .text next) : TransGen (Step.DependsOn steps) late early := by
  have direct : ∀ {name next : String} {late early : Step}, Links steps name next →
      late ∈ steps → late.id = .text name → early ∈ steps → early.id = .text next →
        late.DependsOn steps early := by
    rintro name next late early ⟨step, there, isNamed, listed⟩ member named among reached
    have same : step = late := by
      apply areDistinct.eq_of_same there member
      rw [isNamed, named]
      exact Json.same_self rfl
    subst same
    refine ⟨member, among, List.any_eq_true.mpr ⟨.text next, listed, ?_⟩⟩
    rw [reached]
    exact Json.same_self rfl
  induction links generalizing early with
  | single link => exact .single (direct link member named among reached)
  | tail _ link induction =>
      have ⟨middle, there, isNamed, _⟩ := link
      exact (induction there isNamed).tail (direct link there isNamed among reached)

theorem cyclic {cycle : Cycle} (isIn : cycle.IsIn steps) :
    ∃ step, TransGen (Step.DependsOn steps) step step := by
  obtain ⟨⟨first, rest, rfl, _⟩, linked⟩ := isIn
  have around : TransGen (Links steps) first first :=
    (linked.imp fun _ _ link => TransGen.single link).rel_cons
      (List.mem_append_right _ List.mem_cons_self)
  obtain ⟨_, ⟨step, member, named, _⟩, _⟩ := TransGen.head'_iff.mp around
  exact ⟨step, areDistinct.dependsOn_of_links around member named member named⟩

end AreDistinct

/-- Dependencies come first.  With texts as identifiers the steps have a schedule,
and all dependencies are looked at.  Whenever there is a schedule, each dependency of
a step that is looked at comes before the step or needs it in turn; where no step
needs itself, each comes before it. -/
theorem heeded_steps_come_first (areDistinct : AreDistinct steps) :
    ∃ schedule, Schedule.ofSteps steps = .ok schedule ∧
      (AreNamed steps →
        schedule.fault = none ∧ ∀ step : Step, step.heeded steps = step.dependencyList) ∧
      (schedule.fault = none →
        (∀ late early, late.Heeds steps early →
          [early, late].Sublist schedule.steps ∨
            TransGen (Step.DependsOn steps) early late) ∧
          ((∀ step, ¬ TransGen (Step.DependsOn steps) step step) →
            ∀ late early, late.Heeds steps early → [early, late].Sublist schedule.steps)) := by
  refine ⟨_, Schedule.ofSteps_of_keys areDistinct.keys, ?_, ?_⟩
  · intro named
    exact ⟨named.sound, Step.heeded_eq (notNull_of_texts named.texts)⟩
  intro sound
  have first : ∀ late early, late.Heeds steps early →
      [early, late].Sublist (order steps) ∨ TransGen (Step.DependsOn steps) early late :=
    fun late early heeds => (areDistinct.precedes sound heeds).imp_right And.right
  refine ⟨first, ?_⟩
  intro acyclic late early heeds
  rcases first late early heeds with earlier | back
  · exact earlier
  · exact absurd (back.tail heeds.dependsOn) (acyclic early)

/-- Three steps of which two need each other and heed the third, which has a
dependency that is no step. -/
def knotSteps : List Step :=
  [.naming "a" [.text "b", .text "c", .text "c"], .naming "b" [.text "c", .text "a"],
    .naming "c" [.text "z"]]

theorem knotSteps_texts : ∀ step ∈ knotSteps, ∃ name, step.id = .text name := by
  simp [knotSteps, Step.naming]

theorem knotSteps_nodup : (knotSteps.map (·.id)).Nodup := by
  simp [knotSteps, Step.naming]

theorem knotSteps_keys : ∀ step ∈ knotSteps, ∀ dependency ∈ step.dependencyList,
    dependency.isKey = true := by
  simp [knotSteps, Step.naming, Step.dependencyList, Json.isKey]

theorem heeded_steps_come_first_knot :
    ∃ schedule, Schedule.ofSteps knotSteps = .ok schedule ∧
      [Step.naming "c" [.text "z"], .naming "b" [.text "c", .text "a"]].Sublist schedule.steps := by
  obtain ⟨schedule, made, there, first⟩ :=
    heeded_steps_come_first (AreDistinct.of_texts knotSteps_texts knotSteps_nodup)
  obtain ⟨sound, _⟩ := there ⟨knotSteps_texts, knotSteps_keys⟩
  refine ⟨schedule, made, ((first sound).1 (.naming "b" [.text "c", .text "a"])
    (.naming "c" [.text "z"]) (by decide +kernel)).resolve_right ?_⟩
  intro back
  have needsNone : ∀ step ∈ knotSteps, ¬ (Step.naming "c" [.text "z"]).DependsOn knotSteps step := by
    decide +kernel
  obtain ⟨step, dependsOn, _⟩ := TransGen.head'_iff.mp back
  exact needsNone step dependsOn.2.1 dependsOn

/-- A step that has a null before another step among its dependencies, and a step
whose identifier is null. -/
def hidingSteps : List Step :=
  [.naming "a" [.null, .text "b"], .naming "b" [], { Step.naming "" [] with id := .null }]

/-- A null that is the identifier of a step hides the dependencies behind it. -/
theorem null_hides_dependency :
    AreDistinct hidingSteps ∧
      Schedule.ofSteps hidingSteps = .ok { steps := hidingSteps, warnings := [], fault := none } ∧
      (Step.naming "a" [.null, .text "b"]).DependsOn hidingSteps (.naming "b" []) ∧
      ¬ [Step.naming "b" [], .naming "a" [.null, .text "b"]].Sublist hidingSteps ∧
      ¬ TransGen (Step.DependsOn hidingSteps) (.naming "b" [])
          (.naming "a" [.null, .text "b"]) := by
  refine ⟨⟨?_, ?_⟩, by decide +kernel, by decide +kernel, by decide +kernel, ?_⟩
  · simp [hidingSteps, Step.naming, Json.isKey]
  · simp [hidingSteps, Step.naming, Json.key?]
  · intro back
    obtain ⟨step, ⟨_, _, listed⟩, _⟩ := TransGen.head'_iff.mp back
    cases listed

theorem isIn_of_mem_cycles {cycle : Cycle} (keys : ∀ step ∈ steps, step.id.isKey = true)
    (reported : cycle ∈ cycles steps) : cycle.IsIn steps := by
  have isIn := (Walk.walkSteps_traced keys).genuine cycle reported
  have same : Links steps.reverse = Links steps := by
    funext name next
    simp [Links]
  exact ⟨isIn.closed, same ▸ isIn.linked⟩

namespace AreDistinct

/-- Where no step needs itself, a walk meets no fault if dependencies can be keys. -/
theorem sound_of_acyclic (areDistinct : AreDistinct steps)
    (dependencyKeys : ∀ step ∈ steps, ∀ dependency ∈ step.dependencyList, dependency.isKey = true)
    (acyclic : ∀ step, ¬ TransGen (Step.DependsOn steps) step step) :
    (walkSteps steps).fault = none := by
  apply Walk.walkSteps_sound areDistinct.keys
  intro walk busy traced
  apply traced.advance_fault busy
  · intro step member
    exact dependencyKeys step (List.mem_reverse.mp member)
  · intro dependency known chained onPath
    obtain ⟨there, member, equal⟩ := List.any_eq_true.mp onPath
    obtain ⟨step, named⟩ := Option.isSome_iff_exists.mp known
    have dependencyKey := Json.isKey_of_same_key
      (traced.names.keys there.id (List.mem_append_left _ (List.mem_map_of_mem member))) equal
    have reached : stepWith? there.id steps.reverse = some step := by
      rw [← stepWith?_congr dependencyKey ((Json.same_iff dependencyKey).mp equal), named]
    have leads := Walk.leads_of_chain chained (List.mem_map_of_mem member)
    have around := Walk.needs_of_declares leads reached named
    exact absurd (TransGen.mono (fun _ _ => areDistinct.needs_iff.mp) _ _ around) (acyclic step)

theorem no_cycles (areDistinct : AreDistinct steps)
    (acyclic : ∀ step, ¬ TransGen (Step.DependsOn steps) step step) : cycles steps = [] := by
  apply List.eq_nil_iff_forall_not_mem.mpr
  intro cycle reported
  obtain ⟨step, circular⟩ := areDistinct.cyclic (isIn_of_mem_cycles areDistinct.keys reported)
  exact acyclic step circular

end AreDistinct

/-- Steps that can be put in order: no two have one identifier, none needs
itself, and all identifiers and dependencies can be keys. -/
structure Orderable (steps : List Step) : Prop where
  keys : ∀ step ∈ steps, step.id.isKey = true
  notNull : ∀ step ∈ steps, step.id ≠ .null
  distinct : (steps.map (·.id.key?)).Nodup
  dependencyKeys : ∀ step ∈ steps, ∀ dependency ∈ step.dependencyList, dependency.isKey = true
  acyclic : ∀ step, ¬ TransGen (Step.Needs steps.reverse) step step

namespace Orderable

theorem areDistinct (orderable : Orderable steps) : AreDistinct steps :=
  ⟨orderable.keys, orderable.distinct⟩

theorem not_dependsOn (orderable : Orderable steps) (step : Step) :
    ¬ TransGen (Step.DependsOn steps) step step :=
  fun around => orderable.acyclic step
    (TransGen.mono (fun _ _ => orderable.areDistinct.needs_iff.mpr) _ _ around)

theorem sound (orderable : Orderable steps) : (walkSteps steps).fault = none :=
  orderable.areDistinct.sound_of_acyclic orderable.dependencyKeys orderable.not_dependsOn

theorem no_cycles (orderable : Orderable steps) : cycles steps = [] :=
  orderable.areDistinct.no_cycles orderable.not_dependsOn

theorem stepWith?_eq (orderable : Orderable steps) (member : step ∈ steps) (isKey : id.isKey = true)
    (equal : Json.same id step.id = true) : stepWith? id steps.reverse = some step :=
  orderable.areDistinct.stepWith?_eq member isKey equal

theorem order_perm (orderable : Orderable steps) : (order steps).Perm steps :=
  orderable.areDistinct.order_perm orderable.sound

theorem precedes (orderable : Orderable steps) {before behind : List Step}
    (ordered : order steps = before ++ late :: behind) (needs : late.Needs steps.reverse early) :
    early ∈ before := by
  have heeds := (orderable.areDistinct.needs_iff.mp needs).heeds orderable.notNull
  rcases orderable.areDistinct.mem_before heeds ordered with earlier | ⟨reported, _⟩
  · exact earlier
  · exact absurd orderable.no_cycles reported

theorem schedule (orderable : Orderable steps) :
    Schedule.ofSteps steps = .ok { steps := order steps, warnings := [], fault := none } := by
  rw [Schedule.ofSteps_of_keys orderable.keys, orderable.no_cycles, orderable.sound]
  rfl

end Orderable

end Restyle
