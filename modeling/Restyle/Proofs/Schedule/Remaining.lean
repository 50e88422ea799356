import Restyle.Proofs.Schedule.Effort
import Restyle.Proofs.Schedule.Selection

/-!
# The steps that remain

When the first steps of an order are completed and taken out, the order of the
steps that remain is the rest of that order.  The walk over the steps that
remain follows the walk over all steps: it does nothing while the other is in a
completed step, and else the same.  What is inside a completed step on the path
is completed too, because it is done before.
-/

namespace Restyle

variable {latest steps : List Step} {completed : List Json} {id other : Json}

/-- Whether an identifier is not completed. -/
def isOpen (completed : List Json) (id : Json) : Bool := !id.isAmong completed

theorem isOpen_congr (isKey : id.isKey = true) (equal : Json.same id other = true) :
    isOpen completed other = isOpen completed id := by
  have otherKey := Json.isKey_of_same isKey equal
  unfold isOpen
  congr 1
  rw [Bool.eq_iff_iff, Json.isAmong_iff otherKey, Json.isAmong_iff isKey,
    (Json.same_iff isKey).mp equal]

/-- Of identifiers that are not completed the same ones are found among all. -/
theorem any_same_filter {α : Type} (name : α → Json) (isKey : id.isKey = true)
    (uncompleted : isOpen completed id = true) (values : List α) :
    ((values.filter fun value => isOpen completed (name value)).any fun value =>
        Json.same id (name value)) =
      values.any fun value => Json.same id (name value) := by
  rw [List.any_filter]
  congr 1
  funext value
  cases equal : Json.same id (name value) with
  | false => rw [Bool.and_false]
  | true => rw [isOpen_congr isKey equal, uncompleted, Bool.and_true]

/-- The steps that are not completed. -/
def openSteps (completed : List Json) (steps : List Step) : List Step :=
  steps.filter fun step => isOpen completed step.id

theorem openSteps_of_open {step : Step} (uncompleted : isOpen completed step.id = true) :
    openSteps completed (step :: steps) = step :: openSteps completed steps :=
  List.filter_cons_of_pos (by exact uncompleted)

theorem openSteps_of_completed {step : Step} (done : isOpen completed step.id = false) :
    openSteps completed (step :: steps) = openSteps completed steps :=
  List.filter_cons_of_neg (by simp [done])

/-- A completed step is not found among the steps that remain, and any other is
found as before. -/
theorem stepWith?_openSteps (isKey : id.isKey = true) :
    stepWith? id (openSteps completed latest) =
      if isOpen completed id then stepWith? id latest else none := by
  unfold stepWith? openSteps
  rw [List.find?_filter]
  cases uncompleted : isOpen completed id with
  | true =>
      rw [if_pos rfl]
      congr 1
      funext step
      cases equal : Json.same id step.id with
      | false => simp
      | true => simp [isOpen_congr isKey equal, uncompleted]
  | false =>
      rw [if_neg (by decide), List.find?_eq_none]
      intro step _ found
      simp only [Bool.decide_and, Bool.decide_eq_true, Bool.and_eq_true] at found
      rw [isOpen_congr isKey found.2, uncompleted] at found
      cases found.1

theorem isOpen_null : isOpen completed .null = true ↔ .null ∉ completed := by
  rw [isOpen, Bool.not_eq_true', ← Bool.not_eq_true, Json.isAmong, List.any_eq_true, not_iff_not]
  constructor
  · rintro ⟨id, member, equal⟩
    exact Json.eq_null_of_null_same equal ▸ member
  · exact fun member => ⟨.null, member, Json.same_self rfl⟩

/-- Whether the steps that remain look at no completed null.  A null ends the
dependencies of a step only as long as there is a step with it as its identifier. -/
def SparesNull (completed : List Json) (latest : List Step) : Prop :=
  ∀ step, stepWith? step.id latest = some step → isOpen completed step.id = true →
    .null ∈ step.dependencyList → .null ∉ completed

/-- Whether a visit that remains looks at no completed null. -/
def Visit.IsSpared (completed : List Json) (visit : Visit) : Prop :=
  isOpen completed visit.id = true → .null ∈ visit.pending → .null ∉ completed

theorem SparesNull.enter (spares : SparesNull completed latest) (isKey : id.isKey = true) :
    (Visit.enter latest id).IsSpared completed := by
  intro uncompleted listed
  cases found : stepWith? id latest with
  | none => simp [Visit.enter, found] at listed
  | some step =>
      have equal := stepWith?_same found
      refine spares step ?_ ?_ ?_
      · rw [← stepWith?_congr isKey ((Json.same_iff isKey).mp equal)]
        exact found
      · rw [isOpen_congr isKey equal]
        exact uncompleted
      · simpa [Visit.enter, found] using listed

namespace Walk

variable {walk next last follower : Walk} {visit : Visit} {outer : List Visit} {dependency : Json}
  {pending : List Json}

theorem enter_openSteps (isKey : id.isKey = true) (uncompleted : isOpen completed id = true) :
    Visit.enter (openSteps completed latest) id = Visit.enter latest id := by
  simp only [Visit.enter, stepWith?_openSteps isKey, uncompleted, if_true]

/-! ## What an advance does -/

theorem advance_of_unknown (path : walk.path = visit :: outer)
    (pends : visit.pending = dependency :: pending) (isKey : dependency.isKey = true)
    (unknown : stepWith? dependency latest = none) :
    walk.advance latest = { walk with path := { visit with pending } :: outer } := by
  simp only [advance, path, pends, isKey, unknown, Bool.not_true, Bool.false_eq_true, if_false,
    Option.isNone_none, if_true]

theorem advance_of_known (path : walk.path = visit :: outer)
    (pends : visit.pending = dependency :: pending) (isKey : dependency.isKey = true)
    (known : (stepWith? dependency latest).isSome = true) (notNull : dependency ≠ .null) :
    walk.advance latest =
      look latest { walk with path := { visit with pending } :: outer } dependency := by
  obtain ⟨step, found⟩ := Option.isSome_iff_exists.mp known
  simp only [advance, path, pends, isKey, found, Bool.not_true, Bool.false_eq_true, if_false,
    Option.isNone_some, if_neg notNull]

theorem advance_of_null (path : walk.path = visit :: outer) (pends : visit.pending = .null :: pending)
    (known : (stepWith? .null latest).isSome = true) :
    walk.advance latest = walk.leave visit outer := by
  obtain ⟨step, found⟩ := Option.isSome_iff_exists.mp known
  simp only [advance, path, pends, found, Json.isKey, Bool.not_true, Bool.false_eq_true, if_false,
    Option.isNone_some, if_true]

/-- Where no null ends the dependencies, a walk does the one thing that it can do. -/
theorem Advances.advance_eq (advance : Advances latest walk next) (sound : next.fault = none)
    (path : walk.path = visit :: outer)
    (goesOn : ∀ pending, visit.pending = .null :: pending → stepWith? .null latest = none) :
    walk.advance latest = next := by
  have notNull : ∀ {dependency pending}, visit.pending = dependency :: pending →
      (stepWith? dependency latest).isSome = true → dependency ≠ .null := by
    rintro dependency pending pends known rfl
    rw [goesOn pending pends] at known
    cases known
  cases advance with
  | leave here ended =>
      cases path.symm.trans here
      rcases ended with finished | ⟨⟨pending, pends⟩, null⟩
      · simp only [Walk.advance, path, finished]
        rfl
      · exact advance_of_null path pends null
  | @pass _ _ dependency pending here pends isKey idle =>
      cases path.symm.trans here
      cases found : stepWith? dependency latest with
      | none => exact advance_of_unknown path pends isKey found
      | some step =>
          have known : (stepWith? dependency latest).isSome = true := by simp [found]
          have done := idle.resolve_left (by simp [found])
          rw [advance_of_known path pends isKey known (notNull pends known), look, if_pos done]
  | close here pends isKey known undone onPath texts =>
      cases path.symm.trans here
      rw [advance_of_known path pends isKey known (notNull pends known), look,
        if_neg (by simp [undone]), if_pos (by simpa [path] using onPath), report]
      simp only [cycleAt_pending, ← path, texts]
  | enter here pends isKey known notNull undone offPath =>
      cases path.symm.trans here
      rw [advance_of_known path pends isKey known notNull, look, if_neg (by simp [undone]),
        if_neg (by simpa [path] using offPath)]
  | stop fault => cases sound

theorem Advances.spared (advance : Advances latest walk next)
    (spares : SparesNull completed latest)
    (spared : ∀ visit ∈ walk.path, visit.IsSpared completed) :
    ∀ visit ∈ next.path, visit.IsSpared completed := by
  have fewer : ∀ {visit : Visit} {outer : List Visit} {dependency : Json} {pending : List Json},
      walk.path = visit :: outer → visit.pending = dependency :: pending →
        ∀ other ∈ { visit with pending } :: outer, other.IsSpared completed := by
    intro visit outer dependency pending path pends
    rw [path, List.forall_mem_cons] at spared
    refine List.forall_mem_cons.mpr ⟨fun uncompleted listed => ?_, spared.2⟩
    exact spared.1 uncompleted (pends ▸ List.mem_cons_of_mem _ listed)
  cases advance with
  | leave path =>
      rw [path] at spared
      exact (List.forall_mem_cons.mp spared).2
  | pass path pends => exact fewer path pends
  | close path pends => exact fewer path pends
  | enter path pends isKey => exact List.forall_mem_cons.mpr ⟨spares.enter isKey, fewer path pends⟩
  | stop fault => nofun

/-! ## The order in which steps are done -/

/-- What is on the path is done later, the innermost first. -/
theorem Advances.order {done later : List Json} (advance : Advances latest walk next)
    (sound : next.fault = none) (whole : done = next.done ++ later)
    (sub : (next.path.map (·.id)).Sublist later) :
    ∃ later, done = walk.done ++ later ∧ (walk.path.map (·.id)).Sublist later := by
  cases advance with
  | @leave visit outer path ended =>
      refine ⟨visit.id :: later, ?_, ?_⟩
      · rw [whole, List.append_assoc]
        rfl
      · rw [path]
        exact sub.cons_cons visit.id
  | pass path =>
      refine ⟨later, whole, ?_⟩
      rw [path]
      exact sub
  | close path =>
      refine ⟨later, whole, ?_⟩
      rw [path]
      exact sub
  | enter path =>
      refine ⟨later, whole, ?_⟩
      rw [path]
      exact (List.sublist_cons_self _ _).trans sub
  | stop fault => cases sound

theorem Reaches.order (reaches : Reaches latest walk last) (ended : last.path = [])
    (sound : last.fault = none) :
    ∃ later, last.done = walk.done ++ later ∧ (walk.path.map (·.id)).Sublist later := by
  induction reaches with
  | refl => exact ⟨[], by simp, by simp [ended]⟩
  | advance busy later induction =>
      obtain ⟨rest, whole, sub⟩ := induction ended sound
      exact (advances busy).order (later.sound sound) whole sub

theorem Visits.order {roots : List Step} (visits : Visits latest roots walk last)
    (sound : last.fault = none) : walk.done <+: last.done := by
  induction visits with
  | nil => exact List.prefix_rfl
  | known _ _ induction => exact induction sound
  | fresh _ walked ended later induction =>
      obtain ⟨rest, whole, _⟩ := walked.order ended (later.sound sound)
      exact (List.prefix_append _ rest).trans (whole ▸ induction sound)

/-- Whether the completed identifiers come first. -/
def StartsCompleted (completed ids : List Json) : Prop :=
  ids.Pairwise fun early late => isOpen completed early = true → isOpen completed late = true

/-! ## Following a walk -/

/-- A walk over the steps that remain is where the walk over all steps is, apart
from the completed steps. -/
structure Follows (completed : List Json) (walk follower : Walk) : Prop where
  path : follower.path = walk.path.filter fun visit => isOpen completed visit.id
  done : follower.done = walk.done.filter (isOpen completed)
  sound : follower.fault = none

/-- Inside a completed step the walk over the steps that remain stands still. -/
theorem Advances.follows_inside (advance : Advances latest walk next) (sound : next.fault = none)
    (path : walk.path = visit :: outer) (inside : isOpen completed visit.id = false)
    (ordered : StartsCompleted completed (next.path.map (·.id)))
    (follows : Follows completed walk follower) : Follows completed next follower := by
  have others : follower.path = outer.filter fun visit => isOpen completed visit.id := by
    rw [follows.path, path, List.filter_cons_of_neg (by simp [inside])]
  cases advance with
  | leave here _ =>
      cases path.symm.trans here
      refine ⟨others, ?_, follows.sound⟩
      rw [follows.done, List.filter_append, List.filter_cons_of_neg (by simp [inside]),
        List.filter_nil, List.append_nil]
  | pass here _ _ _ =>
      cases path.symm.trans here
      refine ⟨?_, follows.done, follows.sound⟩
      rw [others, List.filter_cons_of_neg (by simp [inside])]
  | close here _ _ _ _ _ _ =>
      cases path.symm.trans here
      refine ⟨?_, follows.done, follows.sound⟩
      rw [others, List.filter_cons_of_neg (by simp [inside])]
  | @enter _ _ dependency pending here _ _ _ _ _ _ =>
      cases path.symm.trans here
      have entered : isOpen completed dependency = false := by
        rw [← Bool.not_eq_true]
        intro uncompleted
        have late := (List.pairwise_cons.mp ordered).1 visit.id List.mem_cons_self uncompleted
        rw [inside] at late
        cases late
      have skipped : isOpen completed (Visit.enter latest dependency).id = false := entered
      refine ⟨?_, follows.done, follows.sound⟩
      rw [others, List.filter_cons_of_neg (by simp [skipped]),
        List.filter_cons_of_neg (by simp [inside])]
  | stop fault => cases sound

theorem Follows.leave (follows : Follows completed walk follower)
    (path : walk.path = visit :: outer)
    (outside : ∀ visit ∈ walk.path, isOpen completed visit.id = true) :
    Follows completed (walk.leave visit outer) (follower.leave visit outer) := by
  rw [path] at outside
  obtain ⟨uncompleted, others⟩ := List.forall_mem_cons.mp outside
  refine ⟨(List.filter_eq_self.mpr others).symm, ?_, follows.sound⟩
  simp only [Walk.leave]
  rw [List.filter_append, List.filter_cons_of_pos uncompleted, List.filter_nil, ← follows.done]

theorem Follows.path_of_outside (follows : Follows completed walk follower)
    (path : walk.path = visit :: outer)
    (outside : ∀ visit ∈ walk.path, isOpen completed visit.id = true) :
    follower.path = visit :: outer := by
  rw [follows.path, List.filter_eq_self.mpr outside, path]

theorem Follows.advance_of_null (follows : Follows completed walk follower)
    (path : walk.path = visit :: outer) (pends : visit.pending = .null :: pending)
    (known : (stepWith? .null latest).isSome = true) (spared : visit.IsSpared completed)
    (outside : ∀ visit ∈ walk.path, isOpen completed visit.id = true) :
    Follows completed (walk.advance latest) (follower.advance (openSteps completed latest)) := by
  have followerPath := follows.path_of_outside path outside
  have uncompleted : isOpen completed .null = true := by
    refine isOpen_null.mpr (spared (outside visit ?_) ?_)
    · rw [path]
      exact List.mem_cons_self
    · rw [pends]
      exact List.mem_cons_self
  have knownOpen : (stepWith? .null (openSteps completed latest)).isSome = true := by
    rw [stepWith?_openSteps rfl, uncompleted, if_pos rfl]
    exact known
  rw [Walk.advance_of_null path pends known, Walk.advance_of_null followerPath pends knownOpen]
  exact follows.leave path outside

theorem Follows.isAmong_done (follows : Follows completed walk follower)
    (isKey : dependency.isKey = true) (uncompleted : isOpen completed dependency = true) :
    dependency.isAmong follower.done = dependency.isAmong walk.done := by
  rw [follows.done]
  exact any_same_filter id isKey uncompleted walk.done

theorem Follows.pass (follows : Follows completed walk follower)
    (path : walk.path = visit :: outer)
    (outside : ∀ visit ∈ walk.path, isOpen completed visit.id = true) (pending : List Json) :
    Follows completed { walk with path := { visit with pending } :: outer }
      { follower with path := { visit with pending } :: outer } := by
  rw [path] at outside
  obtain ⟨uncompleted, others⟩ := List.forall_mem_cons.mp outside
  refine ⟨(List.filter_eq_self.mpr ?_).symm, follows.done, follows.sound⟩
  exact List.forall_mem_cons.mpr ⟨uncompleted, others⟩

/-- Outside the completed steps the walk over the steps that remain can do what
the walk over all steps does; a completed dependency it passes over. -/
theorem Advances.followed (advance : Advances latest walk next) (sound : next.fault = none)
    (path : walk.path = visit :: outer)
    (goesOn : ∀ pending, visit.pending = .null :: pending → stepWith? .null latest = none)
    (outside : ∀ visit ∈ walk.path, isOpen completed visit.id = true)
    (follows : Follows completed walk follower) :
    ∃ followed, Advances (openSteps completed latest) follower followed ∧
      Follows completed next followed := by
  have samePath := follows.path_of_outside path outside
  have paths : follower.path = walk.path := samePath.trans path.symm
  have unknown : ∀ {dependency : Json}, dependency.isKey = true →
      isOpen completed dependency = false →
        stepWith? dependency (openSteps completed latest) = none := by
    intro dependency isKey done
    simp [stepWith?_openSteps isKey, done]
  have found : ∀ {dependency : Json}, dependency.isKey = true →
      isOpen completed dependency = true →
        stepWith? dependency (openSteps completed latest) = stepWith? dependency latest := by
    intro dependency isKey uncompleted
    simp [stepWith?_openSteps isKey, uncompleted]
  cases advance with
  | leave here ended =>
      cases path.symm.trans here
      have finished : visit.pending = [] := by
        rcases ended with none | ⟨⟨pending, pends⟩, null⟩
        · exact none
        · rw [goesOn pending pends] at null
          cases null
      exact ⟨_, .leave samePath (Or.inl finished), follows.leave path outside⟩
  | @pass _ _ dependency pending here pends isKey idle =>
      cases path.symm.trans here
      refine ⟨_, .pass samePath pends isKey ?_, follows.pass path outside pending⟩
      cases uncompleted : isOpen completed dependency with
      | false => exact Or.inl (unknown isKey uncompleted)
      | true =>
          rw [found isKey uncompleted, follows.isAmong_done isKey uncompleted]
          exact idle
  | @close _ _ dependency pending cycle here pends isKey known undone onPath texts =>
      cases path.symm.trans here
      have alike := follows.pass path outside pending
      have uncompleted : isOpen completed dependency = true := by
        obtain ⟨there, member, equal⟩ := List.any_eq_true.mp onPath
        rw [← isOpen_congr isKey equal]
        exact outside there member
      rw [← paths] at texts onPath
      refine ⟨_, .close samePath pends isKey ?_ ?_ onPath texts, alike.path, alike.done, alike.sound⟩
      · rw [found isKey uncompleted]
        exact known
      · rw [follows.isAmong_done isKey uncompleted]
        exact undone
  | @enter _ _ dependency pending here pends isKey known notNull undone offPath =>
      cases path.symm.trans here
      have alike := follows.pass path outside pending
      cases uncompleted : isOpen completed dependency with
      | false =>
          have skipped : isOpen completed (Visit.enter latest dependency).id = false := uncompleted
          refine ⟨_, .pass samePath pends isKey (Or.inl (unknown isKey uncompleted)), ?_,
            alike.done, alike.sound⟩
          rw [List.filter_cons_of_neg (by simp [skipped])]
          exact alike.path
      | true =>
          have kept : isOpen completed (Visit.enter latest dependency).id = true := uncompleted
          refine ⟨_, .enter samePath pends isKey ?_ notNull ?_ ?_, ?_, alike.done, alike.sound⟩
          · rw [found isKey uncompleted]
            exact known
          · rw [follows.isAmong_done isKey uncompleted]
            exact undone
          · rw [paths]
            exact offPath
          · rw [enter_openSteps isKey uncompleted, List.filter_cons_of_pos (by exact kept)]
            exact congrArg _ alike.path
  | stop fault => cases sound

/-- What follows a walk outside the completed steps goes on to follow it. -/
theorem Advances.follows_outside (advance : Advances latest walk next) (sound : next.fault = none)
    (path : walk.path = visit :: outer)
    (goesOn : ∀ pending, visit.pending = .null :: pending → stepWith? .null latest = none)
    (outside : ∀ visit ∈ walk.path, isOpen completed visit.id = true)
    (follows : Follows completed walk follower) :
    Follows completed next (follower.advance (openSteps completed latest)) := by
  obtain ⟨followed, advanced, follows'⟩ := advance.followed sound path goesOn outside follows
  have goesOnOpen : ∀ pending, visit.pending = .null :: pending →
      stepWith? .null (openSteps completed latest) = none := by
    intro pending pends
    rw [stepWith?_openSteps rfl, goesOn pending pends, ite_self]
  rw [advanced.advance_eq follows'.sound (follows.path_of_outside path outside) goesOnOpen]
  exact follows'

/-- The walk over the steps that remain follows the walk over all steps to its
end. -/
theorem Reaches.follows {order : List Json} (reaches : Reaches latest walk last)
    (ended : last.path = []) (sound : last.fault = none)
    (spares : SparesNull completed latest)
    (spared : ∀ visit ∈ walk.path, visit.IsSpared completed) (within : last.done <+: order)
    (ordered : StartsCompleted completed order) (follows : Follows completed walk follower) :
    ∃ ending, Reaches (openSteps completed latest) follower ending ∧ Follows completed last ending := by
  induction reaches generalizing follower with
  | refl => exact ⟨follower, .refl, follows⟩
  | @advance walk last busy later induction =>
      have soundNext := later.sound sound
      have orderedAt : ∀ {current : Walk}, Reaches latest current last →
          StartsCompleted completed (current.path.map (·.id)) := by
        intro current reaches
        obtain ⟨rest, whole, sub⟩ := reaches.order ended sound
        exact ordered.sublist ((sub.trans (List.sublist_append_right current.done rest)).trans
          (whole ▸ within.sublist))
      obtain ⟨visit, outer, path⟩ := List.exists_cons_of_ne_nil busy
      have sparedNext := (advances busy).spared spares spared
      cases inside : isOpen completed visit.id with
      | false =>
          exact induction ended sound sparedNext within ((advances busy).follows_inside soundNext
            path inside (orderedAt later) follows)
      | true =>
          have outside : ∀ other ∈ walk.path, isOpen completed other.id = true := by
            have early := orderedAt (.advance busy later)
            rw [path] at early ⊢
            intro other member
            rcases List.mem_cons.mp member with rfl | among
            · exact inside
            · exact (List.pairwise_cons.mp early).1 other.id (List.mem_map_of_mem among) inside
          have followsNext : Follows completed (walk.advance latest)
              (follower.advance (openSteps completed latest)) := by
            by_cases null : (∃ pending, visit.pending = .null :: pending) ∧
                (stepWith? .null latest).isSome = true
            · obtain ⟨⟨pending, pends⟩, known⟩ := null
              exact follows.advance_of_null path pends known
                (spared visit (path ▸ List.mem_cons_self)) outside
            · refine (advances busy).follows_outside soundNext path (fun pending pends => ?_)
                outside follows
              simpa using fun known => null ⟨⟨pending, pends⟩, known⟩
          obtain ⟨ending, reached, followed⟩ := induction ended sound sparedNext within followsNext
          refine ⟨ending, .advance ?_ reached, followed⟩
          rw [follows.path, path, List.filter_cons_of_pos (by exact inside)]
          exact List.cons_ne_nil _ _

theorem Visits.follows {order : List Json} {roots : List Step}
    (visits : Visits latest roots walk last) (sound : last.fault = none)
    (keys : ∀ root ∈ roots, root.id.isKey = true) (idle : walk.path = [])
    (spares : SparesNull completed latest) (within : last.done <+: order)
    (ordered : StartsCompleted completed order) (follows : Follows completed walk follower) :
    ∃ ending, Visits (openSteps completed latest) (openSteps completed roots) follower ending ∧
      Follows completed last ending := by
  induction visits generalizing follower with
  | nil => exact ⟨follower, .nil, follows⟩
  | @known root roots walk last done later induction =>
      obtain ⟨isKey, laterKeys⟩ := List.forall_mem_cons.mp keys
      obtain ⟨ending, visited, followed⟩ := induction sound laterKeys idle within follows
      refine ⟨ending, ?_, followed⟩
      cases uncompleted : isOpen completed root.id with
      | false =>
          rw [openSteps_of_completed uncompleted]
          exact visited
      | true =>
          rw [openSteps_of_open uncompleted]
          refine .known ?_ visited
          rw [follows.done]
          exact (any_same_filter id isKey uncompleted walk.done).trans done
  | @fresh root roots walk next last undone walked ended later induction =>
      obtain ⟨isKey, laterKeys⟩ := List.forall_mem_cons.mp keys
      have soundNext := later.sound sound
      have withinNext := (later.order sound).trans within
      have empty : follower.path = [] := by rw [follows.path, idle, List.filter_nil]
      have spared : ∀ visit ∈ [Visit.enter latest root.id], visit.IsSpared completed :=
        List.forall_mem_singleton.mpr (spares.enter isKey)
      cases uncompleted : isOpen completed root.id with
      | false =>
          have skipped : isOpen completed (Visit.enter latest root.id).id = false := uncompleted
          have started : Follows completed { walk with path := [.enter latest root.id] }
              follower := by
            refine ⟨?_, follows.done, follows.sound⟩
            rw [empty, List.filter_cons_of_neg (by simp [skipped]), List.filter_nil]
          obtain ⟨stop, reached, followed⟩ :=
            walked.follows ended soundNext spares spared withinNext ordered started
          have same : stop = follower := by
            cases reached with
            | refl => rfl
            | advance busy _ => exact absurd empty busy
          obtain ⟨ending, visited, still⟩ :=
            induction sound laterKeys ended within (same ▸ followed)
          refine ⟨ending, ?_, still⟩
          rw [openSteps_of_completed uncompleted]
          exact visited
      | true =>
          have kept : isOpen completed (Visit.enter latest root.id).id = true := uncompleted
          have started : Follows completed { walk with path := [.enter latest root.id] }
              { follower with path := [.enter (openSteps completed latest) root.id] } := by
            refine ⟨?_, follows.done, follows.sound⟩
            rw [enter_openSteps isKey uncompleted, List.filter_cons_of_pos (by exact kept),
              List.filter_nil]
          obtain ⟨stop, reached, followed⟩ :=
            walked.follows ended soundNext spares spared withinNext ordered started
          obtain ⟨ending, visited, still⟩ := induction sound laterKeys ended within followed
          refine ⟨ending, ?_, still⟩
          rw [openSteps_of_open uncompleted]
          refine .fresh ?_ reached ?_ visited
          · rw [follows.done]
            exact (any_same_filter id isKey uncompleted walk.done).trans undone
          · rw [followed.path, ended, List.filter_nil]

theorem stepsDone_drop (names : Names latest walk.entered) (count : Nat) :
    (walk.stepsDone latest).drop count =
      (walk.done.drop count).filterMap fun id => stepWith? id latest := by
  have known := (names.of_sublist (List.sublist_append_right (walk.path.map (·.id)) walk.done)).known
  unfold stepsDone
  generalize walk.done = ids at known
  induction ids generalizing count with
  | nil => simp
  | cons id ids induction =>
      obtain ⟨first, later⟩ := List.forall_mem_cons.mp known
      obtain ⟨step, found⟩ := Option.isSome_iff_exists.mp first
      cases count with
      | zero => rfl
      | succ count =>
          rw [List.filterMap_cons, found]
          exact induction count later

end Walk

theorem isOpen_of_first {ids : List Json} {count : Nat} (keys : ∀ id ∈ ids, id.isKey = true)
    (distinct : (ids.map Json.key?).Nodup)
    (first : completed.map Json.key? = (ids.take count).map Json.key?) :
    (∀ id ∈ ids.take count, isOpen completed id = false) ∧
      ∀ id ∈ ids.drop count, isOpen completed id = true := by
  have isOpen_iff : ∀ id ∈ ids,
      isOpen completed id = true ↔ id.key? ∉ (ids.take count).map Json.key? := by
    intro id member
    rw [isOpen, Bool.not_eq_true', Json.not_isAmong_iff (keys id member), first]
  rw [← List.take_append_drop count ids, List.map_append, List.nodup_append] at distinct
  constructor
  · intro id member
    rw [← Bool.not_eq_true, isOpen_iff id (List.mem_of_mem_take member), not_not]
    exact List.mem_map_of_mem member
  · intro id member
    rw [isOpen_iff id (List.mem_of_mem_drop member)]
    intro among
    exact distinct.2.2 _ among _ (List.mem_map_of_mem member) rfl

theorem startsCompleted_of_first {ids : List Json} {count : Nat}
    (before : ∀ id ∈ ids.take count, isOpen completed id = false)
    (after : ∀ id ∈ ids.drop count, isOpen completed id = true) :
    Walk.StartsCompleted completed ids := by
  unfold Walk.StartsCompleted
  rw [← List.take_append_drop count ids, List.pairwise_append]
  refine ⟨?_, ?_, ?_⟩
  · refine List.pairwise_iff_forall_sublist.mpr fun {early late} sub uncompleted => ?_
    rw [before early (sub.subset (by simp))] at uncompleted
    cases uncompleted
  · exact List.pairwise_iff_forall_sublist.mpr fun {early late} sub _ =>
      after late (sub.subset (by simp))
  · exact fun _ _ late member _ => after late member

theorem filter_isOpen_of_first {ids : List Json} {count : Nat}
    (before : ∀ id ∈ ids.take count, isOpen completed id = false)
    (after : ∀ id ∈ ids.drop count, isOpen completed id = true) :
    ids.filter (isOpen completed) = ids.drop count := by
  conv_lhs => rw [← List.take_append_drop count ids]
  rw [List.filter_append, List.filter_eq_nil_iff.mpr, List.filter_eq_self.mpr after,
    List.nil_append]
  intro id member
  simp [before id member]

/-- When the first steps of the order are completed, the order of the steps that
remain is the rest of it. -/
theorem walkSteps_openSteps {count : Nat} (keys : ∀ step ∈ steps, step.id.isKey = true)
    (sound : (walkSteps steps).fault = none) (spares : SparesNull completed steps.reverse)
    (first : completed = ((order steps).take count).map (·.id)) :
    (walkSteps (openSteps completed steps)).fault = none ∧
      order (openSteps completed steps) = (order steps).drop count := by
  have names := walkSteps_names keys
  obtain ⟨doneKeys, _, distinct⟩ :=
    names.of_sublist (List.sublist_append_right ((walkSteps steps).path.map (·.id)) _)
  have completedKeys : completed.map Json.key? =
      ((walkSteps steps).done.take count).map Json.key? := by
    have all := Walk.stepsDone_keys names
    rw [first, List.map_map, List.map_take, List.map_take, ← all]
    rfl
  obtain ⟨before, after⟩ := isOpen_of_first doneKeys distinct completedKeys
  have reversed : openSteps completed steps.reverse = (openSteps completed steps).reverse :=
    (List.filter_reverse ..)
  obtain ⟨ending, visited, followed⟩ := (walkSteps_visits keys sound).follows sound keys rfl spares
    List.prefix_rfl (startsCompleted_of_first before after)
    (⟨rfl, rfl, rfl⟩ : Walk.Follows completed {} {})
  rw [reversed] at visited
  have same : walkSteps (openSteps completed steps) = ending :=
    walkSteps_of_visits (fun step member => keys step (List.mem_of_mem_filter member)) visited
      followed.sound
  refine ⟨same ▸ followed.sound, ?_⟩
  have doneOpen : ending.done = (walkSteps steps).done.drop count :=
    followed.done.trans (filter_isOpen_of_first before after)
  unfold order
  rw [same, Walk.stepsDone_drop names, Walk.stepsDone, doneOpen, ← reversed]
  apply List.filterMap_congr
  intro id member
  rw [stepWith?_openSteps (doneKeys id (List.mem_of_mem_drop member)), after id member, if_pos rfl]

/-- With the first steps of a schedule completed, the rest of it is scheduled. -/
theorem Schedule.ofSteps_openSteps {count : Nat} {schedule : Schedule}
    (scheduled : Schedule.ofSteps steps = .ok schedule) (sound : schedule.fault = none)
    (spares : SparesNull completed steps.reverse)
    (first : completed = (schedule.steps.take count).map (·.id)) :
    ∃ rest, Schedule.ofSteps (openSteps completed steps) = .ok rest ∧ rest.fault = none ∧
      rest.steps = schedule.steps.drop count := by
  have keys := (Schedule.ofSteps_eq_ok scheduled).1
  obtain ⟨ids, keyed, built⟩ := bind_eq_ok_iff.mp scheduled
  cases built
  obtain ⟨faultless, ordered⟩ := walkSteps_openSteps keys sound spares first
  have openKeys : ∀ step ∈ openSteps completed steps, step.id.isKey = true :=
    fun step member => keys step (List.mem_of_mem_filter member)
  exact ⟨_, Schedule.ofSteps_of_keys openKeys, faultless, ordered⟩

/-- The selection of a run that resumes takes the open steps of what it took
before. -/
theorem Selection.filter_openSteps {selection : Selection} {kept : List Step}
    (fresh : selection.completed = []) (selected : selection.filter steps = .ok kept)
    (stepKeys : ∀ step ∈ kept, step.id.isKey = true)
    (completedKeys : ∀ id ∈ completed, id.isKey = true) :
    ({ selection with completed } : Selection).filter steps = .ok (openSteps completed kept) := by
  obtain ⟨first, chosen, rest⟩ := bind_eq_ok_iff.mp selected
  obtain ⟨second, skipped, rest⟩ := bind_eq_ok_iff.mp rest
  obtain ⟨third, located, last⟩ := bind_eq_ok_iff.mp rest
  have same : kept = third := by
    rw [fresh] at last
    obtain ⟨_, ⟨_, same⟩ | ⟨some, _⟩⟩ := selectIds_eq_ok.mp last
    · exact same
    · exact absurd rfl some
  subst same
  refine bind_eq_ok_iff.mpr ⟨first, chosen, bind_eq_ok_iff.mpr ⟨second, skipped,
    bind_eq_ok_iff.mpr ⟨kept, located, selectIds_eq_ok.mpr ⟨completedKeys, ?_⟩⟩⟩⟩
  by_cases none : completed = []
  · refine Or.inl ⟨none, ?_⟩
    simp [openSteps, isOpen, none, Json.isAmong]
  · refine Or.inr ⟨none, stepKeys, ?_⟩
    apply List.filter_congr
    intro step _
    cases among : step.id.isAmong completed <;> simp [isOpen, among]

end Restyle
