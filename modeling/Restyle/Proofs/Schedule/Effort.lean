import Restyle.Proofs.Schedule.Walks

/-!
# Walks come to an end

Every advance of a walk takes a dependency from the path, leaves a step or
enters a new one.  So the effort that is left goes down each time, and the
number of advances that a walk is given is enough to empty its path.  The whole
walk is then the one that visits the roots in order, each to the end.
-/

namespace Restyle

namespace Walk

variable {latest steps roots : List Step} {walk next last : Walk}

/-- One walk turns into another by advances. -/
inductive Reaches (latest : List Step) : Walk → Walk → Prop where
  | refl {walk : Walk} : Reaches latest walk walk
  | advance {walk last : Walk} (busy : walk.path ≠ [])
      (later : Reaches latest (walk.advance latest) last) : Reaches latest walk last

theorem run_reaches (fuel : Nat) (walk : Walk) : Reaches latest walk (run latest fuel walk) := by
  induction fuel generalizing walk with
  | zero => exact .refl
  | succ fuel induction =>
      rw [run]
      split
      · exact .refl
      · rename_i busy
        exact .advance (by simpa using busy) (induction _)

/-- Advances lead to one end only. -/
theorem Reaches.unique {other : Walk} (first : Reaches latest walk last)
    (second : Reaches latest walk other) (ended : last.path = []) (otherEnded : other.path = []) :
    last = other := by
  induction first with
  | refl =>
      cases second with
      | refl => rfl
      | advance busy _ => exact absurd ended busy
  | advance busy _ induction =>
      cases second with
      | refl => exact absurd otherEnded busy
      | advance _ later => exact induction later ended

theorem Advances.sound (advance : Advances latest walk next) (sound : next.fault = none) :
    walk.fault = none := by
  cases advance with
  | stop fault => cases sound
  | _ => exact sound

theorem Reaches.sound (reaches : Reaches latest walk last) (sound : last.fault = none) :
    walk.fault = none := by
  induction reaches with
  | refl => exact sound
  | advance busy _ induction => exact (advances busy).sound (induction sound)

/-- The steps whose identifier the walk has not come to. -/
def unentered (latest : List Step) (walk : Walk) : List Step :=
  latest.filter fun step => !step.id.isAmong walk.entered

/-- The effort of taking steps: each is entered, looks at its dependencies and is
left. -/
def effortOf (steps : List Step) : Nat :=
  (steps.map fun step => step.dependencyList.length + 2).sum

/-- A bound on the advances that are left. -/
def effort (latest : List Step) (walk : Walk) : Nat :=
  (walk.path.map fun visit => visit.pending.length + 1).sum + effortOf (unentered latest walk)

theorem bound_eq (steps : List Step) : bound steps = effortOf steps := by
  unfold bound effortOf
  induction steps with
  | nil => rfl
  | cons step steps induction => rw [List.foldr_cons, induction, List.map_cons, List.sum_cons]

theorem effortOf_reverse (steps : List Step) : effortOf steps.reverse = effortOf steps :=
  ((List.reverse_perm steps).map _).sum_eq

theorem effortOf_sublist {fewer : List Step} (sub : fewer.Sublist steps) :
    effortOf fewer ≤ effortOf steps := by
  induction sub with
  | slnil => exact Nat.le_refl _
  | cons step _ induction =>
      simp only [effortOf, List.map_cons, List.sum_cons] at induction ⊢
      omega
  | cons_cons step _ induction =>
      simp only [effortOf, List.map_cons, List.sum_cons] at induction ⊢
      omega

theorem effortOf_filter {choose narrower : Step → Bool} {step : Step} (member : step ∈ steps)
    (within : ∀ other, narrower other = true → choose other = true)
    (chosen : choose step = true) (dropped : narrower step = false) :
    effortOf (steps.filter narrower) + (step.dependencyList.length + 2) ≤
      effortOf (steps.filter choose) := by
  induction steps with
  | nil => cases member
  | cons first steps induction =>
      have rest : effortOf (steps.filter narrower) ≤ effortOf (steps.filter choose) :=
        effortOf_sublist (List.monotone_filter_right steps within)
      rcases List.mem_cons.mp member with rfl | later
      · rw [List.filter_cons_of_neg (by simp [dropped]), List.filter_cons_of_pos chosen]
        simp only [effortOf, List.map_cons, List.sum_cons] at rest ⊢
        omega
      · have shorter := induction later
        cases narrow : narrower first with
        | true =>
            rw [List.filter_cons_of_pos narrow, List.filter_cons_of_pos (within first narrow)]
            simp only [effortOf, List.map_cons, List.sum_cons] at shorter ⊢
            omega
        | false =>
            rw [List.filter_cons_of_neg (by simp [narrow])]
            refine shorter.trans (effortOf_sublist ?_)
            rw [List.filter_cons]
            split
            · exact List.sublist_cons_self _ _
            · exact .refl _

/-- Entering a step costs no more than was set aside for it. -/
theorem effortOf_enter {ids : List Json} {id : Json} (isKey : id.isKey = true)
    (known : (stepWith? id latest).isSome = true) (fresh : id.isAmong ids = false) :
    effortOf (latest.filter fun step => !step.id.isAmong (id :: ids)) +
        ((Visit.enter latest id).pending.length + 2) ≤
      effortOf (latest.filter fun step => !step.id.isAmong ids) := by
  obtain ⟨step, found⟩ := Option.isSome_iff_exists.mp known
  have pending : (Visit.enter latest id).pending = step.dependencyList := by
    simp [Visit.enter, found]
  have equal := (Json.same_iff isKey).mp (stepWith?_same found)
  have stepKey := Json.isKey_of_same isKey (stepWith?_same found)
  rw [pending]
  apply effortOf_filter (stepWith?_mem found)
  · intro other outside
    simp only [Json.isAmong, List.any_cons, Bool.not_or, Bool.and_eq_true] at outside
    exact outside.2
  · rw [Bool.not_eq_true', Json.not_isAmong_iff stepKey, ← equal]
    exact (Json.not_isAmong_iff isKey).mp fresh
  · rw [Bool.not_eq_false', Json.isAmong_iff stepKey, ← equal]
    exact List.mem_cons_self

/-- An advance lowers the effort that is left, or ends the walk. -/
theorem Advances.effort (advance : Advances latest walk next) :
    next.path = [] ∨ effort latest next < effort latest walk := by
  cases advance with
  | @leave visit outer path ended =>
      have same : unentered latest
          { walk with path := outer, done := walk.done ++ [visit.id] } = unentered latest walk := by
        apply List.filter_congr
        intro step _
        simp only [entered, path, Json.isAmong, List.any_append, List.map_cons, List.any_cons,
          List.any_nil, Bool.or_false]
        rw [Bool.or_comm (Json.same step.id visit.id), Bool.or_assoc,
          Bool.or_comm (Json.same step.id visit.id)]
      right
      simp only [Walk.effort, same, path, List.map_cons, List.sum_cons]
      omega
  | @pass visit outer dependency pending path pends isKey idle =>
      have same : unentered latest { walk with path := { visit with pending } :: outer } =
          unentered latest walk := by
        simp only [unentered, entered, path, List.map_cons]
      right
      simp only [Walk.effort, same, path, pends, List.map_cons, List.sum_cons, List.length_cons]
      omega
  | @close visit outer dependency pending cycle path pends isKey known undone onPath texts =>
      have same : unentered latest
          { walk with
            path := { visit with pending } :: outer
            cycles := walk.cycles ++ [cycle] } = unentered latest walk := by
        simp only [unentered, entered, path, List.map_cons]
      right
      simp only [Walk.effort, same, path, pends, List.map_cons, List.sum_cons, List.length_cons]
      omega
  | @enter visit outer dependency pending path pends isKey known notNull undone offPath =>
      have fresh : dependency.isAmong walk.entered = false := by
        rw [entered, Json.isAmong, List.any_append, Bool.or_eq_false_iff, List.any_map]
        exact ⟨offPath, undone⟩
      have paid := effortOf_enter isKey known fresh
      have same : unentered latest
          { walk with path := .enter latest dependency :: { visit with pending } :: outer } =
            latest.filter fun step => !step.id.isAmong (dependency :: walk.entered) := by
        simp only [unentered, entered, path, List.map_cons, List.cons_append]
        rfl
      right
      simp only [Walk.effort, same, path, pends, List.map_cons, List.sum_cons, List.length_cons]
      unfold unentered
      omega
  | stop fault => exact Or.inl rfl

theorem run_of_idle (idle : walk.path = []) (fuel : Nat) : run latest fuel walk = walk := by
  cases fuel with
  | zero => rfl
  | succ fuel => rw [run, idle, List.isEmpty_nil, if_pos rfl]

/-- As many advances as the effort that is left empty the path. -/
theorem run_ends {fuel : Nat} (enough : effort latest walk ≤ fuel) :
    (run latest fuel walk).path = [] := by
  induction fuel generalizing walk with
  | zero =>
      rw [run]
      cases path : walk.path with
      | nil => rfl
      | cons visit outer =>
          simp only [effort, path, List.map_cons, List.sum_cons] at enough
          omega
  | succ fuel induction =>
      rw [run]
      split
      · rename_i idle
        simpa using idle
      · rename_i busy
        rcases (advances (by simpa using busy)).effort with idle | less
        · rw [run_of_idle idle]
          exact idle
        · exact induction (by omega)

/-- The walks from roots, one after the other and each to the end.  A root that
is done already is passed over. -/
inductive Visits (latest : List Step) : List Step → Walk → Walk → Prop where
  | nil {walk : Walk} : Visits latest [] walk walk
  | known {root : Step} {roots : List Step} {walk last : Walk}
      (done : root.id.isAmong walk.done = true) (later : Visits latest roots walk last) :
      Visits latest (root :: roots) walk last
  | fresh {root : Step} {roots : List Step} {walk next last : Walk}
      (undone : root.id.isAmong walk.done = false)
      (walked : Reaches latest { walk with path := [.enter latest root.id] } next)
      (ended : next.path = []) (later : Visits latest roots next last) :
      Visits latest (root :: roots) walk last

theorem Visits.sound (visits : Visits latest roots walk last) (sound : last.fault = none) :
    walk.fault = none := by
  induction visits with
  | nil => exact sound
  | known _ _ induction => exact induction sound
  | fresh _ walked _ _ induction => exact walked.sound (induction sound)

theorem foldl_startAt_of_fault (fuel : Nat) (faulty : walk.fault.isSome = true)
    (roots : List Step) : roots.foldl (startAt latest fuel) walk = walk := by
  induction roots with
  | nil => rfl
  | cons root roots induction =>
      rw [List.foldl_cons, startAt, faulty, Bool.true_or, if_pos rfl]
      exact induction

theorem startAt_of_undone {root : Step} (fuel : Nat) (sound : walk.fault = none)
    (undone : root.id.isAmong walk.done = false) :
    startAt latest fuel walk root =
      run latest fuel { walk with path := [.enter latest root.id] } := by
  unfold startAt
  rw [if_neg (by rw [sound, undone]; decide)]

theorem run_root_ends {root : Step} (member : root ∈ latest) (isKey : root.id.isKey = true)
    (undone : root.id.isAmong walk.done = false) :
    (run latest (effortOf latest) { walk with path := [.enter latest root.id] }).path = [] := by
  have known := stepWith?_isSome member (Json.same_self isKey)
  have paid := effortOf_enter isKey known undone
  have all : effortOf (latest.filter fun step => !step.id.isAmong walk.done) ≤ effortOf latest :=
    effortOf_sublist List.filter_sublist
  apply run_ends
  simp only [effort, unentered, entered, List.map_cons, List.map_nil, List.sum_cons,
    List.sum_nil, List.cons_append, List.nil_append]
  have entry : (Visit.enter latest root.id).id = root.id := rfl
  rw [entry]
  omega

/-- The fold over roots is the walk from them, unless it meets a fault. -/
theorem visits_foldl (members : ∀ root ∈ roots, root ∈ latest ∧ root.id.isKey = true)
    (sound : (roots.foldl (startAt latest (effortOf latest)) walk).fault = none) :
    Visits latest roots walk (roots.foldl (startAt latest (effortOf latest)) walk) := by
  induction roots generalizing walk with
  | nil => exact .nil
  | cons root roots induction =>
      have later := fun other among => members other (List.mem_cons_of_mem root among)
      obtain ⟨member, isKey⟩ := members root List.mem_cons_self
      rw [List.foldl_cons] at sound ⊢
      cases faulty : walk.fault with
      | some fault =>
          have stuck : (root :: roots).foldl (startAt latest (effortOf latest)) walk = walk :=
            foldl_startAt_of_fault _ (by rw [faulty]; rfl) _
          rw [List.foldl_cons] at stuck
          rw [stuck, faulty] at sound
          cases sound
      | none =>
          cases done : root.id.isAmong walk.done with
          | true =>
              have passed : startAt latest (effortOf latest) walk root = walk := by
                rw [startAt, done, Bool.or_true, if_pos rfl]
              rw [passed] at sound ⊢
              exact .known done (induction later sound)
          | false =>
              have started : startAt latest (effortOf latest) walk root = _ :=
                startAt_of_undone _ faulty done
              have ended := run_root_ends member isKey done
              rw [started] at sound ⊢
              exact .fresh done (run_reaches _ _) ended (induction later sound)

theorem Visits.foldl_eq (visits : Visits latest roots walk last)
    (members : ∀ root ∈ roots, root ∈ latest ∧ root.id.isKey = true)
    (sound : last.fault = none) :
    roots.foldl (startAt latest (effortOf latest)) walk = last := by
  induction visits with
  | nil => rfl
  | @known root roots walk last done later induction =>
      rw [List.foldl_cons, startAt, done, Bool.or_true, if_pos rfl]
      exact induction (fun other among => members other (List.mem_cons_of_mem root among)) sound
  | @fresh root roots walk next last undone walked ended later induction =>
      obtain ⟨member, isKey⟩ := members root List.mem_cons_self
      have faultless : walk.fault = none := walked.sound (later.sound sound)
      have started : startAt latest (effortOf latest) walk root = next := by
        rw [startAt_of_undone _ faultless undone]
        exact (run_reaches _ _).unique walked (run_root_ends member isKey undone) ended
      rw [List.foldl_cons, started]
      exact induction (fun other among => members other (List.mem_cons_of_mem root among)) sound

end Walk

theorem walkSteps_visits {steps : List Step} (keys : ∀ step ∈ steps, step.id.isKey = true)
    (sound : (walkSteps steps).fault = none) :
    Walk.Visits steps.reverse steps {} (walkSteps steps) := by
  unfold walkSteps at sound ⊢
  rw [Walk.bound_eq, ← Walk.effortOf_reverse] at sound ⊢
  exact Walk.visits_foldl
    (fun root member => ⟨List.mem_reverse.mpr member, keys root member⟩) sound

theorem walkSteps_of_visits {steps : List Step} {last : Walk}
    (keys : ∀ step ∈ steps, step.id.isKey = true)
    (visits : Walk.Visits steps.reverse steps {} last) (sound : last.fault = none) :
    walkSteps steps = last := by
  unfold walkSteps
  rw [Walk.bound_eq, ← Walk.effortOf_reverse]
  exact visits.foldl_eq
    (fun root member => ⟨List.mem_reverse.mpr member, keys root member⟩) sound

end Restyle
