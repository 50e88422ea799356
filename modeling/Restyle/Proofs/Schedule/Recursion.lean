import Restyle.Proofs.Schedule.Cycles

/-!
# Schedules by recursion

The order of a schedule can be said with recursive visits: a step is visited by
visiting its dependencies first.  What is left of a walk is to end the visits on
its path, from the innermost outward.  An advance changes nothing about what
comes of that, so a walk comes to what the recursive visits give.
-/

namespace Restyle

/-- What visits have given: the steps with dependencies first, and the cycles
met. -/
structure Output where
  steps : List Step := []
  cycles : List Cycle := []
  deriving DecidableEq, Repr

/-- A visit adds to the output, unless it meets a fault. -/
abbrev Visiting := EStateM Fault Output Unit

/-- The name of a step, if its identifier is a text. -/
def Step.name (step : Step) : String :=
  match step.id with
  | .text name => name
  | _ => ""

namespace Recursive

/-- A step comes next. -/
def emit (step : Step) : Visiting :=
  modify fun output => { output with steps := output.steps ++ [step] }

/-- Reports the cycle from a step on a path, innermost first, along it and back to
the step. -/
def report (path : List Step) (step : Step) : Visiting :=
  let way := (path.reverse.map Step.name).dropWhile (· ≠ step.name)
  modify fun output => { output with cycles := output.cycles ++ [way ++ [step.name]] }

theorem length_filter_lt {steps path : List Step} {step : Step} (member : step ∈ steps)
    (fresh : step ∉ path) :
    (steps.filter (· ∉ step :: path)).length < (steps.filter (· ∉ path)).length := by
  have narrower : steps.filter (· ∉ step :: path) =
      (steps.filter (· ∉ path)).filter (· ≠ step) := by
    rw [List.filter_filter]
    apply List.filter_congr
    intro other _
    simp
  rw [narrower]
  apply List.length_filter_lt_length_iff_exists.mpr
  exact ⟨step, List.mem_filter.mpr ⟨member, by simpa using fresh⟩, by simp⟩

mutual

/-- Visits a step: first its dependencies, in order, then the step comes. -/
def visit (steps path : List Step) (step : Step) : Visiting := do
  step.dependencyList.forM fun dependency => consider steps (step :: path) dependency
  emit step
termination_by ((steps.filter (· ∉ step :: path)).length, 1)

/-- Visits the step that a dependency names.  One that has come needs nothing, and
one on the path closes a cycle. -/
def consider (steps path : List Step) (dependency : Json) : Visiting := do
  if dependency.isKey then
    match _ : steps.find? (·.id = dependency) with
    | none => pure ()
    | some step =>
        let output ← get
        if step ∈ output.steps then pure ()
        else if _ : step ∈ path then report path step
        else visit steps path step
  else throw (.notKey dependency.kind)
termination_by ((steps.filter (· ∉ path)).length, 0)
decreasing_by
  rename_i found _ fresh
  exact Prod.Lex.left _ _ (length_filter_lt (List.mem_of_find?_eq_some found) fresh)

end

/-- Visits a step that has not come yet. -/
def start (steps : List Step) (root : Step) : Visiting := do
  let output ← get
  if root ∈ output.steps then pure () else visit steps [] root

/-- The schedule that visits of all steps give, in the order in which these are
listed. -/
def schedule (steps : List Step) : Schedule :=
  match (steps.forM (start steps)).run {} with
  | .ok _ output => ⟨output.steps, output.cycles.map Cycle.warning, none⟩
  | .error fault output => ⟨output.steps, output.cycles.map Cycle.warning, some fault⟩

variable {steps path : List Step} {step : Step} {dependency : Json}

/-! ## What comes of a dependency -/

theorem consider_of_notKey (notKey : dependency.isKey = false) :
    consider steps path dependency = throw (.notKey dependency.kind) := by
  rw [consider, if_neg (by simp [notKey])]

theorem consider_of_unknown (isKey : dependency.isKey = true)
    (unknown : steps.find? (·.id = dependency) = none) :
    consider steps path dependency = pure () := by
  rw [consider, if_pos isKey]
  split
  · rfl
  · rename_i found
    rw [unknown] at found
    cases found

theorem consider_of_found (isKey : dependency.isKey = true)
    (found : steps.find? (·.id = dependency) = some step) :
    consider steps path dependency =
      get >>= fun output =>
        if step ∈ output.steps then pure ()
        else if step ∈ path then report path step
        else visit steps path step := by
  rw [consider, if_pos isKey]
  split
  · rename_i unknown
    rw [found] at unknown
    cases unknown
  · rename_i other same
    cases found.symm.trans same
    rfl

/-- What reads the output is run with it. -/
theorem run_get_bind (rest : Output → Visiting) (last : Visiting) (output : Output) :
    ((get >>= rest) >>= fun _ => last).run output = (rest output >>= fun _ => last).run output :=
  rfl

end Recursive

def stepsAt (latest : List Step) (ids : List Json) : List Step :=
  ids.filterMap fun id => stepWith? id latest

variable {latest steps : List Step} {ids : List Json} {id dependency : Json} {step : Step}

theorem mem_stepsAt_iff (isKey : dependency.isKey = true)
    (found : stepWith? dependency latest = some step) (keys : ∀ id ∈ ids, id.isKey = true) :
    step ∈ stepsAt latest ids ↔ dependency.isAmong ids = true := by
  constructor
  · intro member
    obtain ⟨id, among, reached⟩ := List.mem_filterMap.mp member
    have equal := (Json.same_iff isKey).mp (stepWith?_same found)
    have there := (Json.same_iff (keys id among)).mp (stepWith?_same reached)
    exact List.any_eq_true.mpr ⟨id, among, (Json.same_iff isKey).mpr (equal.trans there.symm)⟩
  · intro listed
    obtain ⟨id, among, equal⟩ := List.any_eq_true.mp listed
    refine List.mem_filterMap.mpr ⟨id, among, ?_⟩
    rw [← stepWith?_congr isKey ((Json.same_iff isKey).mp equal)]
    exact found

section
variable (texts : ∀ step ∈ steps, ∃ name, step.id = .text name)
include texts

theorem id_of_stepWith? (found : stepWith? id steps.reverse = some step) :
    id = .text step.name ∧ step.id = .text step.name := by
  obtain ⟨name, isText⟩ := texts step (List.mem_reverse.mp (stepWith?_mem found))
  have equal := stepWith?_same found
  unfold Step.name
  rw [isText] at equal ⊢
  exact ⟨Json.eq_text_of_same equal, rfl⟩

theorem map_name_stepsAt (known : ∀ id ∈ ids, (stepWith? id steps.reverse).isSome = true) :
    (stepsAt steps.reverse ids).map (fun step => .text step.name) = ids := by
  induction ids with
  | nil => rfl
  | cons id ids induction =>
      obtain ⟨first, later⟩ := List.forall_mem_cons.mp known
      obtain ⟨step, found⟩ := Option.isSome_iff_exists.mp first
      have rest := induction later
      unfold stepsAt at rest ⊢
      rw [List.filterMap_cons, found, List.map_cons, rest, ← (id_of_stepWith? texts found).1]

theorem find?_eq_stepWith? (distinct : (steps.map (·.id)).Nodup) (dependency : Json) :
    steps.find? (·.id = dependency) = stepWith? dependency steps.reverse := by
  cases found : stepWith? dependency steps.reverse with
  | none =>
      apply List.find?_eq_none.mpr
      intro step member equal
      have isKey := keys_of_texts texts step member
      have same : Json.same dependency step.id = true := by
        rw [← of_decide_eq_true equal]
        exact Json.same_self isKey
      have known := stepWith?_isSome (List.mem_reverse.mpr member) same
      rw [found] at known
      cases known
  | some step =>
      obtain ⟨isText, named⟩ := id_of_stepWith? texts found
      have member := List.mem_reverse.mp (stepWith?_mem found)
      cases first : steps.find? (·.id = dependency) with
      | none =>
          have differs := List.find?_eq_none.mp first step member
          rw [isText, named] at differs
          simp at differs
      | some other =>
          have same : other.id = dependency := by simpa using List.find?_some first
          rw [List.inj_on_of_nodup_map distinct (List.mem_of_find?_eq_some first) member]
          rw [same, isText, named]

end

namespace Walk

variable {walk : Walk} {visit : Visit} {outer : List Visit}

/-- What a walk has given. -/
def output (latest : List Step) (walk : Walk) : Output where
  steps := walk.stepsDone latest
  cycles := walk.cycles

def stepsOn (latest : List Step) (path : List Visit) : List Step :=
  stepsAt latest (path.map (·.id))

/-- Ends the visits of a path, the innermost first. -/
def unwind (steps : List Step) : List Visit → Visiting
  | [] => pure ()
  | visit :: outer => do
      visit.pending.forM fun dependency =>
        Recursive.consider steps (stepsOn steps.reverse (visit :: outer)) dependency
      (stepWith? visit.id steps.reverse).forM Recursive.emit
      unwind steps outer

/-- What comes of a walk when the visits on its path end. -/
def outcome (steps : List Step) (walk : Walk) : EStateM.Result Fault Output Unit :=
  match walk.fault with
  | some fault => .error fault (walk.output steps.reverse)
  | none => (unwind steps walk.path).run (walk.output steps.reverse)

theorem outcome_of_sound (sound : walk.fault = none) :
    outcome steps walk = (unwind steps walk.path).run (walk.output steps.reverse) := by
  unfold outcome
  rw [sound]

theorem outcome_of_fault {fault : Fault} (faulty : walk.fault = some fault) :
    outcome steps walk = .error fault (walk.output steps.reverse) := by
  unfold outcome
  rw [faulty]

theorem unwind_pending (steps : List Step) (visit : Visit) (dependency : Json)
    (pending : List Json) (outer : List Visit) :
    unwind steps ({ visit with pending := dependency :: pending } :: outer) =
      Recursive.consider steps (stepsOn steps.reverse ({ visit with pending } :: outer))
        dependency >>= fun _ => unwind steps ({ visit with pending } :: outer) := by
  simp only [unwind, List.forM_eq_forM, List.forM_cons, bind_assoc]
  rfl

theorem unwind_enter (found : stepWith? dependency steps.reverse = some step)
    (path : List Visit) :
    unwind steps (.enter steps.reverse dependency :: path) =
      Recursive.visit steps (stepsOn steps.reverse path) step >>= fun _ => unwind steps path := by
  rw [Recursive.visit]
  have entered : stepsOn steps.reverse (.enter steps.reverse dependency :: path) =
      step :: stepsOn steps.reverse path := by
    simp [stepsOn, stepsAt, Visit.enter, found]
  have pends : (Visit.enter steps.reverse dependency).pending = step.dependencyList := by
    simp [Visit.enter, found]
  have named : (Visit.enter steps.reverse dependency).id = dependency := rfl
  simp only [unwind, entered, pends, named, found, bind_assoc]
  rfl

theorem mapM_cycleAt (texts : ∀ step ∈ steps, ∃ name, step.id = .text name) {path : List Visit}
    (known : ∀ id ∈ path.map (·.id), (stepWith? id steps.reverse).isSome = true)
    (found : stepWith? dependency steps.reverse = some step) :
    (cycleAt path dependency).mapM Json.asText =
      .ok (((stepsOn steps.reverse path).reverse.map Step.name).dropWhile (· ≠ step.name) ++
        [step.name]) := by
  have ids : path.reverse.map (·.id) =
      ((stepsOn steps.reverse path).reverse.map Step.name).map Json.text := by
    rw [List.map_map, List.map_reverse, List.map_reverse]
    exact congrArg List.reverse (map_name_stepsAt texts known).symm
  have isText := (id_of_stepWith? texts found).1
  have differs : (fun id => !Json.same dependency id) ∘ Json.text =
      fun name => decide (name ≠ step.name) := by
    funext name
    rw [isText, Function.comp_apply, Json.same, BEq.comm]
    exact (decide_not ..).symm
  rw [Json.mapM_asText_eq_ok, cycleAt, ids, List.dropWhile_map, differs, isText, List.map_append,
    List.map_singleton]

theorem Visits.idle {roots : List Step} {last : Walk} (visits : Visits latest roots walk last)
    (idle : walk.path = []) : last.path = [] := by
  induction visits with
  | nil => exact idle
  | known _ _ induction => exact induction idle
  | fresh _ _ ended _ induction => exact induction ended

/-- Only a fault that is met now ends the walk. -/
theorem Advances.idle_of_fault {next : Walk} (advance : Advances latest walk next)
    (sound : walk.fault = none) (faulty : next.fault ≠ none) : next.path = [] := by
  cases advance with
  | stop fault => rfl
  | _ => exact absurd sound faulty

/-- A visit without further dependencies ends with its step. -/
theorem outcome_leave (names : Names steps.reverse walk.entered) (sound : walk.fault = none)
    (path : walk.path = visit :: outer) (pends : visit.pending = []) :
    outcome steps (walk.leave visit outer) =
      (unwind steps (visit :: outer)).run (walk.output steps.reverse) := by
  have known := names.known visit.id (by simp [entered, path])
  obtain ⟨step, found⟩ := Option.isSome_iff_exists.mp known
  have given : (walk.leave visit outer).output steps.reverse =
      { walk.output steps.reverse with
        steps := (walk.output steps.reverse).steps ++ [step] } := by
    simp [output, stepsDone, leave, found]
  rw [outcome_of_sound (by exact sound), given]
  simp only [unwind, pends, found]
  rfl

section
variable (texts : ∀ step ∈ steps, ∃ name, step.id = .text name)
  (distinct : (steps.map (·.id)).Nodup)
include texts distinct

theorem outcome_look (walk : Walk) (names : Names steps.reverse walk.entered)
    (sound : walk.fault = none) (isKey : dependency.isKey = true)
    (found : stepWith? dependency steps.reverse = some step) :
    outcome steps (walk.look steps.reverse dependency) =
      (Recursive.consider steps (stepsOn steps.reverse walk.path) dependency >>= fun _ =>
        unwind steps walk.path).run (walk.output steps.reverse) := by
  have onPath := names.of_sublist (List.sublist_append_left _ _)
  have done := names.of_sublist (List.sublist_append_right _ _)
  have come := mem_stepsAt_iff isKey found done.keys
  have entered : step ∈ stepsOn steps.reverse walk.path ↔
      (walk.path.any fun visit => Json.same dependency visit.id) = true := by
    have among := mem_stepsAt_iff isKey found onPath.keys
    rw [Json.isAmong, List.any_map] at among
    exact among
  rw [Recursive.consider_of_found isKey ((find?_eq_stepWith? texts distinct dependency).trans found),
    Recursive.run_get_bind]
  unfold look
  split
  · rename_i here
    have member : step ∈ (walk.output steps.reverse).steps := come.mpr here
    rw [if_pos member, pure_bind, outcome_of_sound sound]
  · rename_i undone
    have fresh : step ∉ (walk.output steps.reverse).steps := fun member => undone (come.mp member)
    rw [if_neg fresh]
    split
    · rename_i around
      rw [if_pos (entered.mpr around), report, mapM_cycleAt texts onPath.known found]
      exact outcome_of_sound sound
    · rename_i away
      have outside : step ∉ stepsOn steps.reverse walk.path := fun member => away (entered.mp member)
      rw [if_neg outside, ← unwind_enter found]
      exact outcome_of_sound sound

theorem outcome_advance (names : Names steps.reverse walk.entered) (sound : walk.fault = none) :
    outcome steps (walk.advance steps.reverse) = outcome steps walk := by
  rw [outcome_of_sound sound]
  cases path : walk.path with
  | nil =>
      simp only [advance, path]
      rw [outcome_of_sound sound, path]
  | cons visit outer =>
      cases pends : visit.pending with
      | nil =>
          have left : walk.advance steps.reverse = walk.leave visit outer := by
            simp only [advance, path, pends]
          rw [left, outcome_leave names sound path pends]
      | cons dependency pending =>
          have whole : unwind steps (visit :: outer) = _ :=
            pends ▸ unwind_pending steps visit dependency pending outer
          rw [whole]
          cases isKey : dependency.isKey with
          | false =>
              rw [Recursive.consider_of_notKey isKey]
              simp only [advance, path, pends, isKey]
              rfl
          | true =>
              have named := find?_eq_stepWith? texts distinct dependency
              cases found : stepWith? dependency steps.reverse with
              | none =>
                  rw [advance_of_unknown path pends isKey found,
                    Recursive.consider_of_unknown isKey (named.trans found), pure_bind]
                  exact outcome_of_sound sound
              | some step =>
                  have notNull : dependency ≠ .null := by
                    rw [(id_of_stepWith? texts found).1]
                    exact Json.noConfusion
                  have known : (stepWith? dependency steps.reverse).isSome = true := by
                    rw [found]
                    rfl
                  rw [advance_of_known path pends isKey known notNull]
                  unfold entered at names
                  rw [path] at names
                  exact outcome_look texts distinct
                    { walk with path := { visit with pending } :: outer } names sound isKey found

/-- What comes of a walk is the same after any number of advances. -/
theorem outcome_run (fuel : Nat) (names : Names steps.reverse walk.entered)
    (sound : walk.fault = none) :
    outcome steps (run steps.reverse fuel walk) = outcome steps walk := by
  induction fuel generalizing walk with
  | zero => rfl
  | succ fuel induction =>
      rw [run]
      split
      · rfl
      · rename_i idle
        have advance : Advances steps.reverse walk _ := advances (by simpa using idle)
        rw [← outcome_advance texts distinct names sound]
        cases stopped : (walk.advance steps.reverse).fault with
        | none => exact induction (advance.names names) stopped
        | some fault => rw [run_of_idle (advance.idle_of_fault sound (by simp [stopped]))]

theorem outcome_startAt {root : Step} (member : root ∈ steps)
    (names : Names steps.reverse walk.entered) (sound : walk.fault = none)
    (undone : root.id.isAmong walk.done = false) :
    outcome steps (startAt steps.reverse (effortOf steps.reverse) walk root) =
      (Recursive.visit steps [] root).run (walk.output steps.reverse) := by
  have isKey := keys_of_texts texts root member
  have found := (AreDistinct.of_texts texts distinct).stepWith?_id member
  have entered := names.start isKey (Option.isSome_iff_exists.mpr ⟨root, found⟩) undone
  rw [startAt_of_undone _ sound undone, outcome_run texts distinct _ entered sound,
    outcome_of_sound (by exact sound), unwind_enter found]
  exact congrArg (EStateM.run · _) (bind_pure _)

theorem outcome_foldl {roots : List Step} (members : ∀ root ∈ roots, root ∈ steps)
    (names : Names steps.reverse walk.entered) (idle : walk.path = []) (sound : walk.fault = none) :
    outcome steps (roots.foldl (startAt steps.reverse (effortOf steps.reverse)) walk) =
      (roots.forM (Recursive.start steps)).run (walk.output steps.reverse) := by
  induction roots generalizing walk with
  | nil =>
      rw [List.foldl_nil, outcome_of_sound sound, idle]
      rfl
  | cons root roots induction =>
      obtain ⟨member, later⟩ := List.forall_mem_cons.mp members
      have isKey := keys_of_texts texts root member
      have found := (AreDistinct.of_texts texts distinct).stepWith?_id member
      have done := names.of_sublist (List.sublist_append_right _ _)
      have come : root ∈ (walk.output steps.reverse).steps ↔ root.id.isAmong walk.done = true :=
        mem_stepsAt_iff isKey found done.keys
      rw [List.foldl_cons, List.forM_eq_forM, List.forM_cons, Recursive.start,
        Recursive.run_get_bind]
      cases here : root.id.isAmong walk.done with
      | true =>
          have passed : startAt steps.reverse (effortOf steps.reverse) walk root = walk := by
            rw [startAt, here, Bool.or_true, if_pos rfl]
          rw [if_pos (come.mpr here), pure_bind, passed]
          exact induction later names idle sound
      | false =>
          have fresh : root ∉ (walk.output steps.reverse).steps := by simp [come, here]
          have ended : (startAt steps.reverse (effortOf steps.reverse) walk root).path = [] := by
            rw [startAt_of_undone _ sound here]
            exact run_root_ends (List.mem_reverse.mpr member) isKey here
          rw [if_neg fresh, EStateM.run_bind, ← outcome_startAt texts distinct member names sound here]
          cases faulty : (startAt steps.reverse (effortOf steps.reverse) walk root).fault with
          | some fault =>
              rw [foldl_startAt_of_fault _ (by rw [faulty]; rfl), outcome_of_fault faulty]
          | none =>
              have given : outcome steps _ = _ := outcome_of_sound faulty
              rw [given, ended]
              exact induction later (startAt_names (List.mem_reverse.mpr member) isKey names)
                ended faulty

end

end Walk

/-- The recursive visits give the order of the steps and the cycles.  What they
give, with the fault that they meet, if they do, is the schedule. -/
theorem Schedule.ofSteps_eq_recursive (texts : ∀ step ∈ steps, ∃ name, step.id = .text name)
    (distinct : (steps.map (·.id)).Nodup) :
    Schedule.ofSteps steps = .ok (Recursive.schedule steps) := by
  have keys := keys_of_texts texts
  have given : Walk.outcome steps (walkSteps steps) =
      (steps.forM (Recursive.start steps)).run {} := by
    unfold walkSteps
    rw [Walk.bound_eq, ← Walk.effortOf_reverse]
    exact Walk.outcome_foldl texts distinct (fun _ member => member) Walk.traced_nil.names rfl rfl
  rw [Schedule.ofSteps_of_keys keys, Recursive.schedule, ← given]
  congr 1
  cases faulty : (walkSteps steps).fault with
  | some fault =>
      rw [Walk.outcome_of_fault faulty]
      rfl
  | none =>
      have idle := (walkSteps_visits keys faulty).idle rfl
      rw [Walk.outcome_of_sound faulty, idle]
      rfl

/-- What the recursive visits of three steps give. -/
theorem Schedule.ofSteps_eq_recursive_knot :
    Schedule.ofSteps knotSteps = .ok (Recursive.schedule knotSteps) ∧
      Recursive.schedule knotSteps =
        { steps := [.naming "c" [.text "z"], .naming "b" [.text "c", .text "a"],
            .naming "a" [.text "b", .text "c", .text "c"]]
          warnings := ["Dependency cycle between steps a -> b -> a; breaking it at a"]
          fault := none } := by
  have made := Schedule.ofSteps_eq_recursive knotSteps_texts knotSteps_nodup
  refine ⟨made, Except.ok.inj (made.symm.trans ?_)⟩
  decide +kernel

end Restyle
