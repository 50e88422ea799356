import Mathlib.Data.List.Chain
import Mathlib.Data.List.Nodup
import Mathlib.Data.List.TakeWhile
import Mathlib.Logic.Relation
import Restyle.Proofs.Schedule.Remaining

/-!
# What walks have looked at

Each visit on the path of a walk declares the one inside it.  What a visit has
looked at is done or is visited inside it; it can be the visit itself or one
around it only when a cycle has been reported.  From this follows what is known
of a step that is done: each dependency that it heeds is done before, or needs
the step in turn and a cycle has been reported.  The cycles that are reported
are cycles of dependencies.
-/

namespace Restyle

open Relation

variable {latest steps : List Step} {id dependency : Json} {step early late : Step}

/-- A step of a list has another as a dependency. -/
def Step.Needs (latest : List Step) (late early : Step) : Prop :=
  late ∈ latest ∧ ∃ dependency ∈ late.dependencyList, stepWith? dependency latest = some early

/-- The dependencies of a step that are looked at.  A null that is the identifier
of a step ends them. -/
def Step.heeded (steps : List Step) (step : Step) : List Json :=
  if ∃ other ∈ steps, other.id = .null then step.dependencyList.takeWhile (· ≠ .null)
  else step.dependencyList

/-- A step with one identifier has the other as a dependency. -/
def Links (steps : List Step) (name next : String) : Prop :=
  ∃ step ∈ steps, step.id = .text name ∧ .text next ∈ step.dependencyList

/-- A cycle of dependencies: it ends where it starts, comes to no other identifier
twice, and each identifier has the next one as a dependency. -/
structure Cycle.IsIn (steps : List Step) (cycle : Cycle) : Prop where
  closed : ∃ first rest, cycle = first :: (rest ++ [first]) ∧ (first :: rest).Nodup
  linked : cycle.IsChain (Links steps)

theorem Json.mapM_asText_eq_ok {ids : List Json} {names : List String} :
    ids.mapM Json.asText = .ok names ↔ ids = names.map Json.text := by
  rw [mapM_eq_ok]
  constructor
  · intro pairs
    induction pairs with
    | nil => rfl
    | cons first _ induction => rw [Json.asText_eq_ok first, induction, List.map_cons]
  · rintro rfl
    exact List.forall₂_map_left_iff.mpr (List.forall₂_same.mpr fun _ _ => rfl)

theorem Step.mem_of_heeded (heeded : dependency ∈ step.heeded latest) :
    dependency ∈ step.dependencyList := by
  unfold Step.heeded at heeded
  split at heeded
  · exact (List.takeWhile_prefix _).subset heeded
  · exact heeded

namespace Walk

variable {walk after : Walk} {visit : Visit} {outer path : List Visit}
  {pending allowed inside more : List Json} {reported : Bool}

/-- What holds at the start, when a step is started from, and after every
advance, holds of the whole walk. -/
theorem walkSteps_induction {motive : Walk → Prop} (start : motive {})
    (enter : ∀ walk root, root ∈ steps → walk.fault = none →
      root.id.isAmong walk.done = false → motive walk →
        motive { walk with path := [.enter steps.reverse root.id] })
    (advance : ∀ walk : Walk, walk.path ≠ [] → motive walk → motive (walk.advance steps.reverse)) :
    motive (walkSteps steps) := by
  have runs : ∀ fuel walk, motive walk → motive (run steps.reverse fuel walk) := by
    intro fuel
    induction fuel with
    | zero => exact fun _ holds => holds
    | succ fuel induction =>
        intro walk holds
        rw [run]
        split
        · exact holds
        · rename_i busy
          apply induction
          exact advance walk (by simpa using busy) holds
  have folds : ∀ roots : List Step, (∀ root ∈ roots, root ∈ steps) → ∀ walk, motive walk →
      motive (roots.foldl (startAt steps.reverse (bound steps)) walk) := by
    intro roots
    induction roots with
    | nil => exact fun _ _ holds => holds
    | cons root roots induction =>
        intro members walk holds
        obtain ⟨member, later⟩ := List.forall_mem_cons.mp members
        apply induction later
        unfold startAt
        split
        · exact holds
        · rename_i undone
          simp only [Bool.or_eq_true, not_or, Bool.not_eq_true, Option.isSome_eq_false_iff,
            Option.isNone_iff_eq_none] at undone
          apply runs
          exact enter walk root member undone.1 undone.2 holds
  exact folds steps (fun _ member => member) {} start

/-- The step with an identifier has another identifier as a dependency, and there
is a step with that. -/
def Declares (latest : List Step) (outer inner : Json) : Prop :=
  ∃ late early, stepWith? outer latest = some late ∧ stepWith? inner latest = some early ∧
    inner ∈ late.dependencyList

theorem Declares.needs {outer inner : Json} (declares : Declares latest outer inner)
    (found : stepWith? outer latest = some late) (named : stepWith? inner latest = some early) :
    late.Needs latest early := by
  obtain ⟨_, _, found', named', member⟩ := declares
  cases found.symm.trans found'
  exact ⟨stepWith?_mem found, inner, member, named⟩

theorem needs_of_declares {outer inner : Json} (path : TransGen (Declares latest) outer inner)
    (found : stepWith? outer latest = some late) (named : stepWith? inner latest = some early) :
    TransGen (Step.Needs latest) late early := by
  induction path generalizing early with
  | single declares => exact .single (declares.needs found named)
  | tail _ declares induction =>
      have ⟨middle, _, reached, _, _⟩ := declares
      exact (induction reached).tail (declares.needs reached named)

/-- On a chain of dependencies, all lead to the first. -/
theorem leads_of_chain {inner outer : Json} {ids : List Json}
    (chained : (inner :: ids).IsChain fun inner outer => Declares latest outer inner)
    (member : outer ∈ ids) : TransGen (Declares latest) outer inner := by
  have leads : (inner :: ids).IsChain fun inner outer => TransGen (Declares latest) outer inner :=
    chained.imp fun _ _ declares => .single declares
  have : Trans (fun inner outer => TransGen (Declares latest) outer inner)
      (fun inner outer => TransGen (Declares latest) outer inner)
      (fun inner outer => TransGen (Declares latest) outer inner) :=
    ⟨fun first second => second.trans first⟩
  exact leads.rel_cons member

/-- A visit has looked only at certain identifiers, as far as they are of steps. -/
def HasLooked (latest : List Step) (allowed : List Json) (visit : Visit) : Prop :=
  ∃ step seen, stepWith? visit.id latest = some step ∧
    step.dependencyList = seen ++ visit.pending ∧
      ∀ dependency ∈ seen, ∀ early, stepWith? dependency latest = some early →
        ∃ id ∈ allowed, stepWith? id latest = some early

namespace HasLooked

theorem mono (looked : HasLooked latest allowed visit) (grows : ∀ id ∈ allowed, id ∈ more) :
    HasLooked latest more visit := by
  obtain ⟨step, seen, found, listed, known⟩ := looked
  refine ⟨step, seen, found, listed, ?_⟩
  intro dependency member early named
  obtain ⟨id, among, same⟩ := known dependency member early named
  exact ⟨id, grows id among, same⟩

theorem passed (looked : HasLooked latest allowed visit)
    (pends : visit.pending = dependency :: pending)
    (known : ∀ early, stepWith? dependency latest = some early →
      ∃ id ∈ allowed, stepWith? id latest = some early) :
    HasLooked latest allowed { visit with pending } := by
  obtain ⟨step, seen, found, listed, before⟩ := looked
  refine ⟨step, seen ++ [dependency], found, ?_, ?_⟩
  · rw [listed, pends, List.append_assoc]
    rfl
  · intro other member
    rcases List.mem_append.mp member with old | new
    · exact before other old
    · rw [List.mem_singleton.mp new]
      exact known

theorem enter (known : (stepWith? id latest).isSome = true) :
    HasLooked latest allowed (.enter latest id) := by
  obtain ⟨step, found⟩ := Option.isSome_iff_exists.mp known
  refine ⟨step, [], found, ?_, ?_⟩
  · simp [Visit.enter, found]
  · intro dependency member
    cases member

theorem pends_mem (looked : HasLooked latest allowed visit)
    (pends : visit.pending = dependency :: pending) :
    ∃ step, stepWith? visit.id latest = some step ∧ dependency ∈ step.dependencyList := by
  obtain ⟨step, seen, found, listed, _⟩ := looked
  refine ⟨step, found, ?_⟩
  rw [listed, pends]
  simp

theorem declares (looked : HasLooked latest allowed visit)
    (pends : visit.pending = dependency :: pending)
    (known : (stepWith? dependency latest).isSome = true) :
    Declares latest visit.id dependency := by
  obtain ⟨step, found, member⟩ := looked.pends_mem pends
  obtain ⟨early, named⟩ := Option.isSome_iff_exists.mp known
  exact ⟨step, early, found, named, member⟩

theorem ended (looked : HasLooked latest allowed visit)
    (ended : visit.pending = [] ∨
      (∃ pending, visit.pending = .null :: pending) ∧ (stepWith? .null latest).isSome = true)
    (found : stepWith? visit.id latest = some late) :
    ∀ dependency ∈ late.heeded latest, ∀ early, stepWith? dependency latest = some early →
      ∃ id ∈ allowed, stepWith? id latest = some early := by
  obtain ⟨step, seen, same, listed, known⟩ := looked
  cases found.symm.trans same
  intro dependency heeded
  apply known
  unfold Step.heeded at heeded
  rw [listed] at heeded
  rcases ended with finished | ⟨⟨pending, null⟩, isStep⟩
  · rw [finished, List.append_nil] at heeded
    split at heeded
    · exact (List.takeWhile_prefix _).subset heeded
    · exact heeded
  · obtain ⟨other, named⟩ := Option.isSome_iff_exists.mp isStep
    have isNull : other.id = .null := Json.eq_null_of_null_same (stepWith?_same named)
    rw [if_pos ⟨other, stepWith?_mem named, isNull⟩, null, List.takeWhile_append] at heeded
    split at heeded
    · simpa using heeded
    · exact (List.takeWhile_prefix _).subset heeded

end HasLooked

/-- What a visit may have looked at: what is done or inside it, and once a cycle
has been reported, the visits of a path from it outward. -/
def reach (reported : Bool) (inside : List Json) (path : List Visit) : List Json :=
  inside ++ if reported then path.map (·.id) else []

/-- Each visit of a path has looked only at what is done or inside it, unless a
cycle has been reported. -/
def Settled (latest : List Step) (reported : Bool) : List Json → List Visit → Prop
  | _, [] => True
  | inside, visit :: outer =>
      HasLooked latest (reach reported inside (visit :: outer)) visit ∧
        Settled latest reported (visit.id :: inside) outer

theorem mem_reach_of_inside (member : id ∈ inside) : id ∈ reach reported inside path :=
  List.mem_append_left _ member

theorem mem_reach_of_path (member : visit ∈ path) : visit.id ∈ reach true inside path :=
  List.mem_append_right _ (List.mem_map_of_mem member)

theorem reach_mono {known : Bool} (grows : ∀ id ∈ inside, id ∈ more)
    (kept : reported = true → known = true) :
    ∀ id ∈ reach reported inside path, id ∈ reach known more path := by
  intro id member
  rcases List.mem_append.mp member with among | onPath
  · exact mem_reach_of_inside (grows id among)
  · cases reported with
    | false => cases onPath
    | true =>
        rw [kept rfl]
        exact List.mem_append_right _ onPath

theorem Settled.mono {known : Bool} (settled : Settled latest reported inside path)
    (grows : ∀ id ∈ inside, id ∈ more) (kept : reported = true → known = true) :
    Settled latest known more path := by
  induction path generalizing inside more with
  | nil => trivial
  | cons visit outer induction =>
      obtain ⟨looked, others⟩ := settled
      refine ⟨looked.mono (reach_mono grows kept), induction others ?_⟩
      intro id member
      rcases List.mem_cons.mp member with rfl | among
      · exact List.mem_cons_self
      · exact List.mem_cons_of_mem _ (grows id among)

/-- A step has come after the dependencies that it heeds; once a cycle has been
reported, those that need the step in turn are excepted. -/
def GoesAfter (latest : List Step) (reported : Bool) (before : List Json) (late : Step) : Prop :=
  ∀ dependency ∈ late.heeded latest, ∀ early, stepWith? dependency latest = some early →
    (∃ id ∈ before, stepWith? id latest = some early) ∨
      reported = true ∧ TransGen (Step.Needs latest) early late

theorem GoesAfter.mono {known : Bool} {before : List Json}
    (goes : GoesAfter latest reported before late) (kept : reported = true → known = true) :
    GoesAfter latest known before late := by
  intro dependency heeded early named
  exact (goes dependency heeded early named).imp_right fun back => ⟨kept back.1, back.2⟩

def hasReported (walk : Walk) : Bool := !walk.cycles.isEmpty

/-- What every walk keeps. -/
structure Traced (latest : List Step) (walk : Walk) : Prop where
  names : Names latest walk.entered
  settled : Settled latest walk.hasReported walk.done walk.path
  chained : (walk.path.map (·.id)).IsChain fun inner outer => Declares latest outer inner
  after : ∀ before id, before ++ [id] <+: walk.done → ∀ late, stepWith? id latest = some late →
    GoesAfter latest walk.hasReported before late
  genuine : ∀ cycle ∈ walk.cycles, cycle.IsIn latest

namespace Traced

theorem innermost (traced : Traced latest walk) (path : walk.path = visit :: outer) :
    HasLooked latest (reach walk.hasReported walk.done (visit :: outer)) visit ∧
      Settled latest walk.hasReported (visit.id :: walk.done) outer := by
  have settled := traced.settled
  rw [path] at settled
  exact settled

/-- A step that is left has come after what it heeds. -/
theorem goesAfter (traced : Traced latest walk) (path : walk.path = visit :: outer)
    (ended : visit.pending = [] ∨
      (∃ pending, visit.pending = .null :: pending) ∧ (stepWith? .null latest).isSome = true)
    (found : stepWith? visit.id latest = some late) :
    GoesAfter latest walk.hasReported walk.done late := by
  intro dependency heeded early named
  obtain ⟨id, among, reached⟩ :=
    (traced.innermost path).1.ended ended found dependency heeded early named
  rcases List.mem_append.mp among with done | onPath
  · exact Or.inl ⟨id, done, reached⟩
  · right
    split at onPath
    · rename_i reported
      refine ⟨reported, ?_⟩
      obtain ⟨around, member, rfl⟩ := List.mem_map.mp onPath
      rcases List.mem_cons.mp member with rfl | outside
      · cases found.symm.trans reached
        have direct : late.Needs latest late :=
          ⟨stepWith?_mem found, dependency, Step.mem_of_heeded heeded, named⟩
        exact .single direct
      · have chained := traced.chained
        rw [path] at chained
        have leads := leads_of_chain chained (List.mem_map_of_mem outside)
        exact needs_of_declares leads reached found
    · cases onPath

theorem leave (traced : Traced latest walk) (path : walk.path = visit :: outer)
    (ended : visit.pending = [] ∨
      (∃ pending, visit.pending = .null :: pending) ∧ (stepWith? .null latest).isSome = true)
    (names : Names latest (entered { walk with path := outer, done := walk.done ++ [visit.id] })) :
    Traced latest { walk with path := outer, done := walk.done ++ [visit.id] } where
  names
  settled := by
    apply (traced.innermost path).2.mono _ id
    intro id member
    rcases List.mem_cons.mp member with rfl | done
    · simp
    · exact List.mem_append_left _ done
  chained := by
    have chained := traced.chained
    rw [path] at chained
    exact chained.tail
  after := by
    intro before id within late found
    rcases List.prefix_concat_iff.mp within with whole | old
    · obtain ⟨rfl, last⟩ := List.append_inj' whole rfl
      cases last
      exact traced.goesAfter path ended found
    · exact traced.after before id old late found
  genuine := traced.genuine

theorem next (traced : Traced latest walk) (path : walk.path = visit :: outer)
    (pends : visit.pending = dependency :: pending) (kept : walk.hasReported = true → reported = true)
    (known : ∀ early, stepWith? dependency latest = some early →
      ∃ id ∈ reach reported walk.done (visit :: outer), stepWith? id latest = some early) :
    Settled latest reported walk.done ({ visit with pending } :: outer) := by
  obtain ⟨looked, others⟩ := traced.innermost path
  refine ⟨?_, others.mono (fun _ member => member) kept⟩
  exact (looked.mono (reach_mono (fun _ member => member) kept)).passed pends known

theorem pass (traced : Traced latest walk) (path : walk.path = visit :: outer)
    (pends : visit.pending = dependency :: pending) (isKey : dependency.isKey = true)
    (idle : stepWith? dependency latest = none ∨ dependency.isAmong walk.done = true)
    (names : Names latest (entered { walk with path := { visit with pending } :: outer })) :
    Traced latest { walk with path := { visit with pending } :: outer } where
  names
  settled := by
    apply traced.next path pends id
    intro early named
    rcases idle with unknown | done
    · rw [unknown] at named
      cases named
    · obtain ⟨id, among, equal⟩ := List.any_eq_true.mp done
      refine ⟨id, mem_reach_of_inside among, ?_⟩
      rw [← named]
      exact (stepWith?_congr isKey ((Json.same_iff isKey).mp equal)).symm
  chained := by
    have chained := traced.chained
    rw [path] at chained
    exact chained
  after := traced.after
  genuine := traced.genuine

theorem declares (traced : Traced latest walk) (path : walk.path = visit :: outer)
    (pends : visit.pending = dependency :: pending)
    (known : (stepWith? dependency latest).isSome = true) :
    (dependency :: walk.path.map (·.id)).IsChain fun inner outer => Declares latest outer inner := by
  apply traced.chained.cons
  intro innermost first
  rw [path] at first
  cases first
  exact (traced.innermost path).1.declares pends known

theorem enter (traced : Traced latest walk) (path : walk.path = visit :: outer)
    (pends : visit.pending = dependency :: pending)
    (known : (stepWith? dependency latest).isSome = true)
    (names : Names latest
      (entered { walk with path := .enter latest dependency :: { visit with pending } :: outer })) :
    Traced latest
      { walk with path := .enter latest dependency :: { visit with pending } :: outer } where
  names
  settled := by
    obtain ⟨looked, others⟩ := traced.innermost path
    refine ⟨.enter known, ?_, others.mono ?_ id⟩
    · apply (looked.mono (reach_mono _ id)).passed pends
      · intro early named
        exact ⟨dependency, mem_reach_of_inside List.mem_cons_self, named⟩
      · exact fun id member => List.mem_cons_of_mem _ member
    · intro id member
      rcases List.mem_cons.mp member with rfl | done
      · exact List.mem_cons_self
      · exact List.mem_cons_of_mem _ (List.mem_cons_of_mem _ done)
  chained := by
    have chained := traced.declares path pends known
    rw [path] at chained
    exact chained
  after := traced.after
  genuine := traced.genuine

end Traced

/-- The way from a dependency on the path back to it starts with it. -/
theorem cycleAt_eq_cons
    (onPath : (walk.path.any fun visit => Json.same dependency visit.id) = true) :
    ∃ first rest, cycleAt walk.path dependency = first :: (rest ++ [dependency]) ∧
      Json.same dependency first = true ∧
        first :: rest <:+ (walk.path.map (·.id)).reverse := by
  have within := List.dropWhile_suffix (l := (walk.path.map (·.id)).reverse)
    fun id => !Json.same dependency id
  cases way : (walk.path.map (·.id)).reverse.dropWhile fun id => !Json.same dependency id with
  | nil =>
      obtain ⟨there, among, equal⟩ := List.any_eq_true.mp onPath
      have passed := List.dropWhile_eq_nil_iff.mp way there.id
        (List.mem_reverse.mpr (List.mem_map_of_mem among))
      rw [equal] at passed
      cases passed
  | cons first rest =>
      have stopped := List.head?_dropWhile_not (fun id => !Json.same dependency id)
        (walk.path.map (·.id)).reverse
      rw [way] at stopped within
      refine ⟨first, rest, ?_, by simpa using stopped, within⟩
      rw [cycleAt, List.map_reverse, way, List.cons_append]

theorem isIn_cycleAt {cycle : Cycle} (names : Names latest walk.entered)
    (chained : (dependency :: walk.path.map (·.id)).IsChain fun inner outer =>
      Declares latest outer inner)
    (onPath : (walk.path.any fun visit => Json.same dependency visit.id) = true)
    (texts : (cycleAt walk.path dependency).mapM Json.asText = .ok cycle) :
    cycle.IsIn latest := by
  obtain ⟨first, rest, whole, equal, within⟩ := cycleAt_eq_cons onPath
  have listed := Json.mapM_asText_eq_ok.mp texts
  rw [whole] at listed
  -- All identifiers on the way are texts, so the last one is the first.
  obtain ⟨name, _, rfl, rfl, later⟩ := List.map_eq_cons_iff.mp listed.symm
  obtain ⟨between, _, rfl, rfl, ends⟩ := List.map_eq_append_iff.mp later
  obtain ⟨last, rfl, rfl⟩ := List.map_eq_singleton_iff.mp ends
  cases Json.eq_text_of_same equal
  refine ⟨⟨name, between, rfl, ?_⟩, ?_⟩
  · apply List.Nodup.of_map Json.text
    apply List.Nodup.sublist within.sublist
    apply List.nodup_reverse.mpr
    exact (List.Nodup.of_map _ names.distinct).sublist (List.sublist_append_left _ _)
  · obtain ⟨before, split⟩ := within
    have around : (Json.text name :: walk.path.map (·.id)).reverse.IsChain (Declares latest) :=
      List.isChain_reverse.mpr chained
    rw [List.reverse_cons, ← split, List.append_assoc] at around
    have declared : ((name :: (between ++ [name])).map Json.text).IsChain (Declares latest) := by
      apply around.suffix
      simp
    apply ((List.isChain_map _).mp declared).imp
    rintro outer inner ⟨late, _, found, _, member⟩
    exact ⟨late, stepWith?_mem found, Json.eq_text_of_text_same (stepWith?_same found), member⟩

theorem Traced.close {cycle : Cycle} (traced : Traced latest walk)
    (path : walk.path = visit :: outer)
    (pends : visit.pending = dependency :: pending) (isKey : dependency.isKey = true)
    (known : (stepWith? dependency latest).isSome = true)
    (onPath : (walk.path.any fun visit => Json.same dependency visit.id) = true)
    (texts : (cycleAt walk.path dependency).mapM Json.asText = .ok cycle)
    (names : Names latest
      (entered
        { walk with
          path := { visit with pending } :: outer
          cycles := walk.cycles ++ [cycle] })) :
    Traced latest
      { walk with
        path := { visit with pending } :: outer
        cycles := walk.cycles ++ [cycle] } := by
  have reported : hasReported
      { walk with
        path := { visit with pending } :: outer
        cycles := walk.cycles ++ [cycle] } = true := by
    simp [hasReported]
  refine ⟨names, ?_, ?_, ?_, ?_⟩
  · rw [reported]
    apply traced.next path pends fun _ => rfl
    intro early named
    obtain ⟨there, among, equal⟩ := List.any_eq_true.mp onPath
    refine ⟨there.id, mem_reach_of_path (path ▸ among), ?_⟩
    rw [← named]
    exact (stepWith?_congr isKey ((Json.same_iff isKey).mp equal)).symm
  · have chained := traced.chained
    rw [path] at chained
    exact chained
  · rw [reported]
    intro before id within late found
    exact (traced.after before id within late found).mono fun _ => rfl
  · intro other member
    rcases List.mem_append.mp member with old | new
    · exact traced.genuine other old
    · rw [List.mem_singleton.mp new]
      exact isIn_cycleAt traced.names (traced.declares path pends known) onPath texts

/-- An advance keeps what is known of the walk. -/
theorem Advances.traced (advance : Advances latest walk after) (traced : Traced latest walk) :
    Traced latest after := by
  have names := advance.names traced.names
  cases advance with
  | leave path ended => exact traced.leave path ended names
  | pass path pends isKey idle => exact traced.pass path pends isKey idle names
  | close path pends isKey known _ onPath texts =>
      exact traced.close path pends isKey known onPath texts names
  | enter path pends _ known _ _ _ => exact traced.enter path pends known names
  | stop fault => exact ⟨names, trivial, .nil, traced.after, traced.genuine⟩

theorem Traced.start (traced : Traced latest walk) (isKey : id.isKey = true)
    (known : (stepWith? id latest).isSome = true) (undone : id.isAmong walk.done = false) :
    Traced latest { walk with path := [.enter latest id] } where
  names := traced.names.start isKey known undone
  settled := ⟨.enter known, trivial⟩
  chained := .singleton _
  after := traced.after
  genuine := traced.genuine

theorem traced_nil : Traced latest {} := by
  refine ⟨⟨?_, ?_, .nil⟩, trivial, .nil, ?_, ?_⟩ <;> simp [entered]

theorem walkSteps_traced (keys : ∀ step ∈ steps, step.id.isKey = true) :
    Traced steps.reverse (walkSteps steps) := by
  apply walkSteps_induction traced_nil
  · intro walk root member _ undone traced
    have isKey := keys root member
    exact traced.start isKey (stepWith?_isSome (List.mem_reverse.mpr member) (Json.same_self isKey))
      undone
  · intro walk busy traced
    exact (advances busy).traced traced

theorem walkSteps_sound (keys : ∀ step ∈ steps, step.id.isKey = true)
    (calm : ∀ walk : Walk, walk.path ≠ [] → Traced steps.reverse walk →
      (walk.advance steps.reverse).fault = walk.fault) : (walkSteps steps).fault = none := by
  have both : Traced steps.reverse (walkSteps steps) ∧ (walkSteps steps).fault = none := by
    apply walkSteps_induction
      (motive := fun walk => Traced steps.reverse walk ∧ walk.fault = none) ⟨traced_nil, rfl⟩
    · intro walk root member sound undone holds
      have isKey := keys root member
      have known := stepWith?_isSome (List.mem_reverse.mpr member) (Json.same_self isKey)
      exact ⟨holds.1.start isKey known undone, sound⟩
    · intro walk busy holds
      exact ⟨(advances busy).traced holds.1, (calm walk busy holds.1).trans holds.2⟩
  exact both.2

/-- An advance meets no fault when dependencies can be keys, and those that are
on the path have texts on the way back to them. -/
theorem Traced.advance_fault (traced : Traced latest walk) (busy : walk.path ≠ [])
    (dependencyKeys : ∀ step ∈ latest, ∀ dependency ∈ step.dependencyList, dependency.isKey = true)
    (texts : ∀ dependency, (stepWith? dependency latest).isSome = true →
      (dependency :: walk.path.map (·.id)).IsChain (fun inner outer => Declares latest outer inner) →
        (walk.path.any fun visit => Json.same dependency visit.id) = true →
          ∃ cycle, (cycleAt walk.path dependency).mapM Json.asText = .ok cycle) :
    (walk.advance latest).fault = walk.fault := by
  obtain ⟨visit, outer, path⟩ := List.exists_cons_of_ne_nil busy
  simp only [advance, path]
  cases pends : visit.pending with
  | nil => rfl
  | cons dependency pending =>
      have isKey : dependency.isKey = true := by
        obtain ⟨step, found, member⟩ := (traced.innermost path).1.pends_mem pends
        exact dependencyKeys step (stepWith?_mem found) dependency member
      simp only [isKey, Bool.not_true, Bool.false_eq_true, if_false]
      split
      · rfl
      · rename_i known
        split
        · rfl
        · unfold look
          split
          · rfl
          · split
            · rename_i onPath
              have present : (stepWith? dependency latest).isSome = true := by
                simpa [Option.isSome_iff_ne_none] using known
              obtain ⟨cycle, spelled⟩ := texts dependency present
                (traced.declares path pends present) (by simpa [path] using onPath)
              rw [path] at spelled
              simp only [report, cycleAt_pending, spelled]
            · rfl

end Walk

end Restyle
