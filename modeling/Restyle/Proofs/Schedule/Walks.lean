import Restyle.Proofs.Json.Keys
import Restyle.Schedule

/-!
# Walks over steps

`Walk.Advances` lists all that an advance of a walk can do.  From it follows
what every walk keeps: no identifier is entered twice, and each belongs to a
step of the list.
-/

namespace Restyle

variable {latest steps : List Step} {id : Json} {step : Step}

theorem stepWith?_mem (found : stepWith? id latest = some step) : step ∈ latest :=
  List.mem_of_find?_eq_some found

theorem stepWith?_same (found : stepWith? id latest = some step) : Json.same id step.id = true := by
  have := List.find?_some found
  exact this

theorem stepWith?_isSome (member : step ∈ latest) (equal : Json.same id step.id = true) :
    (stepWith? id latest).isSome = true :=
  List.find?_isSome.mpr ⟨step, member, equal⟩

theorem stepWith?_congr {other : Json} (isKey : id.isKey = true) (equal : id.key? = other.key?) :
    stepWith? id latest = stepWith? other latest := by
  have otherKey : other.isKey = true := by
    rw [Json.isKey_iff_key?, ← equal]
    exact Json.isKey_iff_key?.mp isKey
  unfold stepWith?
  congr 1
  funext step
  rw [Bool.eq_iff_iff, Json.same_iff isKey, Json.same_iff otherKey, equal]

namespace Walk

variable {walk next : Walk}

/-- What an advance of a walk does. -/
inductive Advances (latest : List Step) : Walk → Walk → Prop where
  /-- The innermost visit ends. -/
  | leave {walk : Walk} {visit : Visit} {outer : List Visit} (path : walk.path = visit :: outer)
      (ended : visit.pending = [] ∨
        (∃ pending, visit.pending = .null :: pending) ∧ (stepWith? .null latest).isSome = true) :
      Advances latest walk { walk with path := outer, done := walk.done ++ [visit.id] }
  /-- The next dependency is no step or is done. -/
  | pass {walk : Walk} {visit : Visit} {outer : List Visit} {dependency : Json}
      {pending : List Json} (path : walk.path = visit :: outer)
      (pends : visit.pending = dependency :: pending) (isKey : dependency.isKey = true)
      (idle : stepWith? dependency latest = none ∨ dependency.isAmong walk.done = true) :
      Advances latest walk { walk with path := { visit with pending } :: outer }
  /-- The next dependency is on the path. -/
  | close {walk : Walk} {visit : Visit} {outer : List Visit} {dependency : Json}
      {pending : List Json} {cycle : Cycle} (path : walk.path = visit :: outer)
      (pends : visit.pending = dependency :: pending) (isKey : dependency.isKey = true)
      (known : (stepWith? dependency latest).isSome = true)
      (undone : dependency.isAmong walk.done = false)
      (onPath : (walk.path.any fun visit => Json.same dependency visit.id) = true)
      (texts : (cycleAt walk.path dependency).mapM Json.asText = .ok cycle) :
      Advances latest walk
        { walk with
          path := { visit with pending } :: outer
          cycles := walk.cycles ++ [cycle] }
  /-- The next dependency is entered. -/
  | enter {walk : Walk} {visit : Visit} {outer : List Visit} {dependency : Json}
      {pending : List Json} (path : walk.path = visit :: outer)
      (pends : visit.pending = dependency :: pending) (isKey : dependency.isKey = true)
      (known : (stepWith? dependency latest).isSome = true) (notNull : dependency ≠ .null)
      (undone : dependency.isAmong walk.done = false)
      (offPath : (walk.path.any fun visit => Json.same dependency visit.id) = false) :
      Advances latest walk
        { walk with path := .enter latest dependency :: { visit with pending } :: outer }
  | stop {walk : Walk} (fault : Fault) :
      Advances latest walk { walk with path := [], fault := some fault }

theorem cycleAt_pending (visit : Visit) (pending : List Json) (outer : List Visit)
    (dependency : Json) :
    cycleAt ({ visit with pending } :: outer) dependency = cycleAt (visit :: outer) dependency := by
  simp [cycleAt]

/-- Looking at a dependency passes it, closes a cycle with it or enters it. -/
theorem look_advances {visit : Visit} {outer : List Visit} {dependency : Json}
    {pending : List Json} (path : walk.path = visit :: outer)
    (pends : visit.pending = dependency :: pending) (isKey : dependency.isKey = true)
    (known : (stepWith? dependency latest).isSome = true) (notNull : dependency ≠ .null) :
    Advances latest walk
      (look latest { walk with path := { visit with pending } :: outer } dependency) := by
  unfold look
  cases done : dependency.isAmong walk.done with
  | true =>
      simp only [if_true]
      exact .pass path pends isKey (Or.inr done)
  | false =>
      simp only [Bool.false_eq_true, if_false]
      cases onPath : walk.path.any fun visit => Json.same dependency visit.id with
      | false =>
          rw [if_neg]
          · exact .enter path pends isKey known notNull done onPath
          · simpa [path] using onPath
      | true =>
          rw [if_pos]
          · unfold report
            simp only [cycleAt_pending, ← path]
            cases texts : (cycleAt walk.path dependency).mapM Json.asText with
            | error fault => exact .stop fault
            | ok cycle => exact .close path pends isKey known done onPath texts
          · simpa [path] using onPath

theorem advances (busy : walk.path ≠ []) : Advances latest walk (walk.advance latest) := by
  obtain ⟨visit, outer, path⟩ := List.exists_cons_of_ne_nil busy
  unfold advance
  simp only [path]
  cases pends : visit.pending with
  | nil => exact .leave path (Or.inl pends)
  | cons dependency pending =>
      dsimp only
      cases isKey : dependency.isKey with
      | false => exact .stop _
      | true =>
          simp only [Bool.not_true, Bool.false_eq_true, if_false]
          cases found : stepWith? dependency latest with
          | none => exact .pass path pends isKey (Or.inl found)
          | some step =>
              have known : (stepWith? dependency latest).isSome = true := by
                rw [found]
                rfl
              simp only [Option.isNone_some, Bool.false_eq_true, if_false]
              by_cases isNull : dependency = .null
              · rw [if_pos isNull]
                exact .leave path (Or.inr ⟨⟨pending, isNull ▸ pends⟩, isNull ▸ known⟩)
              · rw [if_neg isNull]
                exact look_advances path pends isKey known isNull

/-- Identifiers of steps, each once. -/
structure Names (latest : List Step) (ids : List Json) : Prop where
  keys : ∀ id ∈ ids, id.isKey = true
  known : ∀ id ∈ ids, (stepWith? id latest).isSome = true
  distinct : (ids.map Json.key?).Nodup

namespace Names

variable {ids others : List Json}

theorem of_perm (names : Names latest ids) (perm : others.Perm ids) : Names latest others where
  keys := fun id member => names.keys id (perm.subset member)
  known := fun id member => names.known id (perm.subset member)
  distinct := (perm.map Json.key?).nodup_iff.mpr names.distinct

theorem of_sublist (names : Names latest ids) (sub : others.Sublist ids) : Names latest others where
  keys := fun id member => names.keys id (sub.subset member)
  known := fun id member => names.known id (sub.subset member)
  distinct := names.distinct.sublist (sub.map Json.key?)

theorem cons (names : Names latest ids) (isKey : id.isKey = true)
    (known : (stepWith? id latest).isSome = true) (fresh : id.isAmong ids = false) :
    Names latest (id :: ids) where
  keys := List.forall_mem_cons.mpr ⟨isKey, names.keys⟩
  known := List.forall_mem_cons.mpr ⟨known, names.known⟩
  distinct := List.nodup_cons.mpr ⟨(Json.not_isAmong_iff isKey).mp fresh, names.distinct⟩

end Names

/-- The identifiers that a walk has come to. -/
def entered (walk : Walk) : List Json := walk.path.map (·.id) ++ walk.done

/-- An advance keeps that every step is entered at most once. -/
theorem Advances.names (advance : Advances latest walk next) (names : Names latest walk.entered) :
    Names latest next.entered := by
  cases advance with
  | @leave visit outer path ended =>
      apply names.of_perm
      unfold entered
      rw [path, List.map_cons, List.cons_append, ← List.append_assoc]
      exact List.perm_append_singleton visit.id _
  | pass path =>
      unfold entered at names ⊢
      rw [path] at names
      exact names
  | close path =>
      unfold entered at names ⊢
      rw [path] at names
      exact names
  | @enter visit outer dependency pending path pends isKey known notNull undone offPath =>
      have extended := names.cons isKey known (by
        unfold entered
        rw [Json.isAmong, List.any_append, Bool.or_eq_false_iff, List.any_map]
        exact ⟨offPath, undone⟩)
      unfold entered at extended ⊢
      rw [path] at extended
      exact extended
  | stop fault => exact names.of_sublist (List.sublist_append_right _ _)

theorem Names.start (names : Names latest walk.entered) (isKey : id.isKey = true)
    (known : (stepWith? id latest).isSome = true) (undone : id.isAmong walk.done = false) :
    Names latest (entered { walk with path := [.enter latest id] }) :=
  (names.of_sublist (List.sublist_append_right _ _)).cons isKey known undone

theorem run_names (fuel : Nat) (names : Names latest walk.entered) :
    Names latest (run latest fuel walk).entered := by
  induction fuel generalizing walk with
  | zero => exact names
  | succ fuel induction =>
      rw [run]
      split
      · exact names
      · rename_i busy
        exact induction ((advances (by simpa using busy)).names names)

theorem startAt_names {fuel : Nat} {root : Step} (member : root ∈ latest)
    (isKey : root.id.isKey = true) (names : Names latest walk.entered) :
    Names latest (startAt latest fuel walk root).entered := by
  unfold startAt
  cases undone : root.id.isAmong walk.done with
  | true =>
      rw [Bool.or_true, if_pos rfl]
      exact names
  | false =>
      split
      · exact names
      · apply run_names
        exact names.start isKey (stepWith?_isSome member (Json.same_self isKey)) undone

end Walk

theorem walkSteps_names (keys : ∀ step ∈ steps, step.id.isKey = true) :
    Walk.Names steps.reverse (walkSteps steps).entered := by
  have folds : ∀ roots : List Step, (∀ root ∈ roots, root ∈ steps) → ∀ walk : Walk,
      Walk.Names steps.reverse walk.entered →
        Walk.Names steps.reverse
          (roots.foldl (Walk.startAt steps.reverse (Walk.bound steps)) walk).entered := by
    intro roots
    induction roots with
    | nil => exact fun _ _ names => names
    | cons root roots induction =>
        intro members walk names
        have member := members root List.mem_cons_self
        exact induction (fun other later => members other (List.mem_cons_of_mem _ later)) _
          (Walk.startAt_names (List.mem_reverse.mpr member) (keys root member) names)
  exact folds steps (fun _ member => member) {} ⟨by simp [Walk.entered], by simp [Walk.entered],
    by simp [Walk.entered]⟩

namespace Walk

theorem stepsDone_keys {walk : Walk} (names : Names latest walk.entered) :
    (walk.stepsDone latest).map (·.id.key?) = walk.done.map Json.key? := by
  have done := names.of_sublist (List.sublist_append_right (walk.path.map (·.id)) walk.done)
  unfold stepsDone
  generalize walk.done = ids at done
  induction ids with
  | nil => rfl
  | cons id ids induction =>
      have rest := induction (done.of_sublist (List.sublist_cons_self _ _))
      obtain ⟨step, found⟩ := Option.isSome_iff_exists.mp (done.known id List.mem_cons_self)
      have equal := (Json.same_iff (done.keys id List.mem_cons_self)).mp (stepWith?_same found)
      simp only [List.filterMap_cons, found, List.map_cons, rest, equal]

theorem mem_stepsDone {walk : Walk} (member : step ∈ walk.stepsDone latest) : step ∈ latest := by
  obtain ⟨id, _, found⟩ := List.mem_filterMap.mp member
  exact stepWith?_mem found

end Walk

end Restyle
