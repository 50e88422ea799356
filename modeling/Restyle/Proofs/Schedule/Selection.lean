import Restyle.Proofs.Computation
import Restyle.Proofs.Schedule.Walks

/-!
# The steps of a run

What the filters of a run take from a plan, and that the schedule holds only
such steps, each once.
-/

namespace Restyle

variable {steps kept : List Step} {ids : List Json}

theorem asKey_eq_ok {value key : Json} :
    value.asKey = .ok key ↔ value.isKey = true ∧ value = key := by
  unfold Json.asKey
  cases isKey : value.isKey <;> simp

theorem mapM_asKey {values keys : List Json} :
    values.mapM Json.asKey = .ok keys ↔ (∀ value ∈ values, value.isKey = true) ∧ values = keys := by
  rw [mapM_eq_ok]
  simp only [asKey_eq_ok]
  constructor
  · intro all
    induction all with
    | nil => simp
    | cons first _ induction =>
        obtain ⟨isKey, rfl⟩ := first
        obtain ⟨keys, rfl⟩ := induction
        exact ⟨List.forall_mem_cons.mpr ⟨isKey, keys⟩, rfl⟩
  · rintro ⟨all, rfl⟩
    exact List.forall₂_same.mpr fun value member => ⟨all value member, rfl⟩

theorem filterM_key (choose : Json → Bool) :
    (steps.filterM fun step => do
        let id ← step.id.asKey
        return choose id) = (.ok kept : Except Fault (List Step)) ↔
      (∀ step ∈ steps, step.id.isKey = true) ∧ kept = steps.filter fun step => choose step.id := by
  obtain ⟨test, known⟩ : ∃ test : Step → Except Fault Bool, test = fun step => do
      let id ← step.id.asKey
      return choose id := ⟨_, rfl⟩
  have keyed : ∀ step : Step, step.id.isKey = true →
      test step = .ok (accepted test step) ∧ accepted test step = choose step.id := by
    intro step isKey
    have passes : test step = .ok (choose step.id) := by
      simp only [known, asKey_eq_ok.mpr ⟨isKey, rfl⟩]
      rfl
    rw [accepted, passes]
    exact ⟨rfl, rfl⟩
  have isKey : ∀ step : Step, test step = .ok (accepted test step) → step.id.isKey = true := by
    intro step passes
    cases given : step.id.isKey with
    | true => rfl
    | false =>
        simp only [known, Json.asKey, given] at passes
        cases passes
  rw [← known, filterM_eq_ok]
  constructor
  · rintro ⟨tests, rfl⟩
    have keys := fun step member => isKey step (tests step member)
    exact ⟨keys, List.filter_congr fun step member => (keyed step (keys step member)).2⟩
  · rintro ⟨keys, rfl⟩
    exact ⟨fun step member => (keyed step (keys step member)).1,
      List.filter_congr fun step member => (keyed step (keys step member)).2.symm⟩

theorem selectIds_eq_ok {keep : Bool} :
    selectIds keep ids steps = .ok kept ↔
      (∀ id ∈ ids, id.isKey = true) ∧
        (ids = [] ∧ kept = steps ∨
          ids ≠ [] ∧ (∀ step ∈ steps, step.id.isKey = true) ∧
            kept = steps.filter fun step => step.id.isAmong ids == keep) := by
  unfold selectIds
  cases keyed : ids.mapM Json.asKey with
  | error fault =>
      constructor
      · rintro ⟨⟩
      · rintro ⟨keys, _⟩
        have := keyed.symm.trans (mapM_asKey.mpr ⟨keys, rfl⟩)
        cases this
  | ok members =>
      obtain ⟨keys, rfl⟩ := mapM_asKey.mp keyed
      show (if ids.isEmpty = true then Except.ok steps else _) = _ ↔ _
      cases ids with
      | nil =>
          rw [List.isEmpty_nil, if_pos rfl, Except.ok.injEq]
          simp [@eq_comm _ steps]
      | cons first more =>
          rw [List.isEmpty_cons, if_neg (by decide)]
          refine (filterM_key fun id => id.isAmong (first :: more) == keep).trans ?_
          simp only [reduceCtorEq, false_and, false_or, ne_eq, not_false_eq_true, true_and]
          exact ⟨fun chosen => ⟨keys, chosen⟩, And.right⟩

theorem selectIds_sublist {keep : Bool} (selected : selectIds keep ids steps = .ok kept) :
    kept.Sublist steps := by
  obtain ⟨_, ⟨_, rfl⟩ | ⟨_, _, rfl⟩⟩ := selectIds_eq_ok.mp selected
  · exact .refl _
  · exact List.filter_sublist

theorem selectFile_sublist {file : String} (selected : selectFile file steps = .ok kept) :
    kept.Sublist steps := by
  unfold selectFile at selected
  split at selected
  · cases selected
    exact .refl _
  · obtain ⟨_, rfl⟩ := filterM_eq_ok.mp selected
    exact List.filter_sublist

theorem selectIds_excludes (selected : selectIds false ids steps = .ok kept) :
    (∀ id ∈ ids, id.isKey = true) ∧ ∀ step ∈ kept, step.id.isAmong ids = false := by
  obtain ⟨keys, ⟨rfl, rfl⟩ | ⟨_, _, rfl⟩⟩ := selectIds_eq_ok.mp selected
  · exact ⟨keys, fun _ _ => rfl⟩
  · refine ⟨keys, fun step member => ?_⟩
    simpa using (List.mem_filter.mp member).2

theorem Selection.filter_eq_ok {selection : Selection} (selected : selection.filter steps = .ok kept) :
    kept.Sublist steps ∧ (∀ id ∈ selection.completed, id.isKey = true) ∧
      ∀ step ∈ kept, step.id.isAmong selection.completed = false := by
  obtain ⟨first, chosen, rest⟩ := bind_eq_ok_iff.mp selected
  obtain ⟨second, skipped, rest⟩ := bind_eq_ok_iff.mp rest
  obtain ⟨third, located, last⟩ := bind_eq_ok_iff.mp rest
  obtain ⟨keys, fresh⟩ := selectIds_excludes last
  exact ⟨(selectIds_sublist last).trans ((selectFile_sublist located).trans
    ((selectIds_sublist skipped).trans (selectIds_sublist chosen))), keys, fresh⟩

theorem selectIds_of_keys (keep : Bool) (keys : ∀ id ∈ ids, id.isKey = true)
    (stepKeys : ∀ step ∈ steps, step.id.isKey = true) :
    ∃ kept, selectIds keep ids steps = .ok kept := by
  by_cases nothing : ids = []
  · exact ⟨_, selectIds_eq_ok.mpr ⟨keys, Or.inl ⟨nothing, rfl⟩⟩⟩
  · exact ⟨_, selectIds_eq_ok.mpr ⟨keys, Or.inr ⟨nothing, stepKeys, rfl⟩⟩⟩

theorem selectFile_of_texts {file : String}
    (texts : file = "" ∨ ∀ step ∈ steps, ∃ name, step.file = .text name) :
    ∃ kept, selectFile file steps = .ok kept := by
  unfold selectFile
  split
  · exact ⟨steps, rfl⟩
  · rename_i given
    refine ⟨_, filterM_eq_ok.mpr ⟨fun step member => ?_, rfl⟩⟩
    obtain ⟨name, isText⟩ :=
      (texts.resolve_left fun empty => given (by rw [empty]; rfl)) step member
    have answers : ∃ answer, step.isIn file = .ok answer := by
      unfold Step.isIn
      rw [isText]
      split
      · exact ⟨true, rfl⟩
      · exact ⟨_, rfl⟩
    obtain ⟨answer, known⟩ := answers
    rw [accepted, known]

/-- Whether the identifiers that a selection names can be keys. -/
structure Selection.HasKeys (selection : Selection) : Prop where
  only : ∀ id ∈ selection.only, id.isKey = true
  skip : ∀ id ∈ selection.skip, id.isKey = true
  completed : ∀ id ∈ selection.completed, id.isKey = true

theorem Selection.filter_of_keys {selection : Selection}
    (onlyKeys : ∀ id ∈ selection.only, id.isKey = true)
    (skipKeys : ∀ id ∈ selection.skip, id.isKey = true)
    (texts : selection.file = "" ∨ ∀ step ∈ steps, ∃ name, step.file = .text name)
    (completedKeys : ∀ id ∈ selection.completed, id.isKey = true)
    (stepKeys : ∀ step ∈ steps, step.id.isKey = true) :
    ∃ kept, selection.filter steps = .ok kept := by
  obtain ⟨first, chosen⟩ := selectIds_of_keys true onlyKeys stepKeys
  have firstSteps : ∀ step ∈ first, step ∈ steps := fun _ => (selectIds_sublist chosen).mem
  obtain ⟨second, skipped⟩ :=
    selectIds_of_keys false skipKeys fun step member => stepKeys step (firstSteps step member)
  have secondSteps : ∀ step ∈ second, step ∈ steps :=
    fun step member => firstSteps step ((selectIds_sublist skipped).mem member)
  obtain ⟨third, located⟩ : ∃ third, selectFile selection.file second = .ok third :=
    selectFile_of_texts (texts.imp_right fun all step member => all step (secondSteps step member))
  have thirdSteps : ∀ step ∈ third, step ∈ steps :=
    fun step member => secondSteps step ((selectFile_sublist located).mem member)
  obtain ⟨last, remaining⟩ := selectIds_of_keys false completedKeys
    fun step member => stepKeys step (thirdSteps step member)
  exact ⟨last, bind_eq_ok_iff.mpr ⟨first, chosen, bind_eq_ok_iff.mpr ⟨second, skipped,
    bind_eq_ok_iff.mpr ⟨third, located, remaining⟩⟩⟩⟩

/-- When every step is completed, nothing is selected. -/
theorem Selection.filter_of_completed {selection : Selection}
    (onlyKeys : ∀ id ∈ selection.only, id.isKey = true)
    (skipKeys : ∀ id ∈ selection.skip, id.isKey = true)
    (texts : selection.file = "" ∨ ∀ step ∈ steps, ∃ name, step.file = .text name)
    (completedKeys : ∀ id ∈ selection.completed, id.isKey = true)
    (stepKeys : ∀ step ∈ steps, step.id.isKey = true)
    (completed : ∀ step ∈ steps, step.id.isAmong selection.completed = true) :
    selection.filter steps = .ok [] := by
  obtain ⟨kept, selected⟩ :=
    Selection.filter_of_keys onlyKeys skipKeys texts completedKeys stepKeys
  obtain ⟨sub, _, fresh⟩ := Selection.filter_eq_ok selected
  have empty : kept = [] := by
    apply List.eq_nil_iff_forall_not_mem.mpr
    intro step member
    have done := completed step (sub.mem member)
    rw [fresh step member] at done
    cases done
  rw [selected, empty]

theorem order_nodup (keys : ∀ step ∈ steps, step.id.isKey = true) :
    ((order steps).map (·.id.key?)).Nodup := by
  have names := walkSteps_names keys
  unfold order
  rw [Walk.stepsDone_keys names]
  exact (names.of_sublist (List.sublist_append_right _ _)).distinct

theorem Schedule.ofSteps_of_keys (keys : ∀ step ∈ steps, step.id.isKey = true) :
    Schedule.ofSteps steps = .ok
      { steps := order steps
        warnings := (cycles steps).map Cycle.warning
        fault := (walkSteps steps).fault } := by
  have keyed : steps.mapM (fun step => step.id.asKey) = .ok (steps.map (·.id)) := by
    rw [mapM_eq_ok, List.forall₂_map_right_iff]
    apply List.forall₂_same.mpr
    intro step member
    exact asKey_eq_ok.mpr ⟨keys step member, rfl⟩
  unfold Schedule.ofSteps
  rw [keyed]
  rfl

theorem Schedule.ofSteps_eq_ok {schedule : Schedule}
    (scheduled : Schedule.ofSteps steps = .ok schedule) :
    (∀ step ∈ steps, step.id.isKey = true) ∧ (∀ step ∈ schedule.steps, step ∈ steps) ∧
      (schedule.steps.map (·.id.key?)).Nodup := by
  obtain ⟨ids, keyed, built⟩ := bind_eq_ok_iff.mp scheduled
  cases built
  have keys : ∀ step ∈ steps, step.id.isKey = true := by
    intro step member
    obtain ⟨_, _, found⟩ := (mem_of_mapM keyed).1 step member
    exact (asKey_eq_ok.mp found).1
  refine ⟨keys, ?_, order_nodup keys⟩
  exact fun step member => List.mem_reverse.mp (Walk.mem_stepsDone member)

end Restyle
