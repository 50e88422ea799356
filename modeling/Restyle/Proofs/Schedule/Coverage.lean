import Restyle.Proofs.Schedule.Traces

/-!
# Every step once

Where identifiers are texts, a walk meets no fault.  A walk without a fault
comes to be done with every step, so the order has, of the steps with one
identifier, the last one, and has it once.  With the filters of a selection this
says what a run schedules, for any dependencies.
-/

namespace Restyle

variable {latest steps kept : List Step} {ids : List Json} {id : Json} {step : Step}
  {selection : Selection}

/-- Steps whose identifiers are texts and whose dependencies can be keys. -/
structure AreNamed (steps : List Step) : Prop where
  texts : ∀ step ∈ steps, ∃ name, step.id = .text name
  dependencyKeys : ∀ step ∈ steps, ∀ dependency ∈ step.dependencyList, dependency.isKey = true

/-- Steps with identifiers that can be keys, no two with the same one. -/
structure AreDistinct (steps : List Step) : Prop where
  keys : ∀ step ∈ steps, step.id.isKey = true
  distinct : (steps.map (·.id.key?)).Nodup

/-- Whether a step is the last one of a list with its identifier. -/
def Step.IsLastIn (steps : List Step) (step : Step) : Prop :=
  ∃ before behind, steps = before ++ step :: behind ∧
    ∀ other ∈ behind, Json.same other.id step.id = false

theorem Step.IsLastIn.mem (last : step.IsLastIn steps) : step ∈ steps := by
  obtain ⟨before, behind, rfl, _⟩ := last
  exact List.mem_append_right _ List.mem_cons_self

theorem Json.mapM_asText_of_texts (texts : ∀ id ∈ ids, ∃ name, id = .text name) :
    ∃ names, ids.mapM Json.asText = .ok names := by
  induction ids with
  | nil => exact ⟨[], rfl⟩
  | cons id ids induction =>
      obtain ⟨⟨name, rfl⟩, later⟩ := List.forall_mem_cons.mp texts
      obtain ⟨names, spelled⟩ := induction later
      refine ⟨name :: names, ?_⟩
      rw [mapM_asText_eq_ok] at spelled ⊢
      rw [spelled, List.map_cons]

section
variable (texts : ∀ step ∈ steps, ∃ name, step.id = .text name)
include texts

theorem keys_of_texts : ∀ step ∈ steps, step.id.isKey = true := by
  intro step member
  obtain ⟨name, isText⟩ := texts step member
  rw [isText]
  rfl

theorem notNull_of_texts : ∀ step ∈ steps, step.id ≠ .null := by
  intro step member isNull
  obtain ⟨name, isText⟩ := texts step member
  rw [isText] at isNull
  cases isNull

end

namespace AreNamed

theorem mono (named : AreNamed steps) (fewer : ∀ step ∈ kept, step ∈ steps) : AreNamed kept where
  texts := fun step member => named.texts step (fewer step member)
  dependencyKeys := fun step member => named.dependencyKeys step (fewer step member)

theorem keys (named : AreNamed steps) : ∀ step ∈ steps, step.id.isKey = true :=
  keys_of_texts named.texts

theorem text_of_found (named : AreNamed latest) (known : (stepWith? id latest).isSome = true) :
    ∃ name, id = .text name := by
  obtain ⟨step, found⟩ := Option.isSome_iff_exists.mp known
  obtain ⟨name, isText⟩ := named.texts step (stepWith?_mem found)
  have equal := stepWith?_same found
  rw [isText] at equal
  exact ⟨name, Json.eq_text_of_same equal⟩

/-- A walk over steps with texts as identifiers meets no fault. -/
theorem sound (named : AreNamed steps) : (walkSteps steps).fault = none := by
  have reversed : AreNamed steps.reverse := named.mono fun step => List.mem_reverse.mp
  apply Walk.walkSteps_sound named.keys
  intro walk busy traced
  apply traced.advance_fault busy reversed.dependencyKeys
  intro dependency known _ _
  apply Json.mapM_asText_of_texts
  intro id member
  rcases List.mem_append.mp member with onPath | last
  · have entered := (List.dropWhile_suffix _).subset onPath
    rw [List.map_reverse, List.mem_reverse] at entered
    exact reversed.text_of_found (traced.names.known id (List.mem_append_left _ entered))
  · rw [List.mem_singleton.mp last]
    exact reversed.text_of_found known

end AreNamed

namespace Walk

variable {walk after : Walk}

theorem Visits.done_roots {roots : List Step} (visits : Visits latest roots walk after)
    (sound : after.fault = none) (keys : ∀ root ∈ roots, root.id.isKey = true) :
    ∀ root ∈ roots, root.id.isAmong after.done = true := by
  induction visits with
  | nil =>
      intro root member
      cases member
  | @known root roots walk after done later induction =>
      obtain ⟨isKey, laterKeys⟩ := List.forall_mem_cons.mp keys
      refine List.forall_mem_cons.mpr ⟨?_, induction sound laterKeys⟩
      obtain ⟨id, among, equal⟩ := List.any_eq_true.mp done
      exact List.any_eq_true.mpr ⟨id, (later.order sound).subset among, equal⟩
  | @fresh root roots walk between after undone walked ended later induction =>
      obtain ⟨isKey, laterKeys⟩ := List.forall_mem_cons.mp keys
      refine List.forall_mem_cons.mpr ⟨?_, induction sound laterKeys⟩
      obtain ⟨rest, whole, sub⟩ := walked.order ended (later.sound sound)
      have here : root.id ∈ between.done := by
        rw [whole]
        exact List.mem_append_right _ (sub.subset List.mem_cons_self)
      exact List.any_eq_true.mpr
        ⟨root.id, (later.order sound).subset here, Json.same_self isKey⟩

end Walk

/-- What is interchangeable with one of two interchangeable values is so with the
other. -/
theorem Json.same_congr {other value : Json} (isKey : id.isKey = true)
    (equal : Json.same id value = true) : Json.same other value = Json.same id other := by
  have keys := (Json.same_iff isKey).mp equal
  have valueKey := Json.isKey_of_same isKey equal
  rw [Bool.eq_iff_iff]
  constructor
  · intro same
    have otherKey := Json.isKey_of_same_key valueKey same
    exact (Json.same_iff isKey).mpr (keys.trans ((Json.same_iff otherKey).mp same).symm)
  · intro same
    have otherKey := Json.isKey_of_same isKey same
    exact (Json.same_iff otherKey).mpr (((Json.same_iff isKey).mp same).symm.trans keys)

/-- Of the steps with an identifier the last one is found. -/
theorem stepWith?_eq_some_iff (isKey : id.isKey = true) :
    stepWith? id steps.reverse = some step ↔
      Json.same id step.id = true ∧ step.IsLastIn steps := by
  unfold stepWith? Step.IsLastIn
  rw [List.find?_eq_some_iff_append]
  apply and_congr_right
  intro equal
  constructor
  · rintro ⟨behind, before, split, others⟩
    refine ⟨before.reverse, behind.reverse, ?_, ?_⟩
    · rw [← List.reverse_reverse steps, split]
      simp
    · intro other member
      rw [Json.same_congr isKey equal]
      simpa using others other (List.mem_reverse.mp member)
  · rintro ⟨before, behind, rfl, others⟩
    refine ⟨behind.reverse, before.reverse, by simp, ?_⟩
    intro other member
    rw [← Json.same_congr isKey equal, others other (List.mem_reverse.mp member)]
    rfl

/-- A walk without a fault puts in order the last step with each identifier. -/
theorem mem_order_iff (keys : ∀ step ∈ steps, step.id.isKey = true)
    (sound : (walkSteps steps).fault = none) :
    step ∈ order steps ↔ step.IsLastIn steps := by
  obtain ⟨doneKeys, _, _⟩ := (walkSteps_names keys).of_sublist
    (List.sublist_append_right ((walkSteps steps).path.map (·.id)) _)
  constructor
  · intro member
    obtain ⟨id, among, found⟩ := List.mem_filterMap.mp member
    exact ((stepWith?_eq_some_iff (doneKeys id among)).mp found).2
  · intro last
    have done := (walkSteps_visits keys sound).done_roots sound keys step last.mem
    obtain ⟨id, among, equal⟩ := List.any_eq_true.mp done
    have isKey := doneKeys id among
    refine List.mem_filterMap.mpr ⟨id, among, ?_⟩
    apply (stepWith?_eq_some_iff isKey).mpr
    refine ⟨?_, last⟩
    rw [← Json.same_congr isKey (Json.same_self isKey)]
    exact equal

namespace AreDistinct

theorem of_texts (texts : ∀ step ∈ steps, ∃ name, step.id = .text name)
    (distinct : (steps.map (·.id)).Nodup) : AreDistinct steps := by
  have keys := keys_of_texts texts
  refine ⟨keys, List.Nodup.map_on ?_ distinct.of_map⟩
  intro early member late among equal
  obtain ⟨name, isText⟩ := texts late among
  apply List.inj_on_of_nodup_map distinct member among
  have same := (Json.same_iff (keys early member)).mpr equal
  rw [isText] at same ⊢
  exact Json.eq_text_of_same same

theorem eq_of_same {early late : Step} (areDistinct : AreDistinct steps) (member : early ∈ steps)
    (among : late ∈ steps) (equal : Json.same early.id late.id = true) : early = late :=
  List.inj_on_of_nodup_map areDistinct.distinct member among
    ((Json.same_iff (areDistinct.keys early member)).mp equal)

theorem isLastIn (areDistinct : AreDistinct steps) (member : step ∈ steps) :
    step.IsLastIn steps := by
  obtain ⟨before, behind, rfl⟩ := List.append_of_mem member
  refine ⟨before, behind, rfl, ?_⟩
  intro other later
  have distinct := areDistinct.distinct
  rw [List.map_append, List.map_cons, List.nodup_append] at distinct
  have apart := (List.nodup_cons.mp distinct.2.1).1
  rw [← Bool.not_eq_true, Json.same_iff (areDistinct.keys other (by simp [later]))]
  intro equal
  exact apart (equal ▸ List.mem_map_of_mem later)

theorem stepWith?_eq (areDistinct : AreDistinct steps) (member : step ∈ steps)
    (isKey : id.isKey = true) (equal : Json.same id step.id = true) :
    stepWith? id steps.reverse = some step :=
  (stepWith?_eq_some_iff isKey).mpr ⟨equal, areDistinct.isLastIn member⟩

theorem stepWith?_id (areDistinct : AreDistinct steps) (member : step ∈ steps) :
    stepWith? step.id steps.reverse = some step :=
  have isKey := areDistinct.keys step member
  areDistinct.stepWith?_eq member isKey (Json.same_self isKey)

theorem order_perm (areDistinct : AreDistinct steps) (sound : (walkSteps steps).fault = none) :
    (order steps).Perm steps := by
  apply (List.perm_ext_iff_of_nodup (order_nodup areDistinct.keys).of_map
    areDistinct.distinct.of_map).mpr
  intro step
  rw [mem_order_iff areDistinct.keys sound]
  constructor
  · rintro ⟨before, behind, rfl, _⟩
    simp
  · exact areDistinct.isLastIn

end AreDistinct

/-- Whether a step is in a file, given by its whole path or by the end of it from
some directory on. -/
def Step.liesIn (file : String) (step : Step) : Bool :=
  match step.file with
  | .text path => path == file || ('/' :: file.toList).isSuffixOf path.toList
  | .torn path => (Text.codes ('/' :: file.toList)).isSuffixOf path
  | _ => false

/-- Whether a step passes the four filters: it is among those asked for, if any
are, is not to be skipped, lies in the file, if one is given, and is not
completed. -/
def Selection.takes (selection : Selection) (step : Step) : Bool :=
  (selection.only.isEmpty || step.id.isAmong selection.only) &&
    !step.id.isAmong selection.skip &&
    (selection.file.isEmpty || step.liesIn selection.file) &&
    !step.id.isAmong selection.completed

theorem selectIds_members (selected : selectIds true ids steps = .ok kept) :
    kept = steps.filter fun step => ids.isEmpty || step.id.isAmong ids := by
  obtain ⟨_, ⟨rfl, rfl⟩ | ⟨some, _, rfl⟩⟩ := selectIds_eq_ok.mp selected
  · simp
  · have filled : ids.isEmpty = false := by simpa using some
    simp [filled]

theorem selectIds_others (selected : selectIds false ids steps = .ok kept) :
    kept = steps.filter fun step => !step.id.isAmong ids := by
  obtain ⟨_, ⟨rfl, rfl⟩ | ⟨some, _, rfl⟩⟩ := selectIds_eq_ok.mp selected
  · simp [Json.isAmong]
  · simp

theorem Step.accepted_isIn {file : String} {step : Step} {answer : Bool}
    (known : step.isIn file = .ok answer) : answer = step.liesIn file := by
  unfold Step.isIn at known
  unfold Step.liesIn
  cases place : step.file with
  | text path =>
      rw [place] at known
      split at known
      · rename_i whole
        cases known
        cases whole
        simp
      · rename_i other
        cases known
        have differs : (path == file) = false := by simpa using other
        simp [differs]
  | torn path =>
      rw [place] at known
      cases known
      rfl
  | _ =>
      rw [place] at known
      cases known

theorem selectFile_members {file : String} (selected : selectFile file steps = .ok kept) :
    kept = steps.filter fun step => file.isEmpty || step.liesIn file := by
  unfold selectFile at selected
  split at selected
  · rename_i empty
    cases selected
    simp [empty]
  · rename_i given
    obtain ⟨tests, rfl⟩ := filterM_eq_ok.mp selected
    apply List.filter_congr
    intro step member
    rw [Step.accepted_isIn (tests step member)]
    simp [given]

theorem Selection.filter_eq_filter (selected : selection.filter steps = .ok kept) :
    kept = steps.filter selection.takes := by
  obtain ⟨first, chosen, rest⟩ := bind_eq_ok_iff.mp selected
  obtain ⟨second, skipped, rest⟩ := bind_eq_ok_iff.mp rest
  obtain ⟨third, located, last⟩ := bind_eq_ok_iff.mp rest
  rw [selectIds_others last, selectFile_members located, selectIds_others skipped,
    selectIds_members chosen]
  simp only [List.filter_filter]
  apply List.filter_congr
  intro step _
  unfold Selection.takes
  ac_rfl

theorem AreNamed.scheduled (named : AreNamed steps) (keys : selection.HasKeys)
    (files : selection.file = "" ∨ ∀ step ∈ steps, ∃ path, step.file = .text path) :
    ∃ schedule, (selection.filter steps >>= Schedule.ofSteps) = .ok schedule ∧
      schedule.fault = none := by
  obtain ⟨kept, selected⟩ :=
    Selection.filter_of_keys keys.only keys.skip files keys.completed named.keys
  have keptNamed : AreNamed kept :=
    named.mono fun _ => (Selection.filter_eq_ok selected).1.mem
  refine ⟨_, bind_eq_ok_iff.mpr ⟨kept, selected, Schedule.ofSteps_of_keys keptNamed.keys⟩, ?_⟩
  exact keptNamed.sound

/-- What a run schedules of the steps of a plan.  With texts as identifiers there
is a schedule.  Whenever there is one, the walk has come to its end, and of the
steps that pass the filters the last one with each identifier is scheduled,
once, and nothing else; if no two have one identifier, all are. -/
theorem selected_steps_scheduled_once (selection : Selection) (steps : List Step) :
    (AreNamed steps → selection.HasKeys →
      (selection.file = "" ∨ ∀ step ∈ steps, ∃ path, step.file = .text path) →
        ∃ schedule, (selection.filter steps >>= Schedule.ofSteps) = .ok schedule ∧
          schedule.fault = none) ∧
      ∀ schedule, (selection.filter steps >>= Schedule.ofSteps) = .ok schedule →
        schedule.fault = none →
          Walk.Visits (steps.filter selection.takes).reverse (steps.filter selection.takes) {}
              (walkSteps (steps.filter selection.takes)) ∧
            (∀ step, step ∈ schedule.steps ↔ step.IsLastIn (steps.filter selection.takes)) ∧
            (schedule.steps.map (·.id.key?)).Nodup ∧
            (((steps.filter selection.takes).map (·.id.key?)).Nodup →
              schedule.steps.Perm (steps.filter selection.takes)) := by
  refine ⟨AreNamed.scheduled, ?_⟩
  intro schedule made sound
  obtain ⟨kept, selected, scheduled⟩ := bind_eq_ok_iff.mp made
  rw [← Selection.filter_eq_filter selected]
  have keys := (Schedule.ofSteps_eq_ok scheduled).1
  cases (Schedule.ofSteps_of_keys keys).symm.trans scheduled
  refine ⟨walkSteps_visits keys sound, fun step => mem_order_iff keys sound, order_nodup keys, ?_⟩
  intro distinct
  exact AreDistinct.order_perm ⟨keys, distinct⟩ sound

/-- A step with an identifier and dependencies. -/
def Step.naming (id : String) (dependencies : List Json) : Step :=
  { (default : Step) with id := .text id, dependencies := some dependencies }

/-- Two steps that need each other, one of which is listed twice, and a third. -/
def roundSteps : List Step :=
  [.naming "a" [], .naming "b" [.text "a"], .naming "c" [],
    .naming "a" [.text "b", .text "z", .text "a", .text "b"]]

theorem roundSteps_named : AreNamed roundSteps where
  texts := by simp [roundSteps, Step.naming]
  dependencyKeys := by simp [roundSteps, Step.naming, Step.dependencyList, Json.isKey]

theorem selected_steps_scheduled_once_round :
    ∃ schedule,
      (({ skip := [.text "c"] } : Selection).filter roundSteps >>= Schedule.ofSteps) =
          .ok schedule ∧
        schedule.steps =
          [.naming "b" [.text "a"], .naming "a" [.text "b", .text "z", .text "a", .text "b"]] ∧
        (schedule.steps.map (·.id.key?)).Nodup := by
  obtain ⟨there, once⟩ := selected_steps_scheduled_once { skip := [.text "c"] } roundSteps
  obtain ⟨schedule, made, sound⟩ := there roundSteps_named
    ⟨by simp, by simp [Json.isKey], by simp⟩ (.inl rfl)
  refine ⟨schedule, made, ?_, (once schedule made sound).2.2.1⟩
  have computed : (({ skip := [.text "c"] } : Selection).filter roundSteps >>= Schedule.ofSteps) =
      .ok
        { steps :=
            [.naming "b" [.text "a"], .naming "a" [.text "b", .text "z", .text "a", .text "b"]]
          warnings :=
            ["Dependency cycle between steps a -> b -> a; breaking it at a",
              "Dependency cycle between steps a -> a; breaking it at a"]
          fault := none } := by
    decide +kernel
  cases made.symm.trans computed
  rfl

end Restyle
