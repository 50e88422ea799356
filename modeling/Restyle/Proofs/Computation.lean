import Mathlib.Data.List.Forall2

/-!
# Computations that may fail

When sequences of computations, mapped and filtered lists succeed, and with what sort of
failures they fail.
-/

namespace Restyle

variable {α β ε : Type} {test : α → Except ε Bool}

theorem bind_eq_ok_iff {first : Except ε α} {next : α → Except ε β} {result : β} :
    first >>= next = .ok result ↔ ∃ value, first = .ok value ∧ next value = .ok result := by
  cases first with
  | error failure =>
      constructor
      · rintro ⟨⟩
      · rintro ⟨_, found, _⟩
        cases found
  | ok value =>
      constructor
      · exact fun rest => ⟨value, rfl, rest⟩
      · rintro ⟨_, ⟨⟩, rest⟩
        exact rest

theorem bind_eq_error_iff {first : Except ε α} {next : α → Except ε β} {failure : ε} :
    first >>= next = .error failure ↔
      first = .error failure ∨ ∃ value, first = .ok value ∧ next value = .error failure := by
  cases first with
  | error other =>
      constructor
      · rintro ⟨⟩
        exact Or.inl rfl
      · rintro (⟨⟨⟩⟩ | ⟨_, found, _⟩)
        · rfl
        · cases found
  | ok value =>
      constructor
      · exact fun rest => Or.inr ⟨value, rfl, rest⟩
      · rintro (found | ⟨_, ⟨⟩, rest⟩)
        · cases found
        · exact rest

theorem eq_ok_of_toOption {outcome : Except ε α} {value : α}
    (left : outcome.toOption = some value) : outcome = .ok value := by
  cases outcome with
  | error failure => cases left
  | ok found => exact congrArg Except.ok (Option.some.inj left)

/-- Whether a test says yes. -/
def accepted (test : α → Except ε Bool) (value : α) : Bool :=
  match test value with
  | .ok answer => answer
  | .error _ => false

theorem filterAuxM_eq_ok {values known kept : List α} :
    List.filterAuxM test values known = .ok kept ↔
      (∀ value ∈ values, test value = .ok (accepted test value)) ∧
        kept = (values.filter (accepted test)).reverse ++ known := by
  induction values generalizing known with
  | nil =>
      simp only [List.filterAuxM, List.not_mem_nil, false_implies, implies_true, true_and,
        List.filter_nil, List.reverse_nil, List.nil_append]
      exact ⟨fun result => (Except.ok.inj result).symm, fun same => same ▸ rfl⟩
  | cons value values induction =>
      rw [List.filterAuxM, List.forall_mem_cons]
      cases tested : test value with
      | error failure =>
          have differs : ¬(Except.error failure = Except.ok (accepted test value)) := by simp
          simp only [differs, false_and, iff_false]
          rintro ⟨⟩
      | ok answer =>
          have accepts : accepted test value = answer := by rw [accepted, tested]
          show List.filterAuxM test values (bif answer then value :: known else known) = _ ↔ _
          rw [induction, accepts]
          cases answer <;> simp [accepts]

theorem filterM_eq_ok {values kept : List α} :
    values.filterM test = .ok kept ↔
      (∀ value ∈ values, test value = .ok (accepted test value)) ∧
        kept = values.filter (accepted test) := by
  have filters := @filterAuxM_eq_ok _ _ test values []
  rw [List.filterM]
  cases filtered : List.filterAuxM test values [] with
  | error failure =>
      constructor
      · rintro ⟨⟩
      · rintro ⟨tests, _⟩
        have := filtered.symm.trans (filters.mpr ⟨tests, rfl⟩)
        cases this
  | ok reversed =>
      obtain ⟨tests, rfl⟩ := filters.mp filtered
      constructor
      · intro result
        cases result
        exact ⟨tests, by simp⟩
      · rintro ⟨_, rfl⟩
        show Except.ok _ = _
        simp

theorem filterM_of_answers {answer : α → Bool} {values : List α}
    (tests : ∀ value ∈ values, test value = .ok (answer value)) :
    values.filterM test = .ok (values.filter answer) := by
  have answers : ∀ value ∈ values, accepted test value = answer value := by
    intro value member
    rw [accepted, tests value member]
  refine filterM_eq_ok.mpr ⟨fun value member => ?_, (List.filter_congr answers).symm⟩
  rw [answers value member]
  exact tests value member

theorem mapM_eq_ok {function : α → Except ε β} {values : List α} {results : List β} :
    values.mapM function = .ok results ↔
      List.Forall₂ (fun value result => function value = .ok result) values results := by
  induction values generalizing results with
  | nil =>
      rw [List.mapM_nil, List.forall₂_nil_left_iff]
      exact ⟨fun result => (Except.ok.inj result).symm, fun same => same ▸ rfl⟩
  | cons value values induction =>
      rw [List.mapM_cons, List.forall₂_cons_left_iff]
      cases applied : function value with
      | error failure =>
          constructor
          · rintro ⟨⟩
          · rintro ⟨_, _, found, _⟩
            cases found
      | ok result =>
          cases mapped : values.mapM function with
          | error failure =>
              constructor
              · rintro ⟨⟩
              · rintro ⟨_, others, _, rest, _⟩
                have := mapped.symm.trans (induction.mpr rest)
                cases this
          | ok others =>
              have rest := induction.mp mapped
              constructor
              · rintro ⟨⟩
                exact ⟨result, others, rfl, rest, rfl⟩
              · rintro ⟨_, found, ⟨⟩, again, rfl⟩
                have same := mapped.symm.trans (induction.mpr again)
                cases same
                rfl

theorem mapM_of_answers {function : α → Except ε β} {answer : α → β} {values : List α}
    (applied : ∀ value ∈ values, function value = .ok (answer value)) :
    values.mapM function = .ok (values.map answer) := by
  rw [mapM_eq_ok, List.forall₂_map_right_iff, List.forall₂_same]
  exact applied

theorem mem_of_mapM {function : α → Except ε β} {values : List α} {results : List β}
    (mapped : values.mapM function = .ok results) :
    (∀ value ∈ values, ∃ result ∈ results, function value = .ok result) ∧
      ∀ result ∈ results, ∃ value ∈ values, function value = .ok result := by
  have pairs := mapM_eq_ok.mp mapped
  induction pairs with
  | nil => simp
  | cons first rest induction =>
      obtain ⟨forward, backward⟩ := induction (mapM_eq_ok.mpr rest)
      constructor
      · rintro value member
        rcases List.mem_cons.mp member with rfl | later
        · exact ⟨_, List.mem_cons_self, first⟩
        · obtain ⟨result, found, applied⟩ := forward value later
          exact ⟨result, List.mem_cons_of_mem _ found, applied⟩
      · rintro result member
        rcases List.mem_cons.mp member with rfl | later
        · exact ⟨_, List.mem_cons_self, first⟩
        · obtain ⟨value, found, applied⟩ := backward result later
          exact ⟨value, List.mem_cons_of_mem _ found, applied⟩

theorem exists_error_of_mapM {function : α → Except ε β} {values : List α} {failure : ε}
    (failed : values.mapM function = .error failure) :
    ∃ value ∈ values, function value = .error failure := by
  induction values with
  | nil => cases failed
  | cons value values induction =>
      rw [List.mapM_cons, bind_eq_error_iff] at failed
      rcases failed with here | ⟨_, _, later⟩
      · exact ⟨value, List.mem_cons_self, here⟩
      · rcases bind_eq_error_iff.mp later with rest | ⟨_, _, ⟨⟩⟩
        obtain ⟨other, member, fails⟩ := induction rest
        exact ⟨other, List.mem_cons_of_mem _ member, fails⟩

/-! ## Sorts of failures -/

/-- Whether a computation fails with failures of some sort only. -/
def FailsAs (sort : ε → Prop) (outcome : Except ε α) : Prop :=
  ∀ failure, outcome = .error failure → sort failure

namespace FailsAs

variable {sort wider : ε → Prop}

theorem ok (value : α) : FailsAs sort (.ok value) := nofun

theorem error {failure : ε} (holds : sort failure) :
    FailsAs sort (.error failure : Except ε α) := by
  rintro _ ⟨⟩
  exact holds

theorem mono {outcome : Except ε α} (fails : FailsAs sort outcome)
    (within : ∀ failure, sort failure → wider failure) : FailsAs wider outcome :=
  fun failure failed => within failure (fails failure failed)

theorem bind {first : Except ε α} {next : α → Except ε β} (fails : FailsAs sort first)
    (later : ∀ value, first = .ok value → FailsAs sort (next value)) :
    FailsAs sort (first >>= next) := by
  intro failure failed
  rcases bind_eq_error_iff.mp failed with here | ⟨value, found, rest⟩
  · exact fails failure here
  · exact later value found failure rest

theorem mapM {function : α → Except ε β} {values : List α}
    (each : ∀ value ∈ values, FailsAs sort (function value)) :
    FailsAs sort (values.mapM function) := by
  intro failure failed
  obtain ⟨value, member, here⟩ := exists_error_of_mapM failed
  exact each value member failure here

end FailsAs

end Restyle
