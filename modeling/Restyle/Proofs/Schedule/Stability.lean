import Restyle.Proofs.Schedule.Cycles

/-!
# What keeps its place

All that a walk comes to from a root is heeded by the root, directly or through
other steps.  So a step comes before one that is listed earlier only if a step
listed no later than that one needs it.  A list in which dependencies come first
is therefore in order already, and without cycles an order stays as it is when it
is put in order again.
-/

namespace Restyle

open Relation

variable {latest steps : List Step} {id dependency : Json} {step early late root : Step}

theorem Step.heeds_of_named (member : late ∈ latest) (heeded : dependency ∈ late.heeded latest)
    (isKey : dependency.isKey = true) (named : stepWith? dependency latest = some early) :
    late.Heeds latest early := by
  have equal := stepWith?_same named
  have earlyKey := Json.isKey_of_same isKey equal
  refine ⟨member, stepWith?_mem named, List.any_eq_true.mpr ⟨dependency, heeded, ?_⟩⟩
  exact (Json.same_iff earlyKey).mpr ((Json.same_iff isKey).mp equal).symm

/-- What a step heeds does not hang on the order of the list. -/
theorem Step.heeds_of_perm {others : List Step} (perm : others.Perm steps) :
    Step.Heeds others = Step.Heeds steps := by
  funext late early
  simp only [Step.Heeds, Step.heeded, perm.mem_iff]

theorem Step.dependsOn_of_perm {others : List Step} (perm : others.Perm steps) :
    Step.DependsOn others = Step.DependsOn steps := by
  funext late early
  simp only [Step.DependsOn, perm.mem_iff]

namespace Walk

variable {walk last : Walk} {visit : Visit} {outer : List Visit} {pending known : List Json}
  {roots : List Step}

/-- A visit of a step that a root heeds.  No null that ends the dependencies has
been passed over. -/
def IsHeeded (latest : List Step) (root : Step) (visit : Visit) : Prop :=
  ∃ step seen, stepWith? visit.id latest = some step ∧
    ReflTransGen (Step.Heeds latest) root step ∧
      step.dependencyList = seen ++ visit.pending ∧
        ((stepWith? .null latest).isSome = true → .null ∉ seen)

namespace IsHeeded

theorem enter (found : stepWith? id latest = some step)
    (leads : ReflTransGen (Step.Heeds latest) root step) :
    IsHeeded latest root (.enter latest id) := by
  refine ⟨step, [], found, leads, ?_, fun _ => List.not_mem_nil⟩
  simp [Visit.enter, found]

theorem goesOn (heeded : IsHeeded latest root visit) (pends : visit.pending = dependency :: pending)
    (passes : dependency = .null → (stepWith? .null latest).isSome = false) :
    IsHeeded latest root { visit with pending } := by
  obtain ⟨step, seen, found, leads, listed, noNull⟩ := heeded
  refine ⟨step, seen ++ [dependency], found, leads, ?_, ?_⟩
  · rw [listed, pends, List.append_assoc]
    rfl
  · intro isStep member
    rcases List.mem_append.mp member with old | new
    · exact noNull isStep old
    · rw [passes (List.mem_singleton.mp new).symm] at isStep
      cases isStep

theorem leads (heeded : IsHeeded latest root visit) (pends : visit.pending = dependency :: pending)
    (isKey : dependency.isKey = true) (notNull : dependency ≠ .null)
    (named : stepWith? dependency latest = some early) :
    ReflTransGen (Step.Heeds latest) root early := by
  obtain ⟨step, seen, found, leads, listed, noNull⟩ := heeded
  refine leads.tail (Step.heeds_of_named (stepWith?_mem found) ?_ isKey named)
  unfold Step.heeded
  split
  · rename_i hidden
    obtain ⟨other, member, isNull⟩ := hidden
    have isStep : (stepWith? .null latest).isSome = true :=
      stepWith?_isSome member (by rw [isNull]; rfl)
    rw [listed, pends, List.takeWhile_append_of_pos, List.takeWhile_cons_of_pos]
    · simp
    · simpa using notNull
    · intro other member
      have differs : other ≠ .null := fun same => noNull isStep (same ▸ member)
      simpa using differs
  · rw [listed, pends]
    simp

end IsHeeded

/-- What a walk from a root keeps: the root heeds what is visited, and all that is
done since. -/
structure Serves (latest : List Step) (root : Step) (known : List Json) (walk : Walk) : Prop where
  path : ∀ visit ∈ walk.path, IsHeeded latest root visit
  done : ∀ id ∈ walk.done, id ∈ known ∨
    ∃ step, stepWith? id latest = some step ∧ ReflTransGen (Step.Heeds latest) root step

namespace Serves

theorem innermost (serves : Serves latest root known walk) (path : walk.path = visit :: outer) :
    IsHeeded latest root visit ∧ ∀ other ∈ outer, IsHeeded latest root other := by
  have heeded := serves.path
  rw [path] at heeded
  exact List.forall_mem_cons.mp heeded

theorem leave (serves : Serves latest root known walk) (path : walk.path = visit :: outer) :
    Serves latest root known { walk with path := outer, done := walk.done ++ [visit.id] } where
  path := (serves.innermost path).2
  done := by
    intro id member
    rcases List.mem_append.mp member with old | new
    · exact serves.done id old
    · obtain ⟨step, _, found, leads, _⟩ := (serves.innermost path).1
      rw [List.mem_singleton.mp new]
      exact Or.inr ⟨step, found, leads⟩

/-- An advance keeps what the root heeds.  A null that is the identifier of a step
is looked at apart, because among the advances that pass over a dependency are
some that no walk makes. -/
theorem advance (serves : Serves latest root known walk) (busy : walk.path ≠ []) :
    Serves latest root known (walk.advance latest) := by
  obtain ⟨visit, outer, path⟩ := List.exists_cons_of_ne_nil busy
  obtain ⟨heeded, others⟩ := serves.innermost path
  by_cases ends : (∃ pending, visit.pending = .null :: pending) ∧
      (stepWith? .null latest).isSome = true
  · obtain ⟨⟨pending, null⟩, isStep⟩ := ends
    obtain ⟨step, found⟩ := Option.isSome_iff_exists.mp isStep
    have left : walk.advance latest = walk.leave visit outer := by
      simp [Walk.advance, path, null, found, Json.isKey]
    rw [left]
    exact serves.leave path
  · have passes : ∀ {dependency pending}, visit.pending = dependency :: pending →
        dependency = .null → (stepWith? .null latest).isSome = false := by
      intro dependency pending pends isNull
      exact Bool.not_eq_true _ ▸ fun isStep => ends ⟨⟨pending, isNull ▸ pends⟩, isStep⟩
    have moves : Advances latest walk (walk.advance latest) := advances busy
    generalize walk.advance latest = next at moves
    cases moves with
    | leave here _ => exact serves.leave here
    | pass here pends _ _ =>
        cases path.symm.trans here
        exact ⟨List.forall_mem_cons.mpr ⟨heeded.goesOn pends (passes pends), others⟩, serves.done⟩
    | close here pends _ _ _ _ _ =>
        cases path.symm.trans here
        exact ⟨List.forall_mem_cons.mpr ⟨heeded.goesOn pends (passes pends), others⟩, serves.done⟩
    | enter here pends isKey isStep notNull _ _ =>
        cases path.symm.trans here
        obtain ⟨step, found⟩ := Option.isSome_iff_exists.mp isStep
        have entered := IsHeeded.enter found (heeded.leads pends isKey notNull found)
        refine ⟨List.forall_mem_cons.mpr ⟨entered, ?_⟩, serves.done⟩
        exact List.forall_mem_cons.mpr ⟨heeded.goesOn pends (passes pends), others⟩
    | stop fault => exact ⟨List.forall_mem_nil _, serves.done⟩

end Serves

theorem Reaches.serves (reaches : Reaches latest walk last)
    (serves : Serves latest root known walk) : Serves latest root known last := by
  induction reaches with
  | refl => exact serves
  | advance busy _ induction => exact induction (serves.advance busy)

theorem Visits.serves (visits : Visits latest roots walk last)
    (found : ∀ root ∈ roots, stepWith? root.id latest = some root) :
    ∀ id ∈ last.done, id ∈ walk.done ∨ ∃ root ∈ roots, ∃ step,
      stepWith? id latest = some step ∧ ReflTransGen (Step.Heeds latest) root step := by
  induction visits with
  | nil => exact fun id member => Or.inl member
  | known _ _ induction =>
      intro id member
      rcases induction (fun other among => found other (List.mem_cons_of_mem _ among)) id member with
        old | ⟨root, among, heeded⟩
      · exact Or.inl old
      · exact Or.inr ⟨root, List.mem_cons_of_mem _ among, heeded⟩
  | @fresh root roots walk next last _ walked _ _ induction =>
      intro id member
      rcases induction (fun other among => found other (List.mem_cons_of_mem _ among)) id member with
        old | ⟨root, among, heeded⟩
      · have start : Serves latest root walk.done { walk with path := [.enter latest root.id] } := by
          refine ⟨?_, fun id old => Or.inl old⟩
          intro visit here
          rw [List.mem_singleton.mp here]
          exact .enter (found root List.mem_cons_self) .refl
        exact ((walked.serves start).done id old).imp_right
          fun heeded => ⟨root, List.mem_cons_self, heeded⟩
      · exact Or.inr ⟨root, List.mem_cons_of_mem _ among, heeded⟩

/-- The walks from roots are those from the first of them, then those from the
others. -/
theorem Visits.split {first second : List Step} (visits : Visits latest (first ++ second) walk last) :
    ∃ between, Visits latest first walk between ∧ Visits latest second between last := by
  induction first generalizing walk with
  | nil => exact ⟨walk, .nil, visits⟩
  | cons root first induction =>
      cases visits with
      | known done later =>
          obtain ⟨between, before, after⟩ := induction later
          exact ⟨between, .known done before, after⟩
      | fresh undone walked ended later =>
          obtain ⟨between, before, after⟩ := induction later
          exact ⟨between, .fresh undone walked ended before, after⟩

end Walk

/-! ## Places in a list -/

section
variable {α : Type} [DecidableEq α] {values first : List α} {before after : α}

/-- Without repetition one value precedes another exactly if its position does. -/
theorem idxOf_lt_iff_sublist (distinct : values.Nodup) (member : after ∈ values) :
    values.idxOf before < values.idxOf after ↔ [before, after].Sublist values := by
  induction values with
  | nil => cases member
  | cons value values induction =>
      obtain ⟨fresh, distinct⟩ := List.nodup_cons.mp distinct
      rw [List.sublist_cons_iff]
      rcases List.mem_cons.mp member with rfl | later
      · have apart : ¬ [before, after].Sublist values := fun sub => fresh (sub.subset (by simp))
        have last : ¬ [after].Sublist values := fun sub => fresh (List.singleton_sublist.mp sub)
        simp [apart, last]
      · have other : value ≠ after := fun same => fresh (same ▸ later)
        rw [List.idxOf_cons_ne _ other]
        by_cases here : value = before
        · subst here
          simp [later]
        · rw [List.idxOf_cons_ne _ here, Nat.succ_lt_succ_iff, induction distinct later]
          simp [Ne.symm here]

/-- Without repetition, what precedes a value of the first part is in the first
part too. -/
theorem mem_of_precedes (part : first <+: values) (distinct : values.Nodup) (member : after ∈ first)
    (precedes : [before, after].Sublist values) : before ∈ first := by
  obtain ⟨rest, rfl⟩ := part
  have position := (idxOf_lt_iff_sublist distinct (List.mem_append_left _ member)).mpr precedes
  rw [List.idxOf_append_of_mem member] at position
  by_contra outside
  rw [List.idxOf_append_of_notMem outside] at position
  have within := List.idxOf_lt_length_of_mem member
  omega

end

/-- Where one step comes before another whenever it is in a relation with it, that
is so along paths. -/
theorem idxOf_lt_of_path {relation : Step → Step → Prop} (distinct : steps.Nodup)
    (first : ∀ late early, relation late early → [early, late].Sublist steps)
    (path : TransGen relation late early) : steps.idxOf early < steps.idxOf late := by
  have direct : ∀ {late early}, relation late early → steps.idxOf early < steps.idxOf late := by
    intro late early related
    have precedes := first late early related
    exact (idxOf_lt_iff_sublist distinct (precedes.subset (by simp))).mpr precedes
  induction path with
  | single related => exact direct related
  | tail _ related induction => exact (direct related).trans induction

namespace AreDistinct

/-- A step comes before another that is listed first only if a step listed no later
than that one heeds it, directly or through other steps. -/
theorem forced (areDistinct : AreDistinct steps) (sound : (walkSteps steps).fault = none)
    (listed : [early, late].Sublist steps) (turned : [late, early].Sublist (order steps)) :
    ∃ root, (root = early ∨ [root, early].Sublist steps) ∧
      TransGen (Step.Heeds steps) root late := by
  obtain ⟨start, rest, split, inStart, inRest⟩ := List.cons_sublist_iff.mp listed
  obtain ⟨before, between, rfl⟩ := List.append_of_mem inStart
  have whole : steps = (before ++ [early]) ++ (between ++ rest) := by simp [split]
  have member : ∀ {other}, other ∈ before ++ [early] → other ∈ steps := by
    intro other among
    rw [whole]
    exact List.mem_append_left _ among
  have distinct : steps.Nodup := areDistinct.distinct.of_map
  have visits : Walk.Visits steps.reverse ((before ++ [early]) ++ (between ++ rest)) {}
      (walkSteps steps) := by
    rw [← whole]
    exact walkSteps_visits areDistinct.keys sound
  obtain ⟨middle, first, second⟩ := visits.split
  have part : middle.stepsDone steps.reverse <+: order steps :=
    (second.order sound).filterMap _
  have earlyDone : early ∈ middle.stepsDone steps.reverse := by
    have listedEarly : early ∈ before ++ [early] := by simp
    have early_keys : ∀ root ∈ before ++ [early], root.id.isKey = true :=
      fun root among => areDistinct.keys root (member among)
    obtain ⟨id, among, equal⟩ := List.any_eq_true.mp
      (first.done_roots (second.sound sound) early_keys early listedEarly)
    refine List.mem_filterMap.mpr ⟨id, among, ?_⟩
    have isKey := early_keys early listedEarly
    rw [← stepWith?_congr isKey ((Json.same_iff isKey).mp equal)]
    exact areDistinct.stepWith?_id (member listedEarly)
  have orderDistinct : (order steps).Nodup :=
    (areDistinct.order_perm sound).nodup_iff.mpr distinct
  obtain ⟨id, done, found⟩ :=
    List.mem_filterMap.mp (mem_of_precedes part orderDistinct earlyDone turned)
  have rootsFound : ∀ root ∈ before ++ [early], stepWith? root.id steps.reverse = some root :=
    fun root among => areDistinct.stepWith?_id (member among)
  rcases first.serves rootsFound id done with none | ⟨root, among, step, same, leads⟩
  · cases none
  cases found.symm.trans same
  rw [Step.heeds_of_perm (List.reverse_perm steps)] at leads
  have apart : late ≠ root := by
    rintro rfl
    rw [whole] at distinct
    exact (List.nodup_append.mp distinct).2.2 late among late
      (List.mem_append_right _ (List.singleton_sublist.mp inRest)) rfl
  refine ⟨root, ?_, (reflTransGen_iff_eq_or_transGen.mp leads).resolve_left apart⟩
  rcases List.mem_append.mp among with earlier | same
  · right
    rw [split]
    exact ((List.singleton_sublist.mpr earlier).append
      (List.singleton_sublist.mpr List.mem_cons_self)).trans (List.sublist_append_left _ _)
  · exact Or.inl (List.mem_singleton.mp same)

theorem order_eq_self (areDistinct : AreDistinct steps) (sound : (walkSteps steps).fault = none)
    (first : ∀ late early, late.Heeds steps early → [early, late].Sublist steps) :
    order steps = steps := by
  have distinct : steps.Nodup := areDistinct.distinct.of_map
  have perm := areDistinct.order_perm sound
  have inOrder : (order steps).Pairwise fun early late => steps.idxOf early ≤ steps.idxOf late := by
    apply List.pairwise_iff_forall_sublist.mpr
    intro early late turned
    by_contra listed
    have member : early ∈ steps := perm.mem_iff.mp (turned.subset List.mem_cons_self)
    have before := (idxOf_lt_iff_sublist distinct member).mp (Nat.not_le.mp listed)
    obtain ⟨root, same | earlier, path⟩ := areDistinct.forced sound before turned
    · have place := idxOf_lt_of_path distinct first path
      rw [same] at place
      omega
    · have place := idxOf_lt_of_path distinct first path
      have upTo := (idxOf_lt_iff_sublist distinct (before.subset List.mem_cons_self)).mpr earlier
      omega
  have listed : steps.Pairwise fun early late => steps.idxOf early ≤ steps.idxOf late := by
    apply List.pairwise_iff_forall_sublist.mpr
    intro early late before
    exact ((idxOf_lt_iff_sublist distinct (before.subset (by simp))).mpr before).le
  refine perm.eq_of_pairwise ?_ inOrder listed
  intro early late member _ before after
  exact (List.idxOf_inj (perm.mem_iff.mp member)).mp (before.antisymm after)

theorem of_perm {others : List Step} (areDistinct : AreDistinct steps) (perm : others.Perm steps) :
    AreDistinct others where
  keys := fun step member => areDistinct.keys step (perm.mem_iff.mp member)
  distinct := (perm.map _).nodup_iff.mpr areDistinct.distinct

end AreDistinct

/-- An order keeps the places of the list as far as dependencies allow.  A step comes
before another that is listed first only if a step listed no later than that one
depends on it.  A list in which each dependency is listed before its dependent is
left as it is, and where no step depends on itself an order is left as it is. -/
theorem schedule_keeps_places (areDistinct : AreDistinct steps) :
    ∃ schedule, Schedule.ofSteps steps = .ok schedule ∧
      (AreNamed steps → schedule.fault = none) ∧
      (schedule.fault = none → ∀ early late,
        [early, late].Sublist steps → [late, early].Sublist schedule.steps →
          ∃ root, (root = early ∨ [root, early].Sublist steps) ∧
            TransGen (Step.DependsOn steps) root late) ∧
      ((∀ step ∈ steps, ∀ dependency ∈ step.dependencyList, dependency.isKey = true) →
        ((∀ late early, late.DependsOn steps early → [early, late].Sublist steps) →
          schedule.fault = none ∧ schedule.steps = steps) ∧
        ((∀ step, ¬ TransGen (Step.DependsOn steps) step step) →
          schedule.fault = none ∧ Schedule.ofSteps schedule.steps = .ok schedule)) := by
  refine ⟨_, Schedule.ofSteps_of_keys areDistinct.keys, AreNamed.sound, ?_, ?_⟩
  · intro sound early late listed turned
    obtain ⟨root, place, path⟩ := areDistinct.forced sound listed turned
    exact ⟨root, place, TransGen.mono (fun _ _ => Step.Heeds.dependsOn) _ _ path⟩
  intro dependencyKeys
  constructor
  · intro first
    have sound : (walkSteps steps).fault = none := by
      apply areDistinct.sound_of_acyclic dependencyKeys
      intro step around
      exact Nat.lt_irrefl _ (idxOf_lt_of_path areDistinct.distinct.of_map first around)
    exact ⟨sound, areDistinct.order_eq_self sound fun late early heeds =>
      first late early heeds.dependsOn⟩
  · intro acyclic
    have sound := areDistinct.sound_of_acyclic dependencyKeys acyclic
    have perm := areDistinct.order_perm sound
    have orderDistinct := areDistinct.of_perm perm
    have orderAcyclic : ∀ step, ¬ TransGen (Step.DependsOn (order steps)) step step := by
      rw [Step.dependsOn_of_perm perm]
      exact acyclic
    have orderSound : (walkSteps (order steps)).fault = none := by
      refine orderDistinct.sound_of_acyclic ?_ orderAcyclic
      exact fun step member => dependencyKeys step (perm.mem_iff.mp member)
    have again : order (order steps) = order steps := by
      apply orderDistinct.order_eq_self orderSound
      rw [Step.heeds_of_perm perm]
      intro late early heeds
      apply (areDistinct.precedes sound heeds).resolve_right
      exact fun reported => reported.1 (areDistinct.no_cycles acyclic)
    refine ⟨sound, ?_⟩
    rw [Schedule.ofSteps_of_keys orderDistinct.keys]
    rw [again, orderDistinct.no_cycles orderAcyclic, areDistinct.no_cycles acyclic, orderSound,
      sound]

/-- Four steps without cycles, the first of which has to wait. -/
def waitingSteps : List Step :=
  [.naming "a" [.text "c"], .naming "b" [], .naming "c" [.text "d", .text "z"], .naming "d" []]

theorem schedule_keeps_places_waiting :
    ∃ schedule, Schedule.ofSteps waitingSteps = .ok schedule ∧
      schedule.steps = [.naming "d" [], .naming "c" [.text "d", .text "z"],
        .naming "a" [.text "c"], .naming "b" []] ∧
      (∃ root, (root = .naming "b" [] ∨ [root, .naming "b" []].Sublist waitingSteps) ∧
        TransGen (Step.DependsOn waitingSteps) root (.naming "d" [])) ∧
      Schedule.ofSteps schedule.steps = .ok schedule := by
  have texts : ∀ step ∈ waitingSteps, ∃ name, step.id = .text name := by
    simp [waitingSteps, Step.naming]
  have dependencyKeys : ∀ step ∈ waitingSteps, ∀ dependency ∈ step.dependencyList,
      dependency.isKey = true := by
    simp [waitingSteps, Step.naming, Step.dependencyList, Json.isKey]
  have areDistinct : AreDistinct waitingSteps :=
    AreDistinct.of_texts texts (by simp [waitingSteps, Step.naming])
  obtain ⟨schedule, made, sound, forced, keeps⟩ := schedule_keeps_places areDistinct
  have faultless := sound ⟨texts, dependencyKeys⟩
  have computed : Schedule.ofSteps waitingSteps =
      .ok { steps := [.naming "d" [], .naming "c" [.text "d", .text "z"],
              .naming "a" [.text "c"], .naming "b" []]
            warnings := []
            fault := none } := by
    decide +kernel
  cases made.symm.trans computed
  have unwarned : Unwarned waitingSteps :=
    ⟨areDistinct, notNull_of_texts texts, by decide +kernel, by decide +kernel⟩
  refine ⟨_, made, rfl, ?_, ((keeps dependencyKeys).2 unwarned.acyclic).2⟩
  exact forced faultless (.naming "b" []) (.naming "d" []) (by decide +kernel) (by decide +kernel)

end Restyle
