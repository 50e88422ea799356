import Restyle.Migration
import Restyle.Proofs.Plan.Building
import Restyle.Proofs.Schedule.Precedence

/-!
# Plans that are built can be put in order

The last two stages of building a plan number its steps and link them.  A link
leads from a replacement to a step that defines a token, and such a step has no
links.  So no chain of links is longer than one, and whatever a selection leaves
of the plan has an order without a cycle.
-/

namespace Restyle

open Relation

variable {violations : List Violation} {violation : Violation} {filters : Filters}
  {strategy : Strategy} {steps linked : List Step} {step early late : Step} {plan : Plan}
  {session ready : Session}

/-! ## Numbers -/

theorem stepId_toList (index : Nat) :
    ∃ zeros, (stepId index).toList =
      "step-".toList ++ (List.replicate zeros '0' ++ Nat.toDigits 10 (index + 1)) := by
  have notNegative : ¬ ((index : Int) + 1 < 0) := by omega
  have size : ((index : Int) + 1).natAbs = index + 1 := by omega
  have digits : (toString (index + 1)).toList = Nat.toDigits 10 (index + 1) :=
    String.toList_ofList
  refine ⟨3 - (toString (index + 1)).length, ?_⟩
  simp only [stepId, if_neg notNegative, size, String.toList_append, String.toList_ofList, digits,
    String.toList_empty, List.append_nil, List.append_assoc]

/-- Different numbers have different identifiers, however long they are. -/
theorem stepId_injective {index other : Nat} (same : stepId index = stepId other) :
    index = other := by
  obtain ⟨zeros, first⟩ := stepId_toList index
  obtain ⟨others, second⟩ := stepId_toList other
  rw [same, second] at first
  have numbers := congrArg digitsValue (List.append_cancel_left first)
  rw [Binary64.digitsValue_zeros, Binary64.digitsValue_zeros, digitsValue_toDigits,
    digitsValue_toDigits] at numbers
  omega

theorem ids_renumberFrom (next : Nat) (steps : List Step) :
    (renumberFrom next steps).map (·.id) =
      (List.range' next steps.length).map fun index : Nat => .text (stepId index) := by
  induction steps generalizing next with
  | nil => rfl
  | cons step steps induction =>
      rw [renumberFrom, List.map_cons, induction, List.length_cons, List.range'_succ, List.map_cons]

theorem mem_renumberFrom {next : Nat} (member : step ∈ renumberFrom next steps) :
    ∃ old ∈ steps, ∃ id, step = { old with id, dependencies := none } := by
  induction steps generalizing next with
  | nil => cases member
  | cons first steps induction =>
      rcases List.mem_cons.mp member with rfl | later
      · exact ⟨first, List.mem_cons_self, _, rfl⟩
      · obtain ⟨old, among, changed⟩ := induction later
        exact ⟨old, List.mem_cons_of_mem _ among, changed⟩

/-! ## Targets -/

/-- Whether a fix looks for a text that is not empty. -/
def FixAction.HasTarget (action : FixAction) : Prop :=
  ∃ text, action.target = .text text ∧ text ≠ ""

namespace Resolution

theorem target_fix {rule : FixableRule} {action : FixAction}
    (made : fix violation rule = .ok action) : ∃ text, action.target = .text text := by
  have mapped : ∀ {transform : List Char → List Char} {value result : Json},
      mapText transform value = .ok result → ∃ text, value = .text text := by
    intro transform value result mapped
    obtain ⟨text, read, _⟩ := bind_eq_ok_iff.mp mapped
    exact ⟨text, Json.asText_eq_ok read⟩
  cases rule with
  | inlineColour =>
      obtain ⟨value, _, made⟩ := bind_eq_ok_iff.mp made
      obtain ⟨_, named, made⟩ := bind_eq_ok_iff.mp made
      cases made
      exact mapped named
  | arbitraryValues =>
      obtain ⟨text, read, made⟩ := bind_eq_ok_iff.mp made
      obtain ⟨_, _, made⟩ := bind_eq_ok_iff.mp made
      cases made
      exact ⟨text, Json.asText_eq_ok read⟩
  | repeatedClasses =>
      obtain ⟨text, read, made⟩ := bind_eq_ok_iff.mp made
      cases made
      show ∃ text, violation.matched = .text text
      cases matched : violation.matched with
      | text value => exact ⟨value, rfl⟩
      | torn codes => exact absurd matched (Json.settled_ne_torn _ codes)
      | _ =>
          rw [matched] at read
          cases read
  | _ =>
      obtain ⟨_, named, made⟩ := bind_eq_ok_iff.mp made
      cases made
      exact mapped named

theorem hasTarget_ofViolation {resolution : Resolution}
    (found : ofViolation violation = .ok (some resolution)) : resolution.action.HasTarget := by
  unfold ofViolation at found
  obtain ⟨key, _, found⟩ := bind_eq_ok_iff.mp found
  split at found
  · cases found
  · obtain ⟨action, made, found⟩ := bind_eq_ok_iff.mp found
    split at found
    · rename_i filled
      obtain ⟨confidence, _, found⟩ := bind_eq_ok_iff.mp found
      cases found
      obtain ⟨text, isText⟩ := target_fix made
      refine ⟨text, isText, ?_⟩
      simpa [isText, Json.isFilled] using filled
    · cases found

end Resolution

theorem mem_stepsFrom {next : Nat} (made : stepsFrom next violations = .ok steps)
    (member : step ∈ steps) :
    ∃ violation ∈ violations, step.file = violation.filePath ∧ step.action.HasTarget := by
  induction violations generalizing next steps with
  | nil =>
      cases made
      cases member
  | cons violation violations induction =>
      rw [stepsFrom] at made
      obtain ⟨resolution, found, made⟩ := bind_eq_ok_iff.mp made
      cases resolution with
      | none =>
          obtain ⟨other, among, holds⟩ := induction made member
          exact ⟨other, List.mem_cons_of_mem _ among, holds⟩
      | some resolution =>
          obtain ⟨first, built, made⟩ := bind_eq_ok_iff.mp made
          obtain ⟨rest, further, made⟩ := bind_eq_ok_iff.mp made
          cases made
          rcases List.mem_cons.mp member with rfl | later
          · obtain ⟨_, _, built⟩ := bind_eq_ok_iff.mp built
            cases built
            exact ⟨violation, List.mem_cons_self, rfl, Resolution.hasTarget_ofViolation found⟩
          · obtain ⟨other, among, holds⟩ := induction further later
            exact ⟨other, List.mem_cons_of_mem _ among, holds⟩

/-! ## Links -/

/-- Whether a step defines a token. -/
def Step.Defines (step : Step) : Prop := ∃ value token, step.action = .tokenize value token

/-- Whether a step replaces a class. -/
def Step.Replaces (step : Step) : Prop := ∃ source replacement, step.action = .replace source replacement

theorem tokenTable_defines {table tokens : Table} (distinct : (table.map Prod.snd).Nodup)
    (apart : (steps.map (·.id)).Nodup) (fresh : ∀ step ∈ steps, step.id ∉ table.map Prod.snd)
    (made : tokenTable table steps = .ok tokens) :
    (tokens.map Prod.snd).Nodup ∧
      ∀ row ∈ tokens, row ∈ table ∨ ∃ step ∈ steps, step.id = row.2 ∧ step.Defines := by
  induction steps generalizing table with
  | nil =>
      cases made
      exact ⟨distinct, fun row member => Or.inl member⟩
  | cons step steps induction =>
      rw [List.map_cons, List.nodup_cons] at apart
      obtain ⟨freshFirst, freshLater⟩ := List.forall_mem_cons.mp fresh
      rw [tokenTable] at made
      split at made
      · rename_i value token action
        obtain ⟨key, _, made⟩ := bind_eq_ok_iff.mp made
        have freshNext : ∀ other ∈ steps, other.id ∉ (table.set key step.id).map Prod.snd := by
          intro other member known
          obtain ⟨row, among, same⟩ := List.mem_map.mp known
          rcases Table.mem_set among with new | old
          · apply apart.1
            rw [← new, same]
            exact List.mem_map_of_mem member
          · exact freshLater other member (same ▸ List.mem_map_of_mem old)
        obtain ⟨nodup, each⟩ :=
          induction (Table.nodup_set distinct freshFirst) apart.2 freshNext made
        refine ⟨nodup, ?_⟩
        intro row member
        rcases each row member with before | ⟨other, among, holds⟩
        · rcases Table.mem_set before with new | old
          · exact Or.inr ⟨step, List.mem_cons_self, new.symm, value, token, action⟩
          · exact Or.inl old
        · exact Or.inr ⟨other, List.mem_cons_of_mem _ among, holds⟩
      · obtain ⟨nodup, each⟩ := induction distinct apart.2 freshLater made
        refine ⟨nodup, ?_⟩
        intro row member
        rcases each row member with before | ⟨other, among, holds⟩
        · exact Or.inl before
        · exact Or.inr ⟨other, List.mem_cons_of_mem _ among, holds⟩

/-- Linking changes a replacement only, and links it to rows of the table. -/
theorem linkStep_eq_ok {tokens : Table} {linked : Step} (made : linkStep tokens step = .ok linked) :
    linked = step ∨ step.Replaces ∧ ∃ rows : Table, rows.Sublist tokens ∧ rows ≠ [] ∧
      linked = { step with dependencies := some (rows.map Prod.snd) } := by
  unfold linkStep at made
  split at made
  · rename_i source replacement action
    obtain ⟨defining, found, made⟩ := bind_eq_ok_iff.mp made
    split at made
    · cases made
      exact Or.inl rfl
    · rename_i some
      cases made
      refine Or.inr ⟨⟨source, replacement, action⟩, defining, ?_, ?_, rfl⟩
      · rw [(filterM_eq_ok.mp found).2]
        exact List.filter_sublist
      · simpa using some
  · cases made
    exact Or.inl rfl

/-! ## Plans -/

/-- The form of the steps of a plan that is built. -/
structure IsLinked (steps : List Step) : Prop where
  numbered : steps.map (·.id) = (List.range steps.length).map fun index : Nat => .text (stepId index)
  targets : ∀ step ∈ steps, step.action.HasTarget
  replaces : ∀ step ∈ steps, step.dependencies ≠ none → step.Replaces
  filled : ∀ step ∈ steps, step.dependencies ≠ some []
  once : ∀ step ∈ steps, step.dependencyList.Nodup
  defined : ∀ step ∈ steps, ∀ id ∈ step.dependencyList, ∃ other ∈ steps, other.id = id ∧ other.Defines

theorem mem_link {next : List Step} (made : link (renumber next) = .ok linked)
    (member : step ∈ linked) : ∃ old ∈ next, step.file = old.file ∧ step.action = old.action := by
  obtain ⟨tokens, _, mapped⟩ := bind_eq_ok_iff.mp made
  obtain ⟨numbered, among, changed⟩ := (mem_of_mapM mapped).2 step member
  obtain ⟨old, there, id, rfl⟩ := mem_renumberFrom among
  refine ⟨old, there, ?_⟩
  rcases linkStep_eq_ok changed with rfl | ⟨_, rows, _, _, rfl⟩ <;> exact ⟨rfl, rfl⟩

theorem link_isLinked {next : List Step} (made : link (renumber next) = .ok linked)
    (targets : ∀ step ∈ next, step.action.HasTarget) : IsLinked linked := by
  obtain ⟨tokens, found, mapped⟩ := bind_eq_ok_iff.mp made
  have ids : (renumber next).map (·.id) =
      (List.range next.length).map fun index : Nat => .text (stepId index) := by
    rw [List.range_eq_range']
    exact ids_renumberFrom 0 next
  have apart : ((renumber next).map (·.id)).Nodup := by
    rw [ids]
    apply List.Nodup.map _ List.nodup_range
    intro index other same
    exact stepId_injective (Json.text.inj same)
  have empty : (([] : Table).map Prod.snd).Nodup := List.nodup_nil
  obtain ⟨nodup, each⟩ := tokenTable_defines empty apart (by simp) found
  have pairs := mapM_eq_ok.mp mapped
  have kept : ∀ old new, linkStep tokens old = .ok new →
      new.id = old.id ∧ new.action = old.action := by
    intro old new made
    rcases linkStep_eq_ok made with rfl | ⟨_, rows, _, _, rfl⟩ <;> exact ⟨rfl, rfl⟩
  have sameIds : linked.map (·.id) = (renumber next).map (·.id) := by
    rw [← List.forall₂_eq_eq_eq, List.forall₂_map_left_iff, List.forall₂_map_right_iff]
    exact pairs.flip.imp fun new old made => (kept old new made).1
  have unlinked : ∀ old ∈ renumber next, old.dependencies = none := by
    intro old member
    obtain ⟨_, _, _, rfl⟩ := mem_renumberFrom member
    rfl
  have origin : ∀ step ∈ linked, ∃ old ∈ renumber next, linkStep tokens old = .ok step :=
    fun step member => (mem_of_mapM mapped).2 step member
  refine ⟨?_, ?_, ?_, ?_, ?_, ?_⟩
  · have sameLength : linked.length = next.length := by
      rw [← pairs.length_eq, renumber, length_renumberFrom]
    rw [sameIds, ids, sameLength]
  · intro step member
    obtain ⟨old, among, _, action⟩ := mem_link made member
    rw [action]
    exact targets old among
  · intro step member some
    obtain ⟨old, among, changed⟩ := origin step member
    rcases linkStep_eq_ok changed with rfl | ⟨replaces, _, _, _, rfl⟩
    · exact absurd (unlinked _ among) some
    · exact replaces
  · intro step member empty
    obtain ⟨old, among, changed⟩ := origin step member
    rcases linkStep_eq_ok changed with rfl | ⟨_, rows, _, filled, rfl⟩
    · rw [unlinked _ among] at empty
      cases empty
    · apply filled
      simpa using empty
  · intro step member
    obtain ⟨old, among, changed⟩ := origin step member
    rcases linkStep_eq_ok changed with rfl | ⟨_, rows, sub, _, rfl⟩
    · rw [Step.dependencyList, unlinked _ among]
      exact List.nodup_nil
    · exact nodup.sublist (sub.map Prod.snd)
  · intro step member id linkedTo
    obtain ⟨old, among, changed⟩ := origin step member
    rcases linkStep_eq_ok changed with rfl | ⟨_, rows, sub, _, rfl⟩
    · rw [Step.dependencyList, unlinked _ among] at linkedTo
      cases linkedTo
    · obtain ⟨row, inRows, rfl⟩ := List.mem_map.mp linkedTo
      rcases each row (sub.subset inRows) with none | ⟨defining, there, same, value, token, action⟩
      · cases none
      · obtain ⟨new, inLinked, made⟩ := (mem_of_mapM mapped).1 defining there
        refine ⟨new, inLinked, ?_, value, token, ?_⟩
        · rw [(kept _ _ made).1, same]
        · rw [(kept _ _ made).2, action]

namespace IsLinked

theorem ids_nodup (isLinked : IsLinked steps) : (steps.map (·.id)).Nodup := by
  rw [isLinked.numbered]
  apply List.Nodup.map _ List.nodup_range
  intro index other same
  exact stepId_injective (Json.text.inj same)

theorem id_text (isLinked : IsLinked steps) (member : step ∈ steps) : ∃ text, step.id = .text text := by
  have among : step.id ∈ steps.map (·.id) := List.mem_map_of_mem member
  rw [isLinked.numbered] at among
  obtain ⟨index, _, same⟩ := List.mem_map.mp among
  exact ⟨_, same.symm⟩

theorem defines_of_needs (isLinked : IsLinked steps) {kept : List Step} (sub : kept.Sublist steps)
    (needs : late.Needs kept.reverse early) : early.Defines := by
  obtain ⟨member, dependency, linkedTo, named⟩ := needs
  obtain ⟨other, among, rfl, defines⟩ :=
    isLinked.defined late (sub.subset (List.mem_reverse.mp member)) dependency linkedTo
  have there : early ∈ steps := sub.subset (List.mem_reverse.mp (stepWith?_mem named))
  have same : early.id = other.id := by
    obtain ⟨left, leftText⟩ := isLinked.id_text there
    obtain ⟨right, rightText⟩ := isLinked.id_text among
    have equal := stepWith?_same named
    rw [leftText, rightText, Table.same_texts, decide_eq_true_eq] at equal
    rw [leftText, rightText, equal]
  have whole : early = other :=
    List.inj_on_of_nodup_map isLinked.ids_nodup there among same
  exact whole ▸ defines

theorem replaces_of_needs (isLinked : IsLinked steps) {kept : List Step} (sub : kept.Sublist steps)
    (needs : late.Needs kept.reverse early) : late.Replaces := by
  obtain ⟨member, dependency, linkedTo, _⟩ := needs
  apply isLinked.replaces late (sub.subset (List.mem_reverse.mp member))
  intro none
  rw [Step.dependencyList, none] at linkedTo
  cases linkedTo

/-- Whatever is taken of such steps can be put in order. -/
theorem orderable (isLinked : IsLinked steps) {kept : List Step} (sub : kept.Sublist steps) :
    Orderable kept where
  keys := by
    intro step member
    obtain ⟨text, isText⟩ := isLinked.id_text (sub.subset member)
    rw [isText]
    rfl
  notNull := by
    intro step member
    obtain ⟨text, isText⟩ := isLinked.id_text (sub.subset member)
    rw [isText]
    nofun
  distinct := by
    have keys : kept.map (·.id.key?) = (kept.map (·.id)).map Json.key? := by rw [List.map_map]; rfl
    rw [keys]
    apply List.Nodup.map_on _ (isLinked.ids_nodup.sublist (sub.map _))
    intro left leftMember right rightMember same
    obtain ⟨first, among, rfl⟩ := List.mem_map.mp leftMember
    obtain ⟨second, there, rfl⟩ := List.mem_map.mp rightMember
    obtain ⟨leftText, leftIs⟩ := isLinked.id_text (sub.subset among)
    obtain ⟨rightText, rightIs⟩ := isLinked.id_text (sub.subset there)
    rw [leftIs, rightIs] at same ⊢
    simpa [Json.key?] using same
  dependencyKeys := by
    intro step member dependency linkedTo
    obtain ⟨other, among, rfl, _⟩ := isLinked.defined step (sub.subset member) dependency linkedTo
    obtain ⟨text, isText⟩ := isLinked.id_text among
    rw [isText]
    rfl
  acyclic := by
    intro step circular
    obtain ⟨before, _, last⟩ := TransGen.tail'_iff.mp circular
    obtain ⟨behind, first, _⟩ := TransGen.head'_iff.mp circular
    obtain ⟨value, token, defines⟩ := isLinked.defines_of_needs sub last
    obtain ⟨source, replacement, replaces⟩ := isLinked.replaces_of_needs sub first
    rw [defines] at replaces
    cases replaces

end IsLinked

theorem draft_isLinked {draft : PlanDraft}
    (made : Plan.draft violations strategy filters = .ok draft) :
    IsLinked draft.steps ∧ ∀ step ∈ draft.steps, ∃ violation ∈ violations,
      step.file = violation.filePath := by
  obtain ⟨filtered, kept, made⟩ := bind_eq_ok_iff.mp made
  obtain ⟨resolved, found, made⟩ := bind_eq_ok_iff.mp made
  obtain ⟨linked, linking, made⟩ := bind_eq_ok_iff.mp made
  cases made
  have gated : ∀ step ∈ gate strategy resolved, step ∈ resolved :=
    fun step member => (List.mem_filter.mp member).1
  constructor
  · apply link_isLinked linking
    intro step member
    obtain ⟨_, _, _, target⟩ := mem_stepsFrom found (gated step member)
    exact target
  · intro step member
    obtain ⟨old, among, file, _⟩ := mem_link linking member
    obtain ⟨violation, there, same, _⟩ := mem_stepsFrom found (gated old among)
    exact ⟨violation, (filterViolations_subperm kept).subset there, file.trans same⟩

theorem buildPlan_steps
    (built : Proposal.buildPlan violations strategy filters session = .ok plan ready) :
    ∃ draft, Plan.draft violations strategy filters = .ok draft ∧ plan.steps = draft.steps := by
  obtain ⟨draft, _, drafted, built⟩ := Activity.bind_eq_ok.mp built
  obtain ⟨_, _, _, built⟩ := Activity.bind_eq_ok.mp built
  obtain ⟨_, _, _, built⟩ := Activity.bind_eq_ok.mp built
  obtain ⟨_, _, _, built⟩ := Activity.bind_eq_ok.mp built
  obtain ⟨rfl, _⟩ := Activity.pure_eq_ok.mp built
  exact ⟨draft, (Activity.value_eq_ok.mp drafted).1, rfl⟩

theorem Orderable.schedule_eq {selection : Selection} {selected : List Step}
    (orderable : Orderable selected) (chosen : selection.filter steps = .ok selected)
    (session : Session) :
    Migration.schedule selection steps session = .ok (order selected) session := by
  have computed : Activity.value (do Schedule.ofSteps (← selection.filter steps)) session =
      .ok { steps := order selected, warnings := [], fault := none } session := by
    rw [Activity.value_eq_ok, chosen]
    exact ⟨orderable.schedule, rfl⟩
  unfold Migration.schedule
  rw [Activity.bind_of_ok computed]
  rfl

/-- The steps of a plan that is built are numbered without gaps and linked only
from replacements to definitions of tokens, and each looks for some text.
Whatever a selection takes of them is scheduled without a warning, and there
every step comes after those that it depends on. -/
theorem built_plan_schedules
    (texts : ∀ violation ∈ violations, ∃ path, violation.filePath = .text path)
    (built : Proposal.buildPlan violations strategy filters session = .ok plan ready) :
    IsLinked plan.steps ∧ (plan.steps.map (·.id)).Nodup ∧
      ∀ selection : Selection, selection.HasKeys → ∀ now : Session,
        ∃ selected scheduled, selection.filter plan.steps = .ok selected ∧
          Migration.schedule selection plan.steps now = .ok scheduled now ∧
          scheduled.Perm selected ∧
          ∀ before late behind, scheduled = before ++ late :: behind →
            ∀ early ∈ scheduled, early.id ∈ late.dependencyList → early ∈ before := by
  obtain ⟨draft, drafted, same⟩ := buildPlan_steps built
  obtain ⟨isLinked, files⟩ := draft_isLinked drafted
  rw [same]
  refine ⟨isLinked, isLinked.ids_nodup, ?_⟩
  intro selection keys now
  have paths : ∀ step ∈ draft.steps, ∃ name, step.file = .text name := by
    intro step member
    obtain ⟨violation, among, file⟩ := files step member
    rw [file]
    exact texts violation among
  obtain ⟨selected, chosen⟩ := Selection.filter_of_keys keys.only keys.skip (Or.inr paths)
    keys.completed (isLinked.orderable (.refl _)).keys
  have orderable := isLinked.orderable (Selection.filter_eq_ok chosen).1
  refine ⟨selected, order selected, chosen, orderable.schedule_eq chosen now,
    orderable.order_perm, ?_⟩
  intro before late behind ordered early member linkedTo
  have among : early ∈ selected := orderable.order_perm.mem_iff.mp member
  apply orderable.precedes ordered
  refine ⟨?_, early.id, linkedTo, ?_⟩
  · apply List.mem_reverse.mpr
    apply orderable.order_perm.mem_iff.mp
    rw [ordered]
    simp
  · exact orderable.stepWith?_eq among (orderable.keys early among)
      (Json.same_self (orderable.keys early among))

/-- A class that refers to a token by its name. -/
def referral : Violation where
  ruleId := .text "north/no-arbitrary-values"
  ruleKey := .text "no-arbitrary-values"
  severity := .error
  message := .text ""
  filePath := .text "f"
  line := 1
  column := 0
  className := .text "p-(--color-fff)"

/-- A colour that becomes that token. -/
def colouring : Violation where
  ruleId := .text "north/no-arbitrary-colors"
  ruleKey := .text "no-arbitrary-colors"
  severity := .error
  message := .text ""
  filePath := .text "f"
  line := 2
  column := 0
  className := .text "bg-[#fff]"

theorem referral_stored :
    storedView [referral, colouring] .aggressive {} ⟨.root, ["p", "plan"]⟩ bareProject
        (fun plan => plan.steps.map fun step => (step.id, step.dependencies)) =
      some [(.text "step-001", some [.text "step-002"]), (.text "step-002", none)] := by
  decide +kernel

theorem built_plan_schedules_referral :
    ∃ plan ready scheduled,
      Proposal.buildPlan [referral, colouring] .aggressive {} bareProject = .ok plan ready ∧
        plan.steps.map (fun step => (step.id, step.dependencies)) =
          [(.text "step-001", some [.text "step-002"]), (.text "step-002", none)] ∧
        Migration.schedule {} plan.steps ready = .ok scheduled ready ∧
        scheduled.Perm plan.steps ∧
        ∀ before late behind, scheduled = before ++ late :: behind →
          ∀ early ∈ scheduled, early.id ∈ late.dependencyList → early ∈ before := by
  obtain ⟨plan, ready, _, built, _, seen⟩ := storedView_eq_some referral_stored
  have texts : ∀ violation ∈ [referral, colouring], ∃ path, violation.filePath = .text path := by
    intro violation member
    refine ⟨"f", ?_⟩
    rcases List.mem_cons.mp member with rfl | later
    · rfl
    · rw [List.mem_singleton.mp later]
      rfl
  have keys : Selection.HasKeys {} := ⟨nofun, nofun, nofun⟩
  obtain ⟨_, _, schedules⟩ := built_plan_schedules texts built
  obtain ⟨selected, scheduled, chosen, done, perm, precedes⟩ := schedules {} keys ready
  cases chosen
  exact ⟨plan, ready, scheduled, built, seen, done, perm, precedes⟩

end Restyle
