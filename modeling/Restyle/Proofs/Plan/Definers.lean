import Restyle.Proofs.Plan.Nesting

/-!
# Links to the steps that define tokens

Two passes make the links of a list of steps.  The first one keeps for every token
the last step that defines it, where the token was first met.  The second one looks
up which of these tokens a replacement names.
-/

namespace Restyle

variable {steps seen : List Step} {step old : Step} {token other : String} {value : Json}

/-! ## Tokens that steps define and name -/

/-- Whether a step defines a token. -/
def Step.defines (token : String) (step : Step) : Bool :=
  match step.action with
  | .tokenize _ name => name = .text token
  | _ => false

/-- Whether a step puts in a text in which a token occurs. -/
def Step.names (token : String) (step : Step) : Bool :=
  match step.action with
  | .replace _ (.text replacement) => Text.occursIn token.toList replacement.toList
  | _ => false

theorem Step.eq_of_defines (first : step.defines token = true)
    (second : step.defines other = true) : token = other := by
  unfold defines at first second
  split at first
  · rename_i name action
    simp only [action, decide_eq_true_eq] at second
    exact Json.text.inj ((of_decide_eq_true first).symm.trans second)
  · cases first

/-- What linking makes of one of some steps. -/
structure IsLink (steps : List Step) (old new : Step) : Prop where
  kept : new = { old with dependencies := new.dependencies }
  /-- A step that names no token that is defined stays as it was. -/
  unlinked : (∀ early ∈ steps, ∀ token, early.defines token → ¬ old.names token) → new = old
  /-- A step that names one is linked to the last definer of each token it names,
  in the order in which the tokens were first defined. -/
  linked : (∃ early ∈ steps, ∃ token, early.defines token ∧ old.names token) →
    ∃ definers : List (String × Step),
      new.dependencies = some (definers.map (·.2.id)) ∧ (definers.map (·.2.id)).Nodup ∧
        (∀ token early, (token, early) ∈ definers ↔
          steps.findRev? (Step.defines token) = some early ∧ old.names token) ∧
        (definers.map Prod.fst).Pairwise fun token later =>
          steps.findIdx (Step.defines token) < steps.findIdx (Step.defines later)

/-! ## The last step that defines each token -/

/-- The row of a token in the table. -/
def definerRow (definer : String × Step) : Json × Json := (.text definer.1, definer.2.id)

def setDefiner (token : String) (step : Step) : List (String × Step) → List (String × Step)
  | [] => [(token, step)]
  | (name, early) :: definers =>
      if name = token then (name, step) :: definers
      else (name, early) :: setDefiner token step definers

section Definers

variable {definers : List (String × Step)} {early : Step}

theorem set_definerRow (definers : List (String × Step)) :
    Table.set (.text token) step.id (definers.map definerRow) =
      (setDefiner token step definers).map definerRow := by
  induction definers with
  | nil => rfl
  | cons definer definers induction =>
      rw [List.map_cons, definerRow, Table.set, Table.same_texts, setDefiner, induction]
      by_cases same : definer.1 = token <;> simp [same, definerRow]

theorem setDefiner_fst (token : String) (step : Step) (definers : List (String × Step)) :
    (setDefiner token step definers).map Prod.fst =
      if token ∈ definers.map Prod.fst then definers.map Prod.fst
      else definers.map Prod.fst ++ [token] := by
  induction definers with
  | nil => rfl
  | cons definer definers induction =>
      rw [setDefiner]
      by_cases same : definer.1 = token
      · simp [same]
      · rw [if_neg same, List.map_cons, induction]
        by_cases known : token ∈ definers.map Prod.fst <;> simp [Ne.symm same, known]

theorem mem_setDefiner (distinct : (definers.map Prod.fst).Nodup) :
    (other, early) ∈ setDefiner token step definers ↔
      other = token ∧ early = step ∨ other ≠ token ∧ (other, early) ∈ definers := by
  induction definers with
  | nil => simp [setDefiner]
  | cons definer definers induction =>
      obtain ⟨name, last⟩ := definer
      rw [List.map_cons, List.nodup_cons] at distinct
      obtain ⟨fresh, later⟩ := distinct
      rw [setDefiner]
      by_cases same : name = token
      · subst same
        have absent : (other, early) ∈ definers → other ≠ name := by
          rintro member rfl
          exact fresh (List.mem_map.mpr ⟨_, member, rfl⟩)
        rw [if_pos rfl, List.mem_cons, List.mem_cons, Prod.mk.injEq, Prod.mk.injEq]
        grind
      · rw [if_neg same, List.mem_cons, List.mem_cons, induction later, Prod.mk.injEq]
        grind

/-- What the first pass knows of the steps that it has seen. -/
structure DefinersOf (seen : List Step) (definers : List (String × Step)) : Prop where
  last : ∀ token early, (token, early) ∈ definers ↔
    seen.findRev? (Step.defines token) = some early
  ordered : (definers.map Prod.fst).Pairwise fun token later =>
    seen.findIdx (Step.defines token) < seen.findIdx (Step.defines later)

theorem DefinersOf.defines (known : DefinersOf seen definers) (member : (token, early) ∈ definers) :
    early ∈ seen ∧ early.defines token = true := by
  have found := (known.last _ _).mp member
  rw [List.findRev?_eq_find?_reverse] at found
  exact ⟨List.mem_reverse.mp (List.mem_of_find?_eq_some found), List.find?_some found⟩

theorem DefinersOf.nil : DefinersOf [] [] := ⟨by simp, List.Pairwise.nil⟩

theorem DefinersOf.distinct (known : DefinersOf seen definers) : (definers.map Prod.fst).Nodup := by
  refine known.ordered.imp fun less => ?_
  rintro rfl
  exact Nat.lt_irrefl _ less

/-- The tokens of the first pass are those that a step defines. -/
theorem DefinersOf.mem_fst (known : DefinersOf seen definers) :
    token ∈ definers.map Prod.fst ↔ ∃ early ∈ seen, early.defines token = true := by
  constructor
  · intro member
    obtain ⟨⟨_, early⟩, among, rfl⟩ := List.mem_map.mp member
    exact ⟨early, known.defines among⟩
  · rintro ⟨early, among, defines⟩
    have found : (seen.findRev? (Step.defines token)).isSome = true := by
      rw [List.findRev?_eq_find?_reverse, List.find?_isSome]
      exact ⟨early, List.mem_reverse.mpr among, defines⟩
    obtain ⟨last, found⟩ := Option.isSome_iff_exists.mp found
    exact List.mem_map.mpr ⟨_, (known.last _ _).mpr found, rfl⟩

theorem findRev?_append (seen : List Step) (step : Step) (test : Step → Bool) :
    (seen ++ [step]).findRev? test = if test step then some step else seen.findRev? test := by
  simp only [List.findRev?_eq_find?_reverse, List.reverse_append, List.reverse_singleton,
    List.singleton_append, List.find?_cons]
  cases test step <;> rfl

theorem findIdx_append_of_mem {test : Step → Bool} (met : ∃ early ∈ seen, test early = true) :
    (seen ++ [step]).findIdx test = seen.findIdx test := by
  rw [List.findIdx_append, if_pos (List.findIdx_lt_length.mpr met)]

theorem DefinersOf.still (known : DefinersOf seen definers) (step : Step) :
    (definers.map Prod.fst).Pairwise fun token later =>
      (seen ++ [step]).findIdx (Step.defines token) <
        (seen ++ [step]).findIdx (Step.defines later) := by
  refine known.ordered.imp_of_mem fun {token later} member laterMember less => ?_
  rw [findIdx_append_of_mem (known.mem_fst.mp member),
    findIdx_append_of_mem (known.mem_fst.mp laterMember)]
  exact less

theorem DefinersOf.skip (known : DefinersOf seen definers)
    (other : ∀ token, step.defines token = false) :
    DefinersOf (seen ++ [step]) definers := by
  refine ⟨fun token early => ?_, known.still step⟩
  rw [findRev?_append, other, if_neg Bool.false_ne_true]
  exact known.last token early

theorem DefinersOf.define (known : DefinersOf seen definers)
    (only : ∀ other, step.defines other = true ↔ other = token) :
    DefinersOf (seen ++ [step]) (setDefiner token step definers) := by
  refine ⟨fun other early => ?_, ?_⟩
  · rw [mem_setDefiner known.distinct, findRev?_append, known.last]
    by_cases same : other = token
    · rw [if_pos ((only other).mpr same)]
      simp [same, eq_comm]
    · rw [if_neg fun defines => same ((only other).mp defines)]
      simp [same]
  · rw [setDefiner_fst]
    split
    · exact known.still step
    · rename_i fresh
      refine List.pairwise_append.mpr ⟨known.still step, by simp, fun name member later new => ?_⟩
      obtain rfl := List.mem_singleton.mp new
      have met := known.mem_fst.mp member
      have unmet : ¬ seen.findIdx (Step.defines later) < seen.length := fun less =>
        fresh (known.mem_fst.mpr (List.findIdx_lt_length.mp less))
      rw [findIdx_append_of_mem met, List.findIdx_append, if_neg unmet]
      exact Nat.lt_of_lt_of_le (List.findIdx_lt_length.mpr met) (Nat.le_add_left _ _)

/-- The first pass makes the table of the steps that it is given. -/
theorem tokenTable_definersOf (known : DefinersOf seen definers)
    (spelled : ∀ step ∈ steps, step.action.IsSpelled) :
    ∃ all, tokenTable (definers.map definerRow) steps = .ok (all.map definerRow) ∧
      DefinersOf (seen ++ steps) all := by
  induction steps generalizing seen definers with
  | nil => exact ⟨definers, rfl, by simpa using known⟩
  | cons step steps induction =>
      obtain ⟨first, others⟩ := List.forall_mem_cons.mp spelled
      rw [tokenTable, ← List.singleton_append, ← List.append_assoc]
      split
      · rename_i source token defines
        rw [defines] at first
        obtain ⟨name, rfl⟩ := first
        have only : ∀ other, step.defines other = true ↔ other = name := by
          intro other
          simp [Step.defines, defines, eq_comm]
        obtain ⟨all, made, whole⟩ := induction (known.define only) others
        rw [← set_definerRow] at made
        exact ⟨all, made, whole⟩
      · rename_i unlike
        have none : ∀ token, step.defines token = false := by
          intro token
          unfold Step.defines
          split
          · rename_i defines
            exact absurd defines (unlike _ _)
          · rfl
        exact induction (known.skip none) others

end Definers

/-! ## Links -/

section Links

variable {definers : List (String × Step)}

theorem filterM_refersTo (text : String) (definers : List (String × Step)) :
    (definers.map definerRow).filterM (fun row => refersTo (.text text) row.1) =
      .ok ((definers.filter fun definer =>
        Text.occursIn definer.1.toList text.toList).map definerRow) := by
  let occurs (row : Json × Json) : Bool := accepted (fun row => refersTo (.text text) row.1) row
  have answered : ∀ row ∈ definers.map definerRow,
      refersTo (.text text) row.1 = .ok (occurs row) := by
    rw [List.forall_mem_map]
    exact fun definer _ => rfl
  rw [filterM_of_answers answered, List.filter_map]
  rfl

/-- Different tokens have different last definers. -/
theorem DefinersOf.distinct_ids (known : DefinersOf steps definers)
    (distinct : (steps.map (·.id)).Nodup) : (definers.map (·.2.id)).Nodup := by
  refine List.Nodup.map_on ?_ (List.Nodup.of_map _ known.distinct)
  rintro ⟨token, early⟩ member ⟨other, late⟩ otherMember sameId
  obtain ⟨among, defines⟩ := known.defines member
  obtain ⟨otherAmong, otherDefines⟩ := known.defines otherMember
  obtain rfl : early = late := List.inj_on_of_nodup_map distinct among otherAmong sameId
  rw [Step.eq_of_defines defines otherDefines]

theorem IsLink.same (unnamed : ∀ early ∈ steps, ∀ token, early.defines token → ¬ old.names token) :
    IsLink steps old old where
  kept := rfl
  unlinked _ := rfl
  linked := by
    rintro ⟨early, among, token, defines, named⟩
    exact absurd named (unnamed early among token defines)

theorem IsLink.link {named : List (String × Step)} (known : DefinersOf steps definers)
    (distinct : (steps.map (·.id)).Nodup) (filled : named ≠ [])
    (chosen : named = definers.filter fun definer => old.names definer.1) :
    IsLink steps old { old with dependencies := some (named.map (·.2.id)) } where
  kept := rfl
  unlinked unnamed := by
    obtain ⟨⟨token, early⟩, member⟩ := List.exists_mem_of_ne_nil named filled
    rw [chosen] at member
    obtain ⟨among, names⟩ := List.mem_filter.mp member
    obtain ⟨there, defines⟩ := known.defines among
    exact absurd names (unnamed early there token defines)
  linked _ := by
    have part : named.Sublist definers := chosen ▸ List.filter_sublist
    refine ⟨named, rfl, (known.distinct_ids distinct).sublist (part.map _), fun token early => ?_,
      known.ordered.sublist (part.map _)⟩
    rw [chosen, List.mem_filter, known.last]

theorem linkStep_isLink (known : DefinersOf steps definers)
    (distinct : (steps.map (·.id)).Nodup) (spelled : old.action.IsSpelled) :
    ∃ new, linkStep (definers.map definerRow) old = .ok new ∧ IsLink steps old new := by
  unfold linkStep
  split
  · rename_i source replacement replaces
    rw [replaces] at spelled
    obtain ⟨text, rfl⟩ := spelled
    have names : ∀ token, old.names token = Text.occursIn token.toList text.toList := by
      intro token
      rw [Step.names, replaces]
    let named := definers.filter fun definer => old.names definer.1
    have looked : (definers.map definerRow).filterM (fun row => refersTo (.text text) row.1) =
        .ok (named.map definerRow) := by
      simp only [named, names]
      exact filterM_refersTo text definers
    rw [looked]
    show ∃ new, ite _ _ _ = _ ∧ _
    split
    · rename_i empty
      refine ⟨old, rfl, .same fun early among token defines names => ?_⟩
      have listed := known.mem_fst.mpr ⟨early, among, defines⟩
      obtain ⟨definer, member, rfl⟩ := List.mem_map.mp listed
      have found : definer ∈ named := List.mem_filter.mpr ⟨member, names⟩
      rw [List.map_eq_nil_iff.mp (List.isEmpty_iff.mp empty)] at found
      cases found
    · rename_i filled
      refine ⟨_, rfl, ?_⟩
      rw [List.map_map]
      exact .link known distinct (fun empty => filled (by simp [empty])) rfl
  · rename_i unlike
    refine ⟨old, rfl, .same fun early among token defines names => ?_⟩
    unfold Step.names at names
    split at names
    · rename_i replaces
      exact unlike _ _ replaces
    · cases names

end Links

/-- Linking succeeds for steps whose tokens and replacements are texts.  It gives the
steps in their order, and of each changes the dependencies only: a step that names
tokens that are defined depends on their last definers, and no other step changes. -/
theorem link_isLink (spelled : ∀ step ∈ steps, step.action.IsSpelled)
    (distinct : (steps.map (·.id)).Nodup) :
    ∃ linked, link steps = .ok linked ∧ List.Forall₂ (IsLink steps) steps linked := by
  obtain ⟨definers, made, known⟩ := tokenTable_definersOf DefinersOf.nil spelled
  have each := fun step member => linkStep_isLink known distinct (spelled step member)
  choose! new linked isLink using each
  refine ⟨steps.map new, bind_eq_ok_iff.mpr ⟨_, made, mapM_of_answers linked⟩, ?_⟩
  rw [List.forall₂_map_right_iff, List.forall₂_same]
  exact isLink

/-- A step that defines a token. -/
def defining (id token : String) : Step :=
  { (default : Step) with id := .text id, action := .tokenize .null (.text token) }

/-- A token that is defined twice, another one that begins with it, and a step that
names both. -/
def redefinition : List Step :=
  [defining "1" "a", defining "2" "ab", defining "3" "a",
    { (default : Step) with id := .text "4", action := .replace .null (.text "var(--ab)") }]

/-- The later definer counts, and it stands where the earlier one was met. -/
theorem link_isLink_redefinition :
    ∃ linked, link redefinition = .ok linked ∧
      List.Forall₂ (IsLink redefinition) redefinition linked ∧
      linked.map (·.dependencies) = [none, none, none, some [.text "3", .text "2"]] := by
  have spelled : ∀ step ∈ redefinition, step.action.IsSpelled := by
    intro step member
    rcases member with _ | ⟨_, _ | ⟨_, _ | ⟨_, _ | ⟨_, ⟨⟩⟩⟩⟩⟩ <;> exact ⟨_, rfl⟩
  have seen : (link redefinition).map (·.map (·.dependencies)) =
      .ok [none, none, none, some [.text "3", .text "2"]] := by
    decide +kernel
  obtain ⟨linked, made, isLink⟩ := link_isLink spelled (by decide +kernel)
  rw [made] at seen
  exact ⟨linked, made, isLink, Except.ok.inj seen⟩

end Restyle
