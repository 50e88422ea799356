import Restyle.Proofs.Plan.Grouping
import Restyle.Proofs.Schedule.Selection

/-!
# Violations that the filters choose

Without a limit the filters leave out violations and change nothing else.  With a
limit the violations come out file by file, and of each file its most severe ones,
in order.  Violations that were chosen are all chosen again.
-/

namespace Restyle

variable {violations kept filtered : List Violation} {violation : Violation} {filters : Filters}
  {included excluded : Option (List String)} {limit : Option Int} {most : Nat} {names : List String}

/-! ## Limits -/

/-- Whether a placed violation is at least as serious as another. -/
def Placed.upTo (first second : Placed) : Bool := first.1.severity.rank ≤ second.1.severity.rank

theorem Placed.upTo_trans (first second third : Placed) (low : first.upTo second)
    (high : second.upTo third) : first.upTo third := by
  simp only [upTo, decide_eq_true_eq] at low high ⊢
  exact Nat.le_trans low high

theorem Placed.upTo_total (first second : Placed) : first.upTo second || second.upTo first := by
  simp only [upTo, Bool.or_eq_true, decide_eq_true_eq]
  exact Nat.le_total _ _

/-- The violations of a file, the most serious first. -/
def rankedOf (all : List Placed) (file : Json) : List Placed :=
  (all.filter (Placed.isOf file)).mergeSort Placed.upTo

/-- The placed violations that a limit leaves of some files. -/
def cappedOf (most : Nat) (all : List Placed) (files : List Json) : List Placed :=
  files.flatMap fun file => (rankedOf all file).take most

section Limits

variable {all : List Placed} {item : Placed} {groups : List (Json × List Violation)} {file : Json}

theorem mem_rankedOf : item ∈ rankedOf all file ↔ item ∈ all ∧ item.isOf file = true := by
  rw [rankedOf, (List.mergeSort_perm _ _).mem_iff, List.mem_filter]

theorem length_rankedOf (all : List Placed) (file : Json) :
    (rankedOf all file).length = (all.filter (Placed.isOf file)).length :=
  (List.mergeSort_perm _ _).length_eq

theorem rankedOf_outranks (increasing : all.Pairwise fun first second => first.2 < second.2)
    (file : Json) : (rankedOf all file).Pairwise Placed.Outranks := by
  have stable := pairwise_mergeSort_stable Placed.upTo_trans Placed.upTo_total
    (increasing.sublist (List.filter_sublist (p := Placed.isOf file)))
  refine stable.imp fun {first second} ordered => ?_
  obtain ⟨low, level⟩ := ordered
  simp only [Placed.upTo, decide_eq_true_eq] at low level
  rcases Nat.lt_or_eq_of_le low with less | same
  · exact Or.inl less
  · exact Or.inr ⟨same, level same.ge⟩

theorem bySeverity_members (known : Groups all groups) {group : Json × List Violation}
    (member : group ∈ groups) : bySeverity group.2 = (rankedOf all group.1).map Prod.fst := by
  rw [known.members group member, bySeverity, rankedOf]
  symm
  apply List.map_mergeSort
  intro first _ second _
  rfl

theorem capPerFile_eq (known : Groups all groups) (most : Nat) :
    (groups.flatMap fun group => (bySeverity group.2).take most) =
      (cappedOf most all (groups.map Prod.fst)).map Prod.fst := by
  rw [cappedOf, List.map_flatMap, List.flatMap_map]
  apply List.flatMap_congr
  intro group member
  rw [bySeverity_members known member, List.map_take]

/-- The groups of other files have no violation of a file. -/
theorem filter_take_rankedOf {other : Json} (isKey : item.1.filePath.isKey = true)
    (differs : Json.same item.1.filePath other = false) :
    ((rankedOf all other).take most).filter (Placed.isOf item.1.filePath) = [] := by
  rw [List.filter_eq_nil_iff]
  intro found member same
  obtain ⟨_, isOf⟩ := mem_rankedOf.mp (List.mem_of_mem_take member)
  rw [Json.same_of_common (Json.isKey_of_same_key isKey same) same isOf] at differs
  cases differs

theorem isOf_congr {other : Json} {found : Placed} (isKey : found.1.filePath.isKey = true)
    (fileKey : file.isKey = true) (same : Json.same file other = true) :
    found.isOf file = found.isOf other := by
  have equal := (Json.same_iff fileKey).mp same
  rw [Bool.eq_iff_iff, Placed.isOf, Placed.isOf, Json.same_iff isKey, Json.same_iff isKey, equal]

theorem filter_cappedOf (most : Nat) (known : Groups all groups)
    (isKey : item.1.filePath.isKey = true) (member : item ∈ all) :
    ∃ file ∈ groups.map Prod.fst, Json.same item.1.filePath file = true ∧
      (cappedOf most all (groups.map Prod.fst)).filter (Placed.isOf item.1.filePath) =
        ((rankedOf all file).take most).filter (Placed.isOf item.1.filePath) := by
  obtain ⟨file, listed, same⟩ := List.any_eq_true.mp (known.covers item member)
  refine ⟨file, listed, same, ?_⟩
  obtain ⟨before, behind, whole⟩ := List.append_of_mem listed
  have apart := known.apart
  rw [whole] at apart ⊢
  obtain ⟨_, right, across⟩ := List.pairwise_append.mp apart
  have others : ∀ other, Json.same file other = false ∨ Json.same other file = false →
      Json.same item.1.filePath other = false := by
    intro other differs
    cases found : Json.same item.1.filePath other with
    | false => rfl
    | true =>
        rw [Json.same_of_common isKey same found, Json.same_of_common isKey found same] at differs
        simp at differs
  have none : ∀ files : List Json,
      (∀ other ∈ files, Json.same file other = false ∨ Json.same other file = false) →
        (cappedOf most all files).filter (Placed.isOf item.1.filePath) = [] := by
    intro files differ
    rw [cappedOf, List.filter_flatMap, List.flatMap_eq_nil_iff]
    exact fun other among => filter_take_rankedOf isKey (others other (differ other among))
  have parts : cappedOf most all (before ++ file :: behind) =
      cappedOf most all before ++ ((rankedOf all file).take most ++ cappedOf most all behind) := by
    simp only [cappedOf, List.flatMap_append, List.flatMap_cons]
  rw [parts, List.filter_append, List.filter_append,
    none before fun other among => Or.inr (across other among file List.mem_cons_self),
    none behind fun other among => Or.inl ((List.pairwise_cons.mp right).1 other among)]
  simp

theorem mem_of_take_rankedOf (member : item ∈ (rankedOf all file).take most) :
    item ∈ all ∧ item.isOf file = true :=
  mem_rankedOf.mp (List.mem_of_mem_take member)

theorem MetBefore.of_isOf {other : Json} {first second : Placed}
    (keys : ∀ item ∈ all, item.1.filePath.isKey = true) (met : MetBefore all file other)
    (firstKey : first.1.filePath.isKey = true) (firstOf : first.isOf file = true)
    (secondKey : second.1.filePath.isKey = true) (secondOf : second.isOf other = true) :
    MetBefore all first.1.filePath second.1.filePath := by
  obtain ⟨early, among, isOf, before⟩ := met
  refine ⟨early, among, ?_, fun late there ofSecond => before late there ?_⟩
  · rw [isOf_congr (keys early among) firstKey firstOf]
    exact isOf
  · rw [← isOf_congr (keys late there) secondKey secondOf]
    exact ofSecond

theorem cappedOf_ordered (most : Nat) (known : Groups all groups)
    (increasing : all.Pairwise fun first second => first.2 < second.2)
    (keys : ∀ item ∈ all, item.1.filePath.isKey = true) :
    (cappedOf most all (groups.map Prod.fst)).Pairwise fun first second =>
      if first.isOf second.1.filePath = true then first.Outranks second
      else MetBefore all first.1.filePath second.1.filePath := by
  have ranked : ∀ {file}, ((rankedOf all file).take most).Pairwise Placed.Outranks :=
    (rankedOf_outranks increasing _).sublist (List.take_sublist most _)
  rw [cappedOf, List.pairwise_flatMap]
  constructor
  · intro file listed
    refine ranked.imp_of_mem fun {first second} firstMember secondMember outranks => ?_
    obtain ⟨firstAmong, firstOf⟩ := mem_of_take_rankedOf firstMember
    obtain ⟨secondAmong, secondOf⟩ := mem_of_take_rankedOf secondMember
    rw [if_pos]
    · exact outranks
    · rw [isOf_congr (keys first firstAmong) (keys second secondAmong) secondOf]
      exact firstOf
  · refine (known.apart.and known.met).imp_of_mem
      fun {file other} listed listedOther both first firstMember second secondMember => ?_
    obtain ⟨differs, met⟩ := both
    obtain ⟨firstAmong, firstOf⟩ := mem_of_take_rankedOf firstMember
    obtain ⟨secondAmong, secondOf⟩ := mem_of_take_rankedOf secondMember
    have firstKey := keys first firstAmong
    have secondKey := keys second secondAmong
    have elsewhere : ¬ first.isOf second.1.filePath = true := by
      intro same
      rw [isOf_congr firstKey secondKey secondOf] at same
      rw [Json.same_of_common firstKey firstOf same] at differs
      cases differs
    rw [if_neg elsewhere]
    exact met.of_isOf keys firstKey firstOf secondKey secondOf

theorem cappedOf_isCapped (most : Nat) (known : Groups all groups)
    (increasing : all.Pairwise fun first second => first.2 < second.2)
    (keys : ∀ item ∈ all, item.1.filePath.isKey = true) :
    IsCapped most all (cappedOf most all (groups.map Prod.fst)) := by
  refine ⟨?_, cappedOf_ordered most known increasing keys, ?_, ?_⟩
  · intro item member
    obtain ⟨file, _, among⟩ := List.mem_flatMap.mp member
    exact (mem_of_take_rankedOf among).1
  · intro item member
    have isKey := keys item member
    obtain ⟨file, _, same, kept⟩ := filter_cappedOf most known isKey member
    have whole : ∀ found ∈ all, found.isOf item.1.filePath = found.isOf file :=
      fun found among => isOf_congr (keys found among) isKey same
    have complete : ((rankedOf all file).take most).filter (Placed.isOf item.1.filePath) =
        (rankedOf all file).take most := by
      rw [List.filter_eq_self]
      intro found among
      obtain ⟨inAll, isOf⟩ := mem_of_take_rankedOf among
      rw [whole found inAll]
      exact isOf
    rw [kept, complete, List.length_take, length_rankedOf, List.filter_congr whole]
  · intro dropped member absent item kept same
    have isKey := keys dropped member
    obtain ⟨file, listed, fileSame, segment⟩ := filter_cappedOf most known isKey member
    have among : item ∈ (rankedOf all file).take most := by
      have found := List.mem_filter.mpr ⟨kept, same⟩
      rw [segment] at found
      exact (List.mem_filter.mp found).1
    have ofFile : dropped ∈ rankedOf all file := mem_rankedOf.mpr ⟨member, fileSame⟩
    rw [← List.take_append_drop most (rankedOf all file)] at ofFile
    have late : dropped ∈ (rankedOf all file).drop most := by
      refine (List.mem_append.mp ofFile).resolve_left fun early => absent ?_
      exact List.mem_flatMap.mpr ⟨file, listed, early⟩
    have whole := rankedOf_outranks increasing file
    rw [← List.take_append_drop most (rankedOf all file)] at whole
    exact (List.pairwise_append.mp whole).2.2 item among dropped late

end Limits

/-! ## A second time -/

theorem addToGroup_last {groups : List (Json × List Violation)} {file : Json}
    {group : List Violation} (fresh : violation.filePath.isAmong (groups.map Prod.fst) = false)
    (same : Json.same violation.filePath file = true) :
    addToGroup violation (groups ++ [(file, group)]) =
      groups ++ [(file, group ++ [violation])] := by
  induction groups with
  | nil => exact if_pos same
  | cons first groups induction =>
      rw [List.map_cons, Json.isAmong, List.any_cons, Bool.or_eq_false_iff] at fresh
      rw [List.cons_append, addToGroup, if_neg (by simp [fresh.1]), induction fresh.2,
        List.cons_append]

/-- Violations of one file that was not met before become one group. -/
theorem foldl_addToGroup {groups : List (Json × List Violation)} {group : List Violation}
    (fresh : ∀ other ∈ violation :: group, other.filePath.isAmong (groups.map Prod.fst) = false)
    (same : ∀ other ∈ group, Json.same other.filePath violation.filePath = true) :
    (violation :: group).foldl (fun groups violation => addToGroup violation groups) groups =
      groups ++ [(violation.filePath, violation :: group)] := by
  have grows : ∀ rest : List Violation, ∀ done : List Violation,
      (∀ other ∈ rest, other.filePath.isAmong (groups.map Prod.fst) = false) →
      (∀ other ∈ rest, Json.same other.filePath violation.filePath = true) →
        rest.foldl (fun groups violation => addToGroup violation groups)
          (groups ++ [(violation.filePath, done)]) =
            groups ++ [(violation.filePath, done ++ rest)] := by
    intro rest
    induction rest with
    | nil => simp
    | cons first rest induction =>
        intro done newcomers alike
        obtain ⟨new, laterNew⟩ := List.forall_mem_cons.mp newcomers
        obtain ⟨joins, laterJoin⟩ := List.forall_mem_cons.mp alike
        rw [List.foldl_cons, addToGroup_last new joins, induction _ laterNew laterJoin,
          List.append_assoc]
        rfl
  obtain ⟨new, later⟩ := List.forall_mem_cons.mp fresh
  rw [List.foldl_cons, addToGroup_of_new new, grows group [violation] later same]
  rfl

/-- Whether lists of violations are those of different files, each with one at least. -/
structure AreFiles (segments : List (List Violation)) : Prop where
  keys : ∀ segment ∈ segments, ∀ violation ∈ segment, violation.filePath.isKey = true
  filled : ∀ segment ∈ segments, segment ≠ []
  same : ∀ segment ∈ segments, ∀ violation ∈ segment, ∀ other ∈ segment,
    Json.same violation.filePath other.filePath = true
  apart : segments.Pairwise fun segment later => ∀ violation ∈ segment, ∀ other ∈ later,
    Json.same other.filePath violation.filePath = false

/-- Violations that stand file by file are grouped as they stand. -/
theorem groupByFile_flatten {segments : List (List Violation)} (files : AreFiles segments) :
    (groupByFile segments.flatten).map Prod.snd = segments := by
  induction segments using List.reverseRecOn with
  | nil => rfl
  | append_singleton segments segment induction =>
      obtain ⟨apart, _, across⟩ := List.pairwise_append.mp files.apart
      have early : AreFiles segments :=
        ⟨fun other member => files.keys other (List.mem_append_left _ member),
          fun other member => files.filled other (List.mem_append_left _ member),
          fun other member => files.same other (List.mem_append_left _ member), apart⟩
      have last : segment ∈ segments ++ [segment] := List.mem_append_right _ List.mem_cons_self
      have keys : ∀ item ∈ segments.flatten.zipIdx, item.1.filePath.isKey = true := by
        intro item member
        obtain ⟨other, among, inside⟩ := List.mem_flatten.mp (List.fst_mem_of_mem_zipIdx member)
        exact early.keys other among item.1 inside
      have known := groups_groupByFile (pairwise_zipIdx segments.flatten) keys
      rw [List.zipIdx_map_fst] at known
      have fresh : ∀ violation ∈ segment, violation.filePath.isAmong
          ((groupByFile segments.flatten).map Prod.fst) = false := by
        intro violation member
        rw [Json.isAmong, List.any_eq_false]
        intro file listed met
        obtain ⟨group, among, rfl⟩ := List.mem_map.mp listed
        obtain ⟨item, there, isOf⟩ := known.filled group among
        obtain ⟨other, before, inside⟩ := List.mem_flatten.mp (List.fst_mem_of_mem_zipIdx there)
        have isKey := files.keys segment last violation member
        have differs :=
          across other before segment List.mem_cons_self item.1 inside violation member
        have equal := ((Json.same_iff isKey).mp met).trans
          ((Json.same_iff (keys item there)).mp isOf).symm
        rw [(Json.same_iff isKey).mpr equal] at differs
        cases differs
      cases segment with
      | nil => exact absurd rfl (files.filled [] last)
      | cons violation group =>
          have alike : ∀ other ∈ group, Json.same other.filePath violation.filePath = true :=
            fun other member => files.same _ last other (List.mem_cons_of_mem _ member) violation
              List.mem_cons_self
          have added : groupByFile (segments ++ [violation :: group]).flatten =
              (violation :: group).foldl (fun groups violation => addToGroup violation groups)
                (groupByFile segments.flatten) := by
            rw [List.flatten_append, groupByFile, List.foldl_append]
            simp only [List.flatten_cons, List.flatten_nil, List.append_nil]
            rfl
          rw [added, foldl_addToGroup fresh alike, List.map_append, induction early]
          rfl

theorem bySeverity_trans (first second third : Violation)
    (low : decide (first.severity.rank ≤ second.severity.rank) = true)
    (high : decide (second.severity.rank ≤ third.severity.rank) = true) :
    decide (first.severity.rank ≤ third.severity.rank) = true := by
  simp only [decide_eq_true_eq] at low high ⊢
  exact Nat.le_trans low high

theorem bySeverity_total (first second : Violation) :
    (decide (first.severity.rank ≤ second.severity.rank) ||
      decide (second.severity.rank ≤ first.severity.rank)) = true := by
  simp only [Bool.or_eq_true, decide_eq_true_eq]
  exact Nat.le_total _ _

theorem take_bySeverity (most : Nat) (group : List Violation) :
    (bySeverity ((bySeverity group).take most)).take most = (bySeverity group).take most := by
  have sorted : (bySeverity group).Pairwise fun first second =>
      decide (first.severity.rank ≤ second.severity.rank) = true :=
    List.pairwise_mergeSort bySeverity_trans bySeverity_total group
  have again : bySeverity ((bySeverity group).take most) = (bySeverity group).take most :=
    List.mergeSort_of_pairwise (sorted.sublist (List.take_sublist most _))
  rw [again, List.take_take, Nat.min_self]

theorem areFiles_capped (positive : 0 < most)
    (keys : ∀ violation ∈ kept, violation.filePath.isKey = true) :
    AreFiles ((groupByFile kept).map fun group => (bySeverity group.2).take most) := by
  have placed : ∀ item ∈ kept.zipIdx, item.1.filePath.isKey = true := fun item member =>
    keys item.1 (List.fst_mem_of_mem_zipIdx member)
  have known := groups_groupByFile (pairwise_zipIdx kept) placed
  rw [List.zipIdx_map_fst] at known
  have origin : ∀ group ∈ groupByFile kept, ∀ violation ∈ (bySeverity group.2).take most,
      violation.filePath.isKey = true ∧ violation.filePath.key? = group.1.key? := by
    intro group listed violation member
    have among : violation ∈ group.2 :=
      (List.mergeSort_perm _ _).mem_iff.mp (List.mem_of_mem_take member)
    rw [known.members group listed] at among
    obtain ⟨item, found, rfl⟩ := List.mem_map.mp among
    obtain ⟨there, isOf⟩ := List.mem_filter.mp found
    have isKey := placed item there
    exact ⟨isKey, (Json.same_iff isKey).mp isOf⟩
  refine ⟨?_, ?_, ?_, ?_⟩
  · rw [List.forall_mem_map]
    exact fun group listed violation member => (origin group listed violation member).1
  · rw [List.forall_mem_map]
    intro group listed empty
    obtain ⟨item, there, isOf⟩ := known.filled group listed
    have some : item.1 ∈ bySeverity group.2 := by
      refine (List.mergeSort_perm _ _).mem_iff.mpr ?_
      rw [known.members group listed]
      exact List.mem_map_of_mem (List.mem_filter.mpr ⟨there, isOf⟩)
    rcases List.take_eq_nil_iff.mp empty with none | none
    · exact absurd none positive.ne'
    · rw [none] at some
      cases some
  · rw [List.forall_mem_map]
    intro group listed violation member other among
    obtain ⟨isKey, first⟩ := origin group listed violation member
    exact (Json.same_iff isKey).mpr (first.trans (origin group listed other among).2.symm)
  · rw [List.pairwise_map]
    refine (List.pairwise_map.mp known.apart).imp_of_mem
      fun {group later} listed listedLater differs violation member other among => ?_
    obtain ⟨_, first⟩ := origin group listed violation member
    obtain ⟨isKey, second⟩ := origin later listedLater other among
    cases same : Json.same other.filePath violation.filePath with
    | false => rfl
    | true =>
        have equal := (Json.same_iff isKey).mp same
        have alike : group.1.key? = later.1.key? := first.symm.trans (equal.symm.trans second)
        rw [(Json.same_iff (known.keys group listed)).mpr alike] at differs
        cases differs

/-- What a limit leaves it leaves a second time. -/
theorem capPerFile_again (positive : 0 < most)
    (keys : ∀ violation ∈ kept, violation.filePath.isKey = true) :
    capPerFile most (capPerFile most kept) = capPerFile most kept := by
  let segment (group : Json × List Violation) : List Violation := (bySeverity group.2).take most
  have parts : capPerFile most kept = ((groupByFile kept).map segment).flatten :=
    List.flatMap_def ..
  have grouped : (groupByFile (capPerFile most kept)).map Prod.snd =
      (groupByFile kept).map segment := by
    rw [parts]
    exact groupByFile_flatten (areFiles_capped positive keys)
  calc capPerFile most (capPerFile most kept)
      = ((groupByFile (capPerFile most kept)).map Prod.snd).flatMap
          fun group => (bySeverity group).take most := by rw [List.flatMap_map]; rfl
    _ = (groupByFile kept).flatMap fun group => (bySeverity (segment group)).take most := by
        rw [grouped, List.flatMap_map]
    _ = capPerFile most kept :=
        List.flatMap_congr fun group _ => take_bySeverity most group.2

/-! ## Rules -/

namespace Violation

/-- Whether the rule of a violation is one of some names. -/
def HasRule (names : List String) (violation : Violation) : Prop :=
  ∃ name ∈ names, violation.ruleKey = .text name

instance (names : List String) (violation : Violation) : Decidable (violation.HasRule names) :=
  inferInstanceAs (Decidable (∃ name ∈ names, violation.ruleKey = .text name))

/-- Whether a violation passes the rules that a caller names: it has one of those
to include, if there are any, and none of those to exclude. -/
def Passes (included excluded : Option (List String)) (violation : Violation) : Prop :=
  (included.getD [] ≠ [] → violation.HasRule (included.getD [])) ∧
    ¬ violation.HasRule (excluded.getD [])

instance (included excluded : Option (List String)) (violation : Violation) :
    Decidable (violation.Passes included excluded) :=
  inferInstanceAs (Decidable ((included.getD [] ≠ [] → violation.HasRule (included.getD [])) ∧
    ¬ violation.HasRule (excluded.getD [])))

end Violation

def ruleItems (names : List String) : List RuleItem := names.map fun name => .value (.text name)

theorem members_of_names {rules : RuleList} {given : Option (List String)}
    (named : rules.Names given) : rules.members = .ok (ruleItems (given.getD [])) := by
  cases named with
  | absent => rfl
  | given names =>
      cases names with
      | nil => rfl
      | cons name names =>
          rw [Option.getD_some, ruleItems, ← Function.comp_def RuleItem.value, ← List.map_map]
          refine mapM_of_answers fun item member => ?_
          obtain ⟨text, _, rfl⟩ := List.mem_map.mp member
          rfl
  | listed names =>
      have keyed : (ruleItems names).mapM RuleItem.asKey = .ok ((ruleItems names).map id) := by
        refine mapM_of_answers fun item member => ?_
        obtain ⟨text, _, rfl⟩ := List.mem_map.mp member
        rfl
      rwa [List.map_id] at keyed

theorem any_isRule_iff (isKey : violation.ruleKey.isKey = true) :
    (ruleItems names).any (RuleItem.isRule violation.ruleKey) = true ↔ violation.HasRule names := by
  rw [ruleItems, List.any_map, List.any_eq_true]
  constructor
  · rintro ⟨name, member, same⟩
    exact ⟨name, member, Json.eq_text_of_same same⟩
  · rintro ⟨name, member, equal⟩
    refine ⟨name, member, ?_⟩
    show Json.same violation.ruleKey (.text name) = true
    rw [← equal]
    exact Json.same_self isKey

/-- Whether the rules of violations can be compared with names, if there are any. -/
def AreComparable (names : List String) (violations : List Violation) : Prop :=
  names = [] ∨ ∀ violation ∈ violations, violation.ruleKey.isKey = true

theorem AreComparable.subset (comparable : AreComparable names violations)
    (fewer : kept ⊆ violations) : AreComparable names kept :=
  comparable.imp_right fun keys violation member => keys violation (fewer member)

theorem ruleTest_eq_ok {keepMembers answer : Bool} :
    (do
      let key ← violation.ruleKey.asKey
      return (ruleItems names).any (RuleItem.isRule key) == keepMembers) =
        (Except.ok answer : Except Fault Bool) ↔
      violation.ruleKey.isKey = true ∧
        answer = (decide (violation.HasRule names) == keepMembers) := by
  have said : violation.ruleKey.isKey = true →
      (ruleItems names).any (RuleItem.isRule violation.ruleKey) =
        decide (violation.HasRule names) := by
    intro isKey
    rw [Bool.eq_iff_iff, decide_eq_true_iff]
    exact any_isRule_iff isKey
  constructor
  · intro tested
    obtain ⟨key, keyed, tested⟩ := bind_eq_ok_iff.mp tested
    obtain ⟨isKey, rfl⟩ := asKey_eq_ok.mp keyed
    cases tested
    exact ⟨isKey, congrArg (· == keepMembers) (said isKey)⟩
  · rintro ⟨isKey, rfl⟩
    refine bind_eq_ok_iff.mpr ⟨_, asKey_eq_ok.mpr ⟨isKey, rfl⟩, ?_⟩
    exact congrArg (fun found : Bool => Except.ok (found == keepMembers)) (said isKey)

theorem selectRules_eq_ok {keepMembers : Bool} :
    selectRules keepMembers (ruleItems names) violations = .ok kept ↔
      AreComparable names violations ∧
        kept = violations.filter fun violation =>
          names = [] ∨ decide (violation.HasRule names) = keepMembers := by
  unfold selectRules
  cases names with
  | nil =>
      simp only [ruleItems, List.map_nil, List.isEmpty_nil, if_true, AreComparable, true_or,
        true_and, decide_true, List.filter_true]
      exact ⟨fun same => (Except.ok.inj same).symm, fun same => congrArg Except.ok same.symm⟩
  | cons name names =>
      have filled : (ruleItems (name :: names)).isEmpty = false := rfl
      rw [if_neg (by simp [filled])]
      simp only [AreComparable, reduceCtorEq, false_or]
      constructor
      · intro selected
        obtain ⟨tests, rfl⟩ := filterM_eq_ok.mp selected
        have known := fun violation member => ruleTest_eq_ok.mp (tests violation member)
        exact ⟨fun violation member => (known violation member).1,
          List.filter_congr fun violation member => (known violation member).2⟩
      · rintro ⟨keys, rfl⟩
        exact filterM_of_answers fun violation member =>
          ruleTest_eq_ok.mpr ⟨keys violation member, rfl⟩

/-! ## Filters -/

/-- The limit that a number sets: none, unless it is positive. -/
def positive? (limit : Option Int) : Option Nat :=
  limit.bind fun most => if 0 < most then some most.toNat else none

theorem limit?_of_say (say : filters.Say included excluded limit) (nothingToCut : Bool) :
    filters.limit? nothingToCut = .ok (positive? limit) := by
  rw [Filters.limit?, say.limit]
  cases limit with
  | none => rfl
  | some most => rfl

/-- The violations that a limit leaves, if there is one. -/
def limited (limit : Option Int) (kept : List Violation) : List Violation :=
  match positive? limit with
  | none => kept
  | some most => capPerFile most kept

theorem selectRules_included :
    selectRules true (ruleItems names) violations = .ok kept ↔
      AreComparable names violations ∧
        kept = violations.filter fun violation => names ≠ [] → violation.HasRule names := by
  simp only [selectRules_eq_ok, decide_eq_true_eq, or_iff_not_imp_left, ne_eq]

theorem selectRules_excluded :
    selectRules false (ruleItems names) violations = .ok kept ↔
      AreComparable names violations ∧
        kept = violations.filter fun violation => ¬ violation.HasRule names := by
  have absorbed : ∀ violation : Violation,
      (names = [] ∨ ¬ violation.HasRule names) ↔ ¬ violation.HasRule names := by
    intro violation
    refine ⟨fun either => either.elim ?_ id, Or.inr⟩
    rintro rfl ⟨_, member, _⟩
    cases member
  simp only [selectRules_eq_ok, decide_eq_false_iff_not, absorbed]

theorem limited_subset (limit : Option Int) (kept : List Violation) :
    limited limit kept ⊆ kept := by
  unfold limited
  split
  · exact List.Subset.refl kept
  · exact (capPerFile_subperm _ kept).subset

theorem positive?_eq_some : positive? limit = some most ↔ 0 < most ∧ limit = some (most : Int) := by
  cases limit with
  | none => simp [positive?]
  | some number =>
      simp only [positive?, Option.bind_some, Option.ite_none_right_eq_some, Option.some.injEq]
      omega

theorem limited_again
    (keys : positive? limit ≠ none → ∀ violation ∈ kept, violation.filePath.isKey = true) :
    limited limit (limited limit kept) = limited limit kept := by
  cases bound : positive? limit with
  | none => simp only [limited, bound]
  | some most =>
      simp only [limited, bound]
      exact capPerFile_again (positive?_eq_some.mp bound).1 (keys (by simp [bound]))

/-- The filters of a caller choose violations when they can compare the rules and,
under a limit, the files. -/
theorem filterViolations_eq_ok (say : filters.Say included excluded limit) :
    filterViolations filters violations = .ok filtered ↔
      AreComparable (included.getD []) violations ∧
      AreComparable (excluded.getD []) (violations.filter fun violation =>
        included.getD [] ≠ [] → violation.HasRule (included.getD [])) ∧
      (positive? limit ≠ none → ∀ violation ∈ violations,
        violation.Passes included excluded → violation.filePath.isKey = true) ∧
      filtered = limited limit (violations.filter fun violation =>
        violation.Passes included excluded) := by
  have passing : ∀ violations : List Violation, (violations.filter fun violation =>
      included.getD [] ≠ [] → violation.HasRule (included.getD [])).filter (fun violation =>
        ¬ violation.HasRule (excluded.getD [])) =
      violations.filter fun violation => violation.Passes included excluded := by
    intro violations
    rw [List.filter_filter]
    refine List.filter_congr fun violation _ => ?_
    rw [Bool.eq_iff_iff, Bool.and_eq_true_iff]
    simp only [decide_eq_true_eq]
    exact and_comm
  unfold filterViolations
  simp only [bind_eq_ok_iff, members_of_names say.included, members_of_names say.excluded,
    limit?_of_say say, Except.ok.injEq, exists_eq_left', selectRules_included,
    selectRules_excluded, and_assoc, exists_and_left, exists_eq_left, passing]
  refine and_congr_right fun _ => and_congr_right fun _ => ?_
  have members : ∀ known : Violation → Prop,
      (∀ violation ∈ violations.filter fun violation => violation.Passes included excluded,
        known violation) ↔
      ∀ violation ∈ violations, violation.Passes included excluded → known violation := by
    intro known
    simp only [List.mem_filter, decide_eq_true_eq, and_imp]
  rw [limited, ← members]
  cases positive? limit with
  | none =>
      simp only [ne_eq, not_true_eq_false, false_imp_iff, true_and]
      exact ⟨fun same => (Except.ok.inj same).symm, fun same => congrArg Except.ok same.symm⟩
  | some most =>
      simp only [ne_eq, reduceCtorEq, not_false_eq_true, true_imp_iff]
      constructor
      · intro capped
        obtain ⟨_, keyed, same⟩ := bind_eq_ok_iff.mp capped
        refine ⟨fun violation member => ?_, (Except.ok.inj same).symm⟩
        obtain ⟨_, _, found⟩ := (mem_of_mapM keyed).1 violation member
        exact (asKey_eq_ok.mp found).1
      · rintro ⟨keys, rfl⟩
        have keyed := mapM_of_answers fun violation member =>
          asKey_eq_ok.mpr ⟨keys violation member, rfl⟩
        exact bind_eq_ok_iff.mpr ⟨_, keyed, rfl⟩

theorem filterViolations_again (say : filters.Say included excluded limit)
    (chosen : filterViolations filters violations = .ok filtered) :
    filterViolations filters filtered = .ok filtered := by
  obtain ⟨first, second, keys, rfl⟩ := (filterViolations_eq_ok say).mp chosen
  let passing := violations.filter fun violation => violation.Passes included excluded
  have passes : ∀ violation ∈ limited limit passing,
      violation ∈ violations ∧ violation.Passes included excluded := by
    intro violation member
    obtain ⟨among, passes⟩ := List.mem_filter.mp (limited_subset limit passing member)
    exact ⟨among, of_decide_eq_true passes⟩
  have all : ((limited limit passing).filter fun violation =>
      violation.Passes included excluded) = limited limit passing :=
    List.filter_eq_self.mpr fun violation member => decide_eq_true (passes violation member).2
  refine (filterViolations_eq_ok say).mpr ⟨first.subset ?_, second.subset ?_, ?_, ?_⟩
  · exact fun violation member => (passes violation member).1
  · intro violation member
    obtain ⟨among, hasRule⟩ := List.mem_filter.mp member
    exact List.mem_filter.mpr ⟨(passes violation among).1, hasRule⟩
  · exact fun bounded violation member => keys bounded violation (passes violation member).1
  · rw [all]
    refine (limited_again fun bounded violation member => ?_).symm
    obtain ⟨among, passes⟩ := List.mem_filter.mp member
    exact keys bounded violation among (of_decide_eq_true passes)

theorem capPerFile_isCapped (most : Nat) {all : List Placed}
    (increasing : all.Pairwise fun first second => first.2 < second.2)
    (keys : ∀ item ∈ all, item.1.filePath.isKey = true) :
    ∃ chosen, IsCapped most all chosen ∧
      capPerFile most (all.map Prod.fst) = chosen.map Prod.fst := by
  have known := groups_groupByFile increasing keys
  exact ⟨_, cappedOf_isCapped most known increasing keys, capPerFile_eq known most⟩

theorem map_filter_zipIdx (violations : List Violation) (test : Violation → Bool) :
    (violations.zipIdx.filter fun item => test item.1).map Prod.fst = violations.filter test := by
  have moved := List.filter_map (f := Prod.fst) (p := test) (l := violations.zipIdx)
  rw [List.zipIdx_map_fst] at moved
  exact moved.symm

theorem exists_filterViolations (say : filters.Say included excluded limit)
    (keys : ∀ violation ∈ violations,
      violation.ruleKey.isKey = true ∧ violation.filePath.isKey = true) :
    ∃ filtered, filterViolations filters violations = .ok filtered := by
  refine ⟨_, (filterViolations_eq_ok say).mpr ⟨?_, ?_, ?_, rfl⟩⟩
  · exact Or.inr fun violation member => (keys violation member).1
  · exact Or.inr fun violation member => (keys violation (List.mem_of_mem_filter member)).1
  · exact fun _ violation member _ => (keys violation member).2

/-- The filters of a caller return a result for violations that can be looked at.
Without a positive limit they choose the violations that pass, as they came.  Under
a limit they choose the most severe of those of each file, in order.  Choosing a
second time changes nothing. -/
theorem filterViolations_chooses (say : filters.Say included excluded limit) :
    ((∀ violation ∈ violations,
        violation.ruleKey.isKey = true ∧ violation.filePath.isKey = true) →
      ∃ filtered, filterViolations filters violations = .ok filtered) ∧
    ∀ filtered, filterViolations filters violations = .ok filtered →
      ((∀ most, limit = some most → most ≤ 0) →
        filtered = violations.filter fun violation => violation.Passes included excluded) ∧
      (∀ most : Nat, 0 < most → limit = some (most : Int) →
        ∃ chosen,
          IsCapped most
            (violations.zipIdx.filter fun item => item.1.Passes included excluded) chosen ∧
            filtered = chosen.map Prod.fst) ∧
      filterViolations filters filtered = .ok filtered := by
  refine ⟨exists_filterViolations say, fun filtered chosen => ⟨fun unbounded => ?_,
    fun most positive bounded => ?_, filterViolations_again say chosen⟩⟩
  · obtain ⟨_, _, _, rfl⟩ := (filterViolations_eq_ok say).mp chosen
    have none : positive? limit = none := by
      rw [Option.eq_none_iff_forall_ne_some]
      intro most bound
      obtain ⟨positive, given⟩ := positive?_eq_some.mp bound
      have small := unbounded most given
      omega
    rw [limited, none]
  · obtain ⟨_, _, keys, rfl⟩ := (filterViolations_eq_ok say).mp chosen
    have bound : positive? limit = some most := positive?_eq_some.mpr ⟨positive, bounded⟩
    have files : ∀ item ∈ violations.zipIdx.filter fun item => item.1.Passes included excluded,
        item.1.filePath.isKey = true := by
      intro item member
      obtain ⟨among, passes⟩ := List.mem_filter.mp member
      exact keys (by simp [bound]) item.1 (List.fst_mem_of_mem_zipIdx among)
        (of_decide_eq_true passes)
    rw [limited, bound, ← map_filter_zipIdx]
    exact capPerFile_isCapped most ((pairwise_zipIdx violations).sublist List.filter_sublist) files

/-- A finding like another one that is not as serious. -/
def mildRepetition : Violation := { repetition with severity := .info }

/-- A finding in another file. -/
def distantRepetition : Violation := { repetition with filePath := .text "g" }

theorem bySeverity_mild :
    bySeverity [mildRepetition, repetition] = [repetition, mildRepetition] := by
  simp [bySeverity, List.mergeSort, List.MergeSort.Internal.splitInTwo, mildRepetition, repetition,
    Severity.rank]

theorem bySeverity_distant : bySeverity [distantRepetition] = [distantRepetition] := by
  simp [bySeverity]

/-- With one violation of each file as the limit, the earlier one of the first file
is dropped, since it is less serious. -/
theorem filterViolations_chooses_repetition :
    filterViolations (.ofNames none (some ["r"]) (some 1))
        [mildRepetition, distantRepetition, repetition] = .ok [repetition, distantRepetition] ∧
      ∃ chosen,
        IsCapped 1 ([mildRepetition, distantRepetition, repetition].zipIdx.filter fun item =>
          item.1.Passes none (some ["r"])) chosen ∧
          [repetition, distantRepetition] = chosen.map Prod.fst := by
  have capped : capPerFile 1 [mildRepetition, distantRepetition, repetition] =
      [repetition, distantRepetition] := by
    have grouped : groupByFile [mildRepetition, distantRepetition, repetition] =
        [(.text "f", [mildRepetition, repetition]), (.text "g", [distantRepetition])] := by
      decide +kernel
    rw [capPerFile, grouped, List.flatMap_cons, List.flatMap_cons, bySeverity_mild,
      bySeverity_distant]
    rfl
  have ran : filterViolations (.ofNames none (some ["r"]) (some 1))
      [mildRepetition, distantRepetition, repetition] = .ok [repetition, distantRepetition] := by
    rw [← capped]
    rfl
  have chosen := (filterViolations_chooses (Filters.ofNames_say none (some ["r"]) (some 1))).2 _ ran
  exact ⟨ran, chosen.2.1 1 Nat.one_pos rfl⟩

end Restyle
