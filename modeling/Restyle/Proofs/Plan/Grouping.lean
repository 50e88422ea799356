import Restyle.Proofs.Json.Keys
import Restyle.Proofs.Plan.Building

/-!
# Violations file by file

Violations are grouped by file, the files in the order in which they are met, and
those of a file are sorted by severity.  Equal violations cannot be told apart, so
they are looked at together with their places in the list that came in.
-/

namespace Restyle

variable {violation : Violation}

/-! ## Sorting keeps equal items as they came -/

/-- Items that a sorted list does not tell apart are still related as they were in
the list that was sorted. -/
theorem pairwise_mergeSort_stable {α : Type} {before : α → α → Bool} {related : α → α → Prop}
    {items : List α}
    (trans : ∀ first second third, before first second → before second third → before first third)
    (total : ∀ first second, before first second || before second first)
    (pairwise : items.Pairwise related) :
    (items.mergeSort before).Pairwise fun first second =>
      before first second = true ∧ (before second first = true → related first second) := by
  have sorted := List.pairwise_mergeSort trans total items
  rw [List.pairwise_iff_forall_sublist] at sorted ⊢
  intro first second pair
  refine ⟨sorted pair, fun back => ?_⟩
  let level (item : α) : Bool := before first item && before item first
  have ordered : (items.filter level).Pairwise fun left right => before left right = true := by
    apply List.pairwise_of_forall_mem_list
    intro left leftMember right rightMember
    obtain ⟨_, above⟩ := Bool.and_eq_true_iff.mp (List.mem_filter.mp leftMember).2
    obtain ⟨below, _⟩ := Bool.and_eq_true_iff.mp (List.mem_filter.mp rightMember).2
    exact trans left first right above below
  have within : (items.filter level).Sublist ((items.mergeSort before).filter level) := by
    have kept := (List.sublist_mergeSort trans total ordered List.filter_sublist).filter level
    simpa only [List.filter_filter, Bool.and_self] using kept
  have same : items.filter level = (items.mergeSort before).filter level :=
    within.eq_of_length ((List.mergeSort_perm items before).filter level).length_eq.symm
  have reflexive : before first first = true := by simpa using total first first
  have chosen : [first, second].Sublist (items.filter level) := by
    rw [same]
    have both := pair.filter level
    simpa [level, reflexive, back, sorted pair] using both
  exact List.pairwise_iff_forall_sublist.mp pairwise (chosen.trans List.filter_sublist)

/-! ## Placed violations -/

/-- A violation with its place in a list. -/
abbrev Placed := Violation × Nat

theorem pairwise_zipIdx (violations : List Violation) :
    violations.zipIdx.Pairwise fun first second => first.2 < second.2 := by
  have places : (violations.zipIdx.map Prod.snd).Pairwise (· < ·) := by
    rw [List.zipIdx_map_snd]
    exact List.pairwise_lt_range'
  exact List.pairwise_map.mp places

/-- Whether a placed violation is of a file. -/
def Placed.isOf (file : Json) (item : Placed) : Bool := Json.same item.1.filePath file

/-- Whether a violation comes before another one of its file: it is more serious,
or as serious and earlier. -/
def Placed.Outranks (first second : Placed) : Prop :=
  first.1.severity.rank < second.1.severity.rank ∨
    first.1.severity.rank = second.1.severity.rank ∧ first.2 < second.2

/-- Whether a file is met before another: some violation of it stands before all
of the other file. -/
def MetBefore (all : List Placed) (file other : Json) : Prop :=
  ∃ early ∈ all, early.isOf file = true ∧ ∀ late ∈ all, late.isOf other = true → early.2 < late.2

/-- What is kept of placed violations under a limit. -/
structure IsCapped (most : Nat) (all chosen : List Placed) : Prop where
  among : ∀ item ∈ chosen, item ∈ all
  /-- The files stand in the order in which they are met, and the violations of a
  file by severity and place. -/
  ordered : chosen.Pairwise fun first second =>
    if first.isOf second.1.filePath = true then first.Outranks second
    else MetBefore all first.1.filePath second.1.filePath
  /-- Of each file as many are kept as the limit allows. -/
  count : ∀ item ∈ all, (chosen.filter (Placed.isOf item.1.filePath)).length =
    min most (all.filter (Placed.isOf item.1.filePath)).length
  /-- No violation that is dropped comes before one of its file that is kept. -/
  best : ∀ dropped ∈ all, dropped ∉ chosen → ∀ item ∈ chosen,
    item.isOf dropped.1.filePath = true → item.Outranks dropped

/-! ## Groups -/

section Groups

variable {all : List Placed} {item : Placed} {groups : List (Json × List Violation)} {file : Json}

theorem addToGroup_of_new (fresh : violation.filePath.isAmong (groups.map Prod.fst) = false) :
    addToGroup violation groups = groups ++ [(violation.filePath, [violation])] := by
  induction groups with
  | nil => rfl
  | cons group groups induction =>
      rw [List.map_cons, Json.isAmong, List.any_cons, Bool.or_eq_false_iff] at fresh
      rw [addToGroup, if_neg (by simp [fresh.1]), induction fresh.2, List.cons_append]

theorem addToGroup_of_known (isKey : violation.filePath.isKey = true)
    (apart : (groups.map Prod.fst).Pairwise fun file other => Json.same file other = false)
    (known : violation.filePath.isAmong (groups.map Prod.fst) = true) :
    addToGroup violation groups = groups.map fun group =>
      if Json.same violation.filePath group.1 then (group.1, group.2 ++ [violation])
      else group := by
  induction groups with
  | nil => cases known
  | cons group groups induction =>
      rw [List.map_cons, List.pairwise_cons] at apart
      rw [addToGroup, List.map_cons]
      by_cases here : Json.same violation.filePath group.1 = true
      · rw [if_pos here, if_pos here]
        have elsewhere : ∀ other ∈ groups, ¬ Json.same violation.filePath other.1 = true := by
          intro other member there
          have differs := apart.1 other.1 (List.mem_map_of_mem member)
          rw [Json.same_of_common isKey here there] at differs
          cases differs
        rw [List.map_congr_left fun other member => if_neg (elsewhere other member), List.map_id']
      · rw [if_neg here, if_neg here]
        rw [List.map_cons, Json.isAmong, List.any_cons, Bool.or_eq_true] at known
        rw [induction apart.2 (known.resolve_left here)]

/-- What the groups of placed violations hold. -/
structure Groups (all : List Placed) (groups : List (Json × List Violation)) : Prop where
  keys : ∀ group ∈ groups, group.1.isKey = true
  members : ∀ group ∈ groups, group.2 = (all.filter (Placed.isOf group.1)).map Prod.fst
  filled : ∀ group ∈ groups, ∃ item ∈ all, item.isOf group.1 = true
  covers : ∀ item ∈ all, item.1.filePath.isAmong (groups.map Prod.fst) = true
  apart : (groups.map Prod.fst).Pairwise fun file other => Json.same file other = false
  met : (groups.map Prod.fst).Pairwise (MetBefore all)

theorem MetBefore.append {other : Json} (met : MetBefore all file other)
    (later : ∀ early ∈ all, early.2 < item.2) : MetBefore (all ++ [item]) file other := by
  obtain ⟨early, member, isOf, before⟩ := met
  refine ⟨early, List.mem_append_left _ member, isOf, fun late among ofOther => ?_⟩
  rcases List.mem_append.mp among with old | new
  · exact before late old ofOther
  · rw [List.mem_singleton.mp new]
    exact later early member

/-- A file that no violation was of so far is met after all others. -/
theorem MetBefore.of_new {early : Placed} (member : early ∈ all)
    (fresh : ∀ other ∈ all, other.isOf item.1.filePath = false)
    (later : ∀ early ∈ all, early.2 < item.2) (isOf : early.isOf file = true) :
    MetBefore (all ++ [item]) file item.1.filePath := by
  refine ⟨early, List.mem_append_left _ member, isOf, fun late among ofFile => ?_⟩
  rcases List.mem_append.mp among with old | new
  · rw [fresh late old] at ofFile
    cases ofFile
  · rw [List.mem_singleton.mp new]
    exact later early member

theorem Groups.nil : Groups [] [] :=
  ⟨nofun, nofun, nofun, nofun, List.Pairwise.nil, List.Pairwise.nil⟩

/-- A violation that is added changes the members of the group of its file only. -/
theorem filter_isOf_append (all : List Placed) (item : Placed) (file : Json) :
    ((all ++ [item]).filter (Placed.isOf file)).map Prod.fst =
      (all.filter (Placed.isOf file)).map Prod.fst ++
        if Json.same item.1.filePath file then [item.1] else [] := by
  rw [List.filter_append, List.map_append]
  congr 1
  by_cases here : Json.same item.1.filePath file = true
  · rw [List.filter_cons_of_pos (show item.isOf file = true from here), if_pos here]
    rfl
  · rw [List.filter_cons_of_neg (show ¬ item.isOf file = true from here), if_neg here]
    rfl

theorem Groups.add_known (known : Groups all groups) (isKey : item.1.filePath.isKey = true)
    (later : ∀ early ∈ all, early.2 < item.2)
    (among : item.1.filePath.isAmong (groups.map Prod.fst) = true) :
    Groups (all ++ [item]) (addToGroup item.1 groups) := by
  rw [addToGroup_of_known isKey known.apart among]
  let extend (group : Json × List Violation) : Json × List Violation :=
    if Json.same item.1.filePath group.1 then (group.1, group.2 ++ [item.1]) else group
  have files : ∀ group, (extend group).1 = group.1 := by
    intro group
    dsimp only [extend]
    split <;> rfl
  have sameFiles : (groups.map extend).map Prod.fst = groups.map Prod.fst := by
    rw [List.map_map]
    exact List.map_congr_left fun group _ => files group
  change Groups (all ++ [item]) (groups.map extend)
  refine ⟨?_, ?_, ?_, ?_, ?_, ?_⟩
  · rw [List.forall_mem_map]
    intro group member
    rw [files]
    exact known.keys group member
  · rw [List.forall_mem_map]
    intro group member
    rw [files, filter_isOf_append, ← known.members group member]
    dsimp only [extend]
    split <;> simp
  · rw [List.forall_mem_map]
    intro group member
    rw [files]
    obtain ⟨other, among, isOf⟩ := known.filled group member
    exact ⟨other, List.mem_append_left _ among, isOf⟩
  · rw [sameFiles]
    intro other member
    rcases List.mem_append.mp member with old | new
    · exact known.covers other old
    · rw [List.mem_singleton.mp new]
      exact among
  · rw [sameFiles]
    exact known.apart
  · rw [sameFiles]
    exact known.met.imp fun met => met.append later

theorem Groups.add_new (known : Groups all groups) (isKey : item.1.filePath.isKey = true)
    (later : ∀ early ∈ all, early.2 < item.2)
    (fresh : item.1.filePath.isAmong (groups.map Prod.fst) = false) :
    Groups (all ++ [item]) (addToGroup item.1 groups) := by
  rw [addToGroup_of_new fresh]
  have unlike : ∀ group ∈ groups, Json.same item.1.filePath group.1 = false := by
    intro group member
    have none := List.any_eq_false.mp fresh group.1 (List.mem_map_of_mem member)
    simpa using none
  have absent : ∀ other ∈ all, other.isOf item.1.filePath = false := by
    intro other member
    cases found : other.isOf item.1.filePath with
    | false => rfl
    | true =>
        obtain ⟨file, listed, same⟩ := List.any_eq_true.mp (known.covers other member)
        obtain ⟨group, among, rfl⟩ := List.mem_map.mp listed
        have differs := unlike group among
        rw [Json.same_of_common (Json.isKey_of_same_key isKey found) found same] at differs
        cases differs
  refine ⟨?_, ?_, ?_, ?_, ?_, ?_⟩
  · intro group member
    rcases List.mem_append.mp member with old | new
    · exact known.keys group old
    · rw [List.mem_singleton.mp new]
      exact isKey
  · intro group member
    rcases List.mem_append.mp member with old | new
    · rw [filter_isOf_append, unlike group old, ← known.members group old]
      simp
    · rw [List.mem_singleton.mp new, filter_isOf_append, if_pos (Json.same_self isKey),
        List.filter_eq_nil_iff.mpr fun other among => by simp [absent other among]]
      rfl
  · intro group member
    rcases List.mem_append.mp member with old | new
    · obtain ⟨other, among, isOf⟩ := known.filled group old
      exact ⟨other, List.mem_append_left _ among, isOf⟩
    · rw [List.mem_singleton.mp new]
      exact ⟨item, List.mem_append_right _ List.mem_cons_self, Json.same_self isKey⟩
  · intro other member
    rw [List.map_append, Json.isAmong, List.any_append]
    rcases List.mem_append.mp member with old | new
    · exact Bool.or_eq_true_iff.mpr (Or.inl (known.covers other old))
    · rw [List.mem_singleton.mp new]
      simp [Json.same_self isKey]
  · rw [List.map_append, List.pairwise_append]
    refine ⟨known.apart, by simp, fun file listed other new => ?_⟩
    obtain ⟨group, among, rfl⟩ := List.mem_map.mp listed
    obtain rfl : other = item.1.filePath := by simpa using new
    cases same : Json.same group.1 item.1.filePath with
    | false => rfl
    | true =>
        have equal := (Json.same_iff (known.keys group among)).mp same
        rw [← unlike group among, (Json.same_iff isKey).mpr equal.symm]
  · rw [List.map_append, List.pairwise_append]
    refine ⟨known.met.imp fun met => met.append later, by simp, fun file listed other new => ?_⟩
    obtain ⟨group, among, rfl⟩ := List.mem_map.mp listed
    obtain rfl : other = item.1.filePath := by simpa using new
    obtain ⟨early, there, isOf⟩ := known.filled group among
    exact .of_new there absent later isOf

theorem groups_groupByFile (increasing : all.Pairwise fun first second => first.2 < second.2)
    (keys : ∀ item ∈ all, item.1.filePath.isKey = true) :
    Groups all (groupByFile (all.map Prod.fst)) := by
  induction all using List.reverseRecOn with
  | nil => exact .nil
  | append_singleton all item induction =>
      obtain ⟨early, _, later⟩ := List.pairwise_append.mp increasing
      have before : ∀ other ∈ all, other.2 < item.2 := fun other member =>
        later other member item List.mem_cons_self
      have known := induction early fun other member => keys other (List.mem_append_left _ member)
      have isKey := keys item (List.mem_append_right _ List.mem_cons_self)
      have added : groupByFile ((all ++ [item]).map Prod.fst) =
          addToGroup item.1 (groupByFile (all.map Prod.fst)) := by
        rw [List.map_append, groupByFile, List.foldl_append]
        rfl
      rw [added]
      cases among : item.1.filePath.isAmong ((groupByFile (all.map Prod.fst)).map Prod.fst) with
      | true => exact known.add_known isKey before among
      | false => exact known.add_new isKey before among

end Groups

end Restyle
