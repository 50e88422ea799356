import Mathlib.Data.List.DropRight
import Restyle.Proofs.Text.Utf8
import Restyle.Text.Classes
import Restyle.Text.Parts

/-!
# Trimmed texts

Trimming takes blanks off the ends of a text and stops at the first character that
is not blank.  A lead is taken off the texts that start with it.  Reading a text again
changes nothing before its first carriage return.
-/

namespace Restyle.Text

variable {text lead rest : List Char} {character : Char}

theorem inRanges_eq_false {code : Nat} {ranges : List (Nat × Nat)}
    (apart : ∀ range ∈ ranges, code < range.1 ∨ range.2 < code) : inRanges code ranges = false := by
  induction ranges with
  | nil => rfl
  | cons range ranges induction =>
      obtain ⟨first, others⟩ := List.forall_mem_cons.mp apart
      rw [inRanges]
      split
      · rw [decide_eq_false_iff_not]
        omega
      · exact induction others

theorem exists_range_of_inRanges {code : Nat} {ranges : List (Nat × Nat)}
    (within : inRanges code ranges = true) : ∃ range ∈ ranges, range.1 ≤ code ∧ code ≤ range.2 := by
  induction ranges with
  | nil => cases within
  | cons range ranges induction =>
      rw [inRanges] at within
      split at within
      · rename_i least
        exact ⟨range, List.mem_cons_self, of_decide_eq_true within, least⟩
      · obtain ⟨other, among, found⟩ := induction within
        exact ⟨other, List.mem_cons_of_mem _ among, found⟩

theorem dropLead?_eq_some : dropLead? lead text = some rest ↔ text = lead ++ rest := by
  fun_induction dropLead? lead text with
  | case1 text => simp
  | case2 => simp
  | case3 first lead character text same induction =>
      rw [induction, List.cons_append, List.cons.injEq, eq_of_beq same]
      simp
  | case4 first lead character text other =>
      have apart : first ≠ character := fun same => other (beq_iff_eq.mpr same)
      simp [apart.symm]

theorem trimRight_eq_rdropWhile (text : List Char) : trimRight text = text.rdropWhile isBlank := rfl

/-- Whether a text starts with a character that is not blank. -/
def StartsSolid (text : List Char) : Prop :=
  ∃ first rest, text = first :: rest ∧ isBlank first = false

theorem StartsSolid.append (starts : StartsSolid text) (rest : List Char) :
    StartsSolid (text ++ rest) := by
  obtain ⟨first, others, rfl, solid⟩ := starts
  exact ⟨first, others ++ rest, rfl, solid⟩

theorem StartsSolid.trimLeft_append (starts : StartsSolid text)
    (blank : ∀ character ∈ lead, isBlank character = true) : trimLeft (lead ++ text) = text := by
  obtain ⟨first, rest, rfl, solid⟩ := starts
  rw [trimLeft, List.dropWhile_append_of_pos blank, List.dropWhile_cons_of_neg (by simp [solid])]

theorem startsSolid_trimLeft (some : trimLeft text ≠ []) : StartsSolid (trimLeft text) := by
  obtain ⟨first, rest, spelled⟩ := List.exists_cons_of_ne_nil some
  refine ⟨first, rest, spelled, ?_⟩
  have stops := List.head?_dropWhile_not isBlank text
  rw [trimLeft] at spelled
  rw [spelled] at stops
  exact stops

theorem StartsSolid.trimLeft_eq (starts : StartsSolid text) : trimLeft text = text :=
  starts.trimLeft_append (List.forall_mem_nil _)

theorem trimRight_append_cons (solid : isBlank character = false) (lead rest : List Char) :
    trimRight (lead ++ character :: rest) = lead ++ character :: trimRight rest := by
  induction rest using List.reverseRecOn with
  | nil =>
      show (lead ++ [character]).rdropWhile isBlank = lead ++ [character]
      rw [List.rdropWhile_concat, if_neg (by simp [solid])]
  | append_singleton rest last induction =>
      simp only [trimRight_eq_rdropWhile] at induction ⊢
      rw [← List.cons_append, ← List.append_assoc, List.rdropWhile_concat, List.rdropWhile_concat]
      split
      · exact induction
      · rw [List.append_assoc, List.cons_append]

theorem mem_of_mem_trimRight (member : character ∈ trimRight text) : character ∈ text :=
  (List.rdropWhile_prefix isBlank text).subset member

theorem mem_of_mem_trim (member : character ∈ trim text) : character ∈ text :=
  (List.dropWhile_sublist isBlank).subset (mem_of_mem_trimRight member)

theorem trim_of_solid (solid : ∀ character ∈ text, isBlank character = false) :
    trim text = text := by
  have untouched : trimLeft text = text := by
    cases text with
    | nil => rfl
    | cons first rest =>
        rw [trimLeft, List.dropWhile_cons_of_neg]
        simp [solid first List.mem_cons_self]
  rw [trim, untouched]
  apply List.rdropWhile_eq_self_iff.mpr
  intro some
  simp [solid _ (List.getLast_mem some)]

/-! ## Reading again -/

theorem mem_unifyBreaks (member : character ∈ unifyBreaks text) :
    character ∈ text ∨ character = '\n' := by
  fun_induction unifyBreaks text with
  | case1 => cases member
  | case2 rest induction =>
      rcases List.mem_cons.mp member with here | later
      · exact Or.inr here
      · exact (induction later).imp_left fun found =>
          List.mem_cons_of_mem _ (List.mem_cons_of_mem _ found)
  | case3 rest other induction =>
      rcases List.mem_cons.mp member with here | later
      · exact Or.inr here
      · exact (induction later).imp_left (List.mem_cons_of_mem _)
  | case4 first rest _ _ induction =>
      rcases List.mem_cons.mp member with rfl | later
      · exact Or.inl List.mem_cons_self
      · exact (induction later).imp_left (List.mem_cons_of_mem _)

theorem unifyBreaks_append (absent : '\r' ∉ lead) (rest : List Char) :
    unifyBreaks (lead ++ rest) = lead ++ unifyBreaks rest := by
  induction lead with
  | nil => rfl
  | cons first lead induction =>
      obtain ⟨other, later⟩ := not_or.mp (List.mem_cons.not.mp absent)
      rw [List.cons_append, unifyBreaks, induction later, List.cons_append]
      · intro _ same
        exact absurd same.symm other
      · intro same
        exact absurd same.symm other

/-- A break does not reach over a character that is no line feed. -/
theorem unifyBreaks_append_cons (other : character ≠ '\n') (text rest : List Char) :
    unifyBreaks (text ++ character :: rest) =
      unifyBreaks text ++ unifyBreaks (character :: rest) := by
  fun_induction unifyBreaks text with
  | case1 => rfl
  | case2 text induction =>
      rw [List.cons_append, List.cons_append, unifyBreaks, induction, List.cons_append]
  | case3 text single induction =>
      rw [List.cons_append, unifyBreaks, induction, List.cons_append]
      cases text with
      | nil =>
          intro _ same
          exact other (List.cons.inj same).1
      | cons second text =>
          intro _ same
          exact single _ (congrArg (· :: text) (List.cons.inj same).1)
  | case4 first text paired single induction =>
      rw [List.cons_append, unifyBreaks, induction, List.cons_append]
      · intro _ same
        exact absurd same single
      · exact single

theorem unifyBreaks_between (leading : '\r' ∉ lead) (other : character ≠ '\n')
    (trailing : '\r' ∉ character :: rest) (text : List Char) :
    unifyBreaks (lead ++ (text ++ character :: rest)) =
      lead ++ (unifyBreaks text ++ character :: rest) := by
  rw [unifyBreaks_append leading, unifyBreaks_append_cons other, unifyBreaks_of_not_mem trailing]

end Restyle.Text
