import Restyle.Json.Table
import Restyle.Proofs.Json.Documents

/-!
# Tables and their objects

A table is written as an object, each row under the name of its key, and read back
by setting the fields one after another.  Where the names are those of texts, each
once, the table comes back as it was.
-/

namespace Restyle

namespace Json

/-- The fields after those of a second list are set, one after another. -/
def setFields (start fields : List (String × Json)) : List (String × Json) :=
  fields.foldl (fun known field => setField field.1 field.2 known) start

theorem isTidy_setFields {start fields : List (String × Json)} (known : IsTidy (.object start))
    (tidy : ∀ field ∈ fields, IsName field.1 ∧ field.2.IsTidy) :
    IsTidy (.object (setFields start fields)) := by
  induction fields generalizing start with
  | nil => exact known
  | cons field fields induction =>
      obtain ⟨first, later⟩ := List.forall_mem_cons.mp tidy
      exact induction (isTidy_setField first.1 first.2 known) later

theorem map_fst_setFields (start fields : List (String × Json)) :
    ∃ more, (setFields start fields).map Prod.fst = start.map Prod.fst ++ more := by
  induction fields generalizing start with
  | nil => exact ⟨[], (List.append_nil _).symm⟩
  | cons field fields induction =>
      obtain ⟨more, names⟩ := induction (setField field.1 field.2 start)
      rw [map_fst_setField] at names
      split at names
      · exact ⟨more, names⟩
      · rw [List.append_assoc] at names
        exact ⟨field.1 :: more, names⟩

theorem setField_append {name : String} {value old : Json} {known later : List (String × Json)}
    (fresh : name ∉ known.map Prod.fst) :
    setField name value (known ++ (name, old) :: later) = known ++ (name, value) :: later := by
  induction known with
  | nil => simp [setField]
  | cons field known induction =>
      rw [List.map_cons, List.mem_cons, not_or] at fresh
      rw [List.cons_append, setField, if_neg fun same => fresh.1 same.symm, induction fresh.2]
      rfl

/-- Fields that name those already there, in their order, and then others, take
their place. -/
theorem setFields_of_names {start fields : List (String × Json)} {more : List String}
    (names : fields.map Prod.fst = start.map Prod.fst ++ more)
    (apart : (fields.map Prod.fst).Nodup) : setFields start fields = fields := by
  -- `known` holds the fields that are set already, `start` those that wait for their value.
  have grows : ∀ known, ((known ++ fields).map Prod.fst).Nodup →
      setFields (known ++ start) fields = known ++ fields := by
    clear apart
    induction fields generalizing start more with
    | nil =>
        obtain ⟨rfl, _⟩ : start = [] ∧ more = [] := by simpa using names
        intro known _
        rfl
    | cons field fields induction =>
        intro known apart
        have fresh := not_mem_of_nodup apart
        rw [List.append_cons] at apart ⊢
        cases start with
        | nil =>
            show setFields (setField field.1 field.2 (known ++ [])) fields = _
            rw [List.append_nil, setField_of_not_mem fresh]
            have names : fields.map Prod.fst =
                List.map Prod.fst ([] : List (String × Json)) ++ fields.map Prod.fst := rfl
            have placed := induction names _ apart
            rwa [List.append_nil] at placed
        | cons waiting start =>
            obtain ⟨same, others⟩ := List.cons.inj names
            obtain ⟨name, old⟩ := waiting
            obtain rfl : field.1 = name := same
            show setFields (setField field.1 field.2 (known ++ (field.1, old) :: start)) fields = _
            rw [setField_append fresh, List.append_cons]
            exact induction others _ apart
  exact grows [] apart

end Json

namespace Table

theorem mem_set {key value : Json} {table : Table} {row : Json × Json}
    (member : row ∈ table.set key value) : row.2 = value ∨ row ∈ table := by
  induction table with
  | nil =>
      obtain rfl := List.mem_singleton.mp member
      exact Or.inl rfl
  | cons first rows induction =>
      rw [Table.set] at member
      split at member
      · rcases List.mem_cons.mp member with rfl | later
        · exact Or.inl rfl
        · exact Or.inr (List.mem_cons_of_mem _ later)
      · rcases List.mem_cons.mp member with rfl | later
        · exact Or.inr List.mem_cons_self
        · exact (induction later).imp id (List.mem_cons_of_mem _)

theorem nodup_set {key value : Json} {table : Table} (distinct : (table.map Prod.snd).Nodup)
    (fresh : value ∉ table.map Prod.snd) : ((table.set key value).map Prod.snd).Nodup := by
  induction table with
  | nil => exact List.nodup_singleton value
  | cons row rows induction =>
      rw [List.map_cons, List.nodup_cons] at distinct
      rw [List.map_cons, List.mem_cons, not_or] at fresh
      rw [Table.set]
      split
      · exact List.nodup_cons.mpr ⟨fresh.2, distinct.2⟩
      · apply List.nodup_cons.mpr
        refine ⟨?_, induction distinct.2 fresh.2⟩
        intro member
        obtain ⟨other, among, same⟩ := List.mem_map.mp member
        rcases mem_set among with new | old
        · exact fresh.1 (new ▸ same)
        · exact distinct.1 (same ▸ List.mem_map_of_mem old)

/-- The table with named rows. -/
def ofFields (fields : List (String × Json)) : Table :=
  fields.map fun field => (.text field.1, field.2)

theorem same_texts (left right : String) :
    Json.same (.text left) (.text right) = decide (right = left) := by
  rw [Json.same, Bool.beq_eq_decide_eq]
  exact decide_eq_decide.mpr eq_comm

theorem set_ofFields (name : String) (value : Json) (fields : List (String × Json)) :
    set (.text name) value (ofFields fields) = ofFields (Json.setField name value fields) := by
  induction fields with
  | nil => rfl
  | cons field fields induction =>
      obtain ⟨key, old⟩ := field
      show set (.text name) value ((.text key, old) :: ofFields fields) = _
      rw [set, Json.setField, same_texts, induction]
      by_cases here : key = name <;>
      · simp only [here, decide_true, decide_false, if_true, if_false, Bool.false_eq_true]
        rfl

theorem get?_ofFields (name : String) (fields : List (String × Json)) :
    get? (.text name) (ofFields fields) = Json.lookup name fields := by
  induction fields with
  | nil => rfl
  | cons field fields induction =>
      obtain ⟨key, value⟩ := field
      show get? (.text name) ((.text key, value) :: ofFields fields) = _
      rw [get?, Json.lookup, same_texts, induction]
      simp only [decide_eq_true_eq]

/-- The table of the fields of an object, each under the text that its name spells. -/
def ofNames (fields : List (String × Json)) : Table :=
  fields.map fun field => (Json.nameText field.1, field.2)

theorem ofFields_eq_ofNames (fields : List (String × Json)) :
    ofFields fields =
      ofNames (fields.map fun field => (Json.nameOf (Text.codes field.1.toList), field.2)) := by
  unfold ofFields ofNames
  rw [List.map_map]
  refine List.map_congr_left fun field _ => ?_
  simp only [Function.comp, Json.nameText_nameOf, Json.ofCodes_codes, String.ofList_toList]

theorem keyName_nameText {name : String} (isName : Json.IsName name) :
    keyName (Json.nameText name) = name := by
  obtain ⟨text, _, rfl⟩ := isName
  rw [Json.nameText_nameOf]
  obtain ⟨content, rfl, made⟩ | ⟨_, made⟩ := Json.ofCodes_cases text <;> rw [made] <;> rfl

theorem same_nameTexts {left right : String} (isName : Json.IsName left)
    (another : Json.IsName right) :
    Json.same (Json.nameText left) (Json.nameText right) = decide (right = left) := by
  obtain ⟨text, _, rfl⟩ := isName
  obtain ⟨other, _, rfl⟩ := another
  rw [Json.nameText_nameOf, Json.nameText_nameOf, Bool.eq_iff_iff, Json.same_ofCodes,
    decide_eq_true_eq]
  constructor
  · rintro rfl
    rfl
  · exact fun equal => (Json.nameOf_injective equal).symm

variable {start fields rows : List (String × Json)}

theorem toJson_ofNames (areNames : Json.AreNames (fields.map Prod.fst)) :
    (ofNames fields).toJson = .object fields := by
  unfold toJson ofNames
  rw [List.map_map]
  refine congrArg Json.object ((List.map_congr_left fun field member => ?_).trans (List.map_id _))
  show (keyName (Json.nameText field.1), field.2) = field
  rw [keyName_nameText (areNames.spelled _ (List.mem_map_of_mem member))]

theorem set_ofNames {name : String} (isName : Json.IsName name) (value : Json)
    (areNames : ∀ other ∈ fields.map Prod.fst, Json.IsName other) :
    set (Json.nameText name) value (ofNames fields) = ofNames (Json.setField name value fields) := by
  induction fields with
  | nil => rfl
  | cons field fields induction =>
      obtain ⟨key, old⟩ := field
      obtain ⟨isKey, others⟩ := List.forall_mem_cons.mp areNames
      show set (Json.nameText name) value ((Json.nameText key, old) :: ofNames fields) = _
      rw [set, Json.setField, same_nameTexts isName isKey, induction others]
      by_cases here : key = name <;>
      · simp only [here, decide_true, decide_false, if_true, if_false, Bool.false_eq_true]
        rfl

theorem update_ofNames (known : Json.AreNames (start.map Prod.fst))
    (spelled : ∀ name ∈ fields.map Prod.fst, Json.IsName name) :
    update (ofNames start) (.object fields) = .ok (ofNames (Json.setFields start fields)) := by
  refine congrArg Except.ok ?_
  induction fields generalizing start with
  | nil => rfl
  | cons field fields induction =>
      obtain ⟨isName, others⟩ := List.forall_mem_cons.mp spelled
      rw [List.foldl_cons, set_ofNames isName field.2 known.spelled,
        induction (known.setField isName field.2) others]
      rfl

theorem update_toJson {more : List String} (known : Json.AreNames (start.map Prod.fst))
    (names : rows.map Prod.fst = start.map Prod.fst ++ more)
    (areNames : Json.AreNames (rows.map Prod.fst)) :
    update (ofNames start) (ofNames rows).toJson = .ok (ofNames rows) := by
  rw [toJson_ofNames areNames, update_ofNames known areNames.spelled,
    Json.setFields_of_names names areNames.distinct]

end Table

end Restyle
