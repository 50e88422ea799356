import Restyle.Proofs.Computation
import Restyle.Proofs.Json.Keys
import Restyle.Resolution

/-!
# Faults of values

How each use of a value fails.  A value without items cannot be listed, a field
that has to be there can be absent, and of the numbers only two sorts do not serve:
an infinite number has no integer, and a vast integer no real.
-/

namespace Restyle

namespace Json

def HoldsItems (value : Json) : Prop :=
  value.kind = .array ∨ value.kind = .text ∨ value.kind = .object

/-- Whether a value is an infinite number. -/
def IsInfinite (value : Json) : Prop :=
  ∃ negative, value = .real (.infinite negative)

/-- Whether a value is an integer that no finite real is near to. -/
def IsVast (value : Json) : Prop :=
  ∃ number negative, value = .integer number ∧ Binary64.ofInt number = .infinite negative

/-- Whether a lone surrogate stands in a value, in a text of it or in a name. -/
inductive HoldsSurrogate : Json → Prop where
  | text {codes : List Text.Code} {offset : Fin 0x800} (member : .surrogate offset ∈ codes) :
      HoldsSurrogate (.torn codes)
  | item {items : List Json} {item : Json} (member : item ∈ items)
      (inner : HoldsSurrogate item) : HoldsSurrogate (.array items)
  | name {fields : List (String × Json)} {field : String × Json} {offset : Fin 0x800}
      (member : field ∈ fields) (spelled : .surrogate offset ∈ Text.codesOf field.1.toList) :
      HoldsSurrogate (.object fields)
  | field {fields : List (String × Json)} {field : String × Json} (member : field ∈ fields)
      (inner : HoldsSurrogate field.2) : HoldsSurrogate (.object fields)

variable {value : Json} {fault : Fault} {name : String} {fields : List (String × Json)}

theorem exists_items_iff : (∃ items, value.items = .ok items) ↔ value.HoldsItems := by
  unfold HoldsItems
  cases value <;> simp [items, kind]

theorem items_eq_error_iff :
    value.items = .error fault ↔ ¬ value.HoldsItems ∧ fault = .notIterable value.kind := by
  unfold HoldsItems
  cases value <;> simp [items, kind, eq_comm]

theorem items_fails : FailsAs (fun fault => fault.category = .kind) value.items := by
  intro fault failed
  rw [(items_eq_error_iff.mp failed).2]
  rfl

/-- Only an array has objects among its items. -/
theorem eq_array_of_mem_items {items : List Json} (listed : value.items = .ok items)
    (member : .object fields ∈ items) : value = .array items := by
  have text : ∀ {codes : List Text.Code}, ofCodes codes ≠ .object fields := by
    intro codes same
    have isKey := isKey_ofCodes codes
    rw [same] at isKey
    cases isKey
  cases value with
  | array values =>
      cases listed
      rfl
  | text content =>
      cases listed
      obtain ⟨_, _, same⟩ := List.mem_map.mp member
      cases same
  | torn codes =>
      cases listed
      obtain ⟨_, _, same⟩ := List.mem_map.mp member
      exact absurd same text
  | object others =>
      cases listed
      obtain ⟨_, _, same⟩ := List.mem_map.mp member
      exact absurd same text
  | _ => cases listed

theorem fields_fails : FailsAs (fun fault => fault.category = .operation) value.fields := by
  cases value with
  | object inner => exact .ok inner
  | _ => exact .error rfl

theorem field?_fails : FailsAs (fun fault => fault.category = .operation) (value.field? name) := by
  cases value with
  | object inner => exact .ok _
  | _ => exact .error rfl

theorem required_fails :
    FailsAs (fun fault => fault.category = .absence) (required name fields) := by
  unfold required
  split
  · exact .ok _
  · exact .error rfl

/-- An integer is not made of a value of the wrong kind or content, nor of an infinite
number. -/
theorem toInteger_fails :
    FailsAs (fun fault => (fault.category = .kind ∨ fault.category = .content) ∨
      fault = .infiniteInteger ∧ value.IsInfinite) value.toInteger := by
  cases value with
  | boolean truth => exact .ok _
  | integer number => exact .ok number
  | real number =>
      cases number with
      | finite negative mantissa exponent => exact .ok _
      | infinite negative => exact .error (Or.inr ⟨rfl, negative, rfl⟩)
      | notANumber => exact .error (Or.inl (Or.inr rfl))
  | text text =>
      rw [toInteger]
      split
      · exact .ok _
      · exact .error (Or.inl (Or.inr rfl))
      · exact .error (Or.inl (Or.inr rfl))
  | torn codes =>
      rw [toInteger]
      split <;> exact .error (Or.inl (Or.inr rfl))
  | null => exact .error (Or.inl (Or.inl rfl))
  | array items => exact .error (Or.inl (Or.inl rfl))
  | object fields => exact .error (Or.inl (Or.inl rfl))

theorem realOfInteger_fails {number : Int} :
    FailsAs (fun fault => fault = .beyondReals ∧ (integer number).IsVast)
      (realOfInteger number) := by
  unfold realOfInteger
  cases near : Binary64.ofInt number with
  | infinite negative => exact .error ⟨rfl, number, negative, rfl, near⟩
  | finite negative mantissa exponent => exact .ok _
  | notANumber => exact .ok _

theorem toReal_fails :
    FailsAs (fun fault => (fault.category = .kind ∨ fault.category = .content) ∨
      fault = .beyondReals ∧ value.IsVast) value.toReal := by
  cases value with
  | boolean truth => exact .ok _
  | integer number => exact realOfInteger_fails.mono fun _ vast => Or.inr vast
  | real number => exact .ok number
  | text text =>
      rw [toReal]
      split
      · exact .ok _
      · exact .error (Or.inl (Or.inr rfl))
  | torn codes => exact .error (Or.inl (Or.inr rfl))
  | null => exact .error (Or.inl (Or.inl rfl))
  | array items => exact .error (Or.inl (Or.inl rfl))
  | object fields => exact .error (Or.inl (Or.inl rfl))

/-- Whether the fields of an object give an infinite line or column. -/
def HasInfinitePlace (fields : List (String × Json)) : Prop :=
  ∃ name value, (name = "line" ∨ name = "column") ∧ lookup name fields = some value ∧
    value.IsInfinite

/-- Whether the fields of an object give a vast integer as the confidence. -/
def HasVastConfidence (fields : List (String × Json)) : Prop :=
  ∃ value, lookup "confidence" fields = some value ∧ value.IsVast

theorem lookup_of_fieldOr {default : Json} (found : fieldOr name default fields = value)
    (other : value ≠ default) : lookup name fields = some value := by
  unfold fieldOr at found
  cases known : lookup name fields with
  | none =>
      rw [known] at found
      exact absurd found.symm other
  | some known =>
      simp_all

/-- A place is not made of a value of the wrong kind or content, nor of an infinite
number. -/
theorem place_fails (named : name = "line" ∨ name = "column")
    (found : value.IsInfinite → lookup name fields = some value) :
    FailsAs (fun fault => (fault.category = .kind ∨ fault.category = .content) ∨
      fault = .infiniteInteger ∧ HasInfinitePlace fields) value.toInteger := by
  refine toInteger_fails.mono fun fault sort => ?_
  rcases sort with unfit | ⟨rfl, infinite⟩
  · exact Or.inl unfit
  · exact Or.inr ⟨rfl, name, value, named, found infinite, infinite⟩

theorem column_fails :
    FailsAs (fun fault => (fault.category = .kind ∨ fault.category = .content) ∨
      fault = .infiniteInteger ∧ HasInfinitePlace fields)
      (fieldOr "column" (.integer 0) fields).toInteger := by
  refine place_fails (Or.inr rfl) fun infinite => lookup_of_fieldOr rfl ?_
  obtain ⟨negative, isInfinite⟩ := infinite
  exact isInfinite ▸ nofun

/-! ## Surrogates -/

theorem areEncodable_iff {values : List Json} :
    areEncodable values = true ↔ ∀ value ∈ values, value.isEncodable = true := by
  induction values with
  | nil => simp [areEncodable]
  | cons value values induction => simp [areEncodable, induction]

theorem haveEncodable_iff {fields : List (String × Json)} :
    haveEncodable fields = true ↔ ∀ field ∈ fields,
      (∀ offset, .surrogate offset ∉ Text.codesOf field.1.toList) ∧
        field.2.isEncodable = true := by
  induction fields with
  | nil => simp [haveEncodable]
  | cons field fields induction =>
      obtain ⟨name, value⟩ := field
      have whole : (Text.characters? (Text.codesOf name.toList)).isSome = true ↔
          ∀ offset, .surrogate offset ∉ Text.codesOf name.toList := by
        rw [Option.isSome_iff_ne_none, ne_eq, Text.characters?_eq_none_iff, not_exists]
      simp [haveEncodable, induction, whole, and_assoc]

theorem HoldsSurrogate.not_encodable (holds : value.HoldsSurrogate) :
    value.isEncodable = false := by
  rw [Bool.eq_false_iff]
  induction holds with
  | text member =>
      rw [isEncodable, Text.characters?_eq_none_iff.mpr ⟨_, member⟩]
      exact Bool.false_ne_true
  | item member _ induction =>
      rw [isEncodable, ne_eq, areEncodable_iff]
      exact fun each => induction (each _ member)
  | name member spelled =>
      rw [isEncodable, ne_eq, haveEncodable_iff]
      exact fun each => (each _ member).1 _ spelled
  | field member _ induction =>
      rw [isEncodable, ne_eq, haveEncodable_iff]
      exact fun each => induction (each _ member).2

mutual

theorem holdsSurrogate_of_broken :
    ∀ {value : Json}, value.isEncodable = false → value.HoldsSurrogate
  | .torn codes, broken => by
      have missing : Text.characters? codes = none := by
        rwa [isEncodable, Option.isSome_eq_false_iff, Option.isNone_iff_eq_none] at broken
      obtain ⟨offset, member⟩ := Text.characters?_eq_none_iff.mp missing
      exact .text member
  | .array _, broken => holdsSurrogate_of_brokenItems broken
  | .object _, broken => holdsSurrogate_of_brokenFields broken

theorem holdsSurrogate_of_brokenItems :
    ∀ {items : List Json}, areEncodable items = false → (array items).HoldsSurrogate
  | item :: items, broken => by
      rw [areEncodable, Bool.and_eq_false_iff] at broken
      rcases broken with first | later
      · exact .item List.mem_cons_self (holdsSurrogate_of_broken first)
      · cases holdsSurrogate_of_brokenItems later with
        | item member inner => exact .item (List.mem_cons_of_mem _ member) inner

theorem holdsSurrogate_of_brokenFields :
    ∀ {fields : List (String × Json)}, haveEncodable fields = false →
      (object fields).HoldsSurrogate
  | (name, value) :: fields, broken => by
      rw [haveEncodable, Bool.and_eq_false_iff, Bool.and_eq_false_iff,
        Option.isSome_eq_false_iff, Option.isNone_iff_eq_none, Text.characters?_eq_none_iff] at broken
      rcases broken with (⟨offset, spelled⟩ | inner) | later
      · exact .name List.mem_cons_self spelled
      · exact .field List.mem_cons_self (holdsSurrogate_of_broken inner)
      · cases holdsSurrogate_of_brokenFields later with
        | name member spelled => exact .name (List.mem_cons_of_mem _ member) spelled
        | field member inner => exact .field (List.mem_cons_of_mem _ member) inner

end

/-- A value cannot be written in bytes exactly where a lone surrogate stands in it. -/
theorem isEncodable_eq_false_iff : value.isEncodable = false ↔ value.HoldsSurrogate :=
  ⟨holdsSurrogate_of_broken, HoldsSurrogate.not_encodable⟩

end Json

theorem Severity.ofJson_fails {value : Json} :
    FailsAs (fun fault => fault.category = .content) (Severity.ofJson value) := by
  unfold Severity.ofJson
  split
  · exact .ok _
  · exact .error rfl

theorem FixAction.ofJson_fails {document : Json} :
    FailsAs (fun fault => fault.category = .absence ∨ fault.category = .operation ∨
      fault.category = .content) (FixAction.ofJson document) := by
  refine .bind (Json.fields_fails.mono fun _ operation => Or.inr (Or.inl operation))
    fun fields _ => ?_
  have absent : ∀ {name : String}, FailsAs (fun fault => fault.category = .absence ∨
      fault.category = .operation ∨ fault.category = .content) (Json.required name fields) :=
    Json.required_fails.mono fun _ absence => Or.inl absence
  split
  · exact absent.bind fun _ _ => absent.bind fun _ _ => .ok _
  · exact absent.bind fun _ _ => absent.bind fun _ _ => .ok _
  · exact absent.bind fun _ _ => absent.bind fun _ _ => .ok _
  · exact absent.bind fun _ _ => .ok _
  · exact .error (Or.inr (Or.inr rfl))

end Restyle
