import Restyle.Workspace

/-!
# How workspaces evolve

A path leads to one place, whatever stands there: its names followed from the
root.  The operations on a workspace turn no directory into anything else, and
away from the places they are about they make directories at most.
`Workspace.Evolves` states this once; what a path leads to, and what is read
there, is then carried along every sequence of operations.
-/

namespace Restyle

/-- The place that a path leads to. -/
def Path.place (path : Path) : Place := Path.follow [] path.names

/-- Whether a place is on the way along a path, its end included. -/
def Path.Passes (path : Path) (place : Place) : Prop :=
  ∃ names, names <+: path.names ∧ place = Path.follow [] names

theorem Path.mem_follow {place names : List String} {name : String}
    (member : name ∈ Path.follow place names) : name ∈ place ∨ name ∈ names := by
  induction names generalizing place with
  | nil => exact Or.inl member
  | cons first names induction =>
      unfold Path.follow at member
      split at member
      · rcases induction member with above | later
        · exact Or.inl (List.dropLast_subset place above)
        · exact Or.inr (List.mem_cons_of_mem _ later)
      · rcases induction member with above | later
        · rcases List.mem_append.mp above with before | here
          · exact Or.inl before
          · exact Or.inr (List.mem_singleton.mp here ▸ List.mem_cons_self)
        · exact Or.inr (List.mem_cons_of_mem _ later)

theorem Path.mem_place {path : Path} {name : String} (member : name ∈ path.place) :
    name ∈ path.names := by
  rcases Path.mem_follow member with absent | named
  · cases absent
  · exact named

theorem Path.Passes.mem_names {path : Path} {place : Place} (passes : path.Passes place)
    {name : String} (member : name ∈ place) : name ∈ path.names := by
  obtain ⟨names, lead, rfl⟩ := passes
  rcases Path.mem_follow member with absent | named
  · cases absent
  · exact lead.subset named

namespace Workspace

variable {workspace before middle after : Workspace}

theorem lookup_putEntry_self (place : Place) (entry : Entry) (entries : List (Place × Entry)) :
    (putEntry place entry entries).lookup place = some entry := by
  induction entries with
  | nil => simp [putEntry]
  | cons first entries induction =>
      obtain ⟨other, old⟩ := first
      by_cases same : other = place
      · simp [putEntry, same]
      · have apart : (place == other) = false := by simp [Ne.symm same]
        simp [putEntry, same, List.lookup_cons, apart, induction]

theorem lookup_putEntry_other {place other : Place} (entry : Entry)
    (entries : List (Place × Entry)) (apart : other ≠ place) :
    (putEntry place entry entries).lookup other = entries.lookup other := by
  induction entries with
  | nil =>
      have unequal : (other == place) = false := by simp [apart]
      simp [putEntry, List.lookup_cons, unequal]
  | cons first entries induction =>
      obtain ⟨key, old⟩ := first
      by_cases same : key = place
      · subst key
        have unequal : (other == place) = false := by simp [apart]
        simp [putEntry, List.lookup_cons, unequal]
      · simp [putEntry, same, List.lookup_cons, induction]

theorem get?_put_self {place : Place} (entry : Entry) (below : place ≠ []) :
    (workspace.put place entry).get? place = some entry := by
  simp [put, get?, below, lookup_putEntry_self]

theorem get?_put_other {place other : Place} (entry : Entry) (apart : other ≠ place) :
    (workspace.put place entry).get? other = workspace.get? other := by
  simp [put, get?, lookup_putEntry_other entry _ apart]

private theorem lookup_filter_self (place : Place) (entries : List (Place × Entry)) :
    (entries.filter fun entry => entry.1 != place).lookup place = none := by
  rw [List.lookup_eq_none_iff]
  intro entry member
  have kept : entry.1 ≠ place := bne_iff_ne.mp (List.mem_filter.mp member).2
  exact bne_iff_ne.mpr kept.symm

private theorem lookup_filter_other {place other : Place} (apart : other ≠ place)
    (entries : List (Place × Entry)) :
    (entries.filter fun entry => entry.1 != place).lookup other = entries.lookup other := by
  induction entries with
  | nil => rfl
  | cons first entries induction =>
      obtain ⟨key, entry⟩ := first
      by_cases same : key = place
      · subst key
        have unequal : (other == place) = false := by simp [apart]
        simp [List.lookup_cons, unequal, induction]
      · simp [same, List.lookup_cons, induction]

theorem get?_erase_self {place : Place} (below : place ≠ []) :
    (workspace.erase place).get? place = none := by
  simp only [erase, get?, if_neg below]
  exact lookup_filter_self place workspace.entries

theorem get?_erase_other {place other : Place} (apart : other ≠ place) :
    (workspace.erase place).get? other = workspace.get? other := by
  simp only [erase, get?]
  rw [lookup_filter_other apart]

theorem mem_of_get? {place : Place} {entry : Entry}
    (standing : workspace.get? place = some entry) :
    place = [] ∨ (place, entry) ∈ workspace.entries := by
  unfold get? at standing
  split at standing
  · exact Or.inl ‹_›
  · obtain ⟨before, later, whole, _⟩ := List.lookup_eq_some_iff.mp standing
    rw [whole]
    exact Or.inr (by simp)

theorem ne_nil_of_not_directory {place : Place}
    (other : workspace.get? place ≠ some .directory) : place ≠ [] := by
  intro root
  exact other (by simp [get?, root])

theorem ne_nil_of_file {place : Place} {bytes : List UInt8} {mode : Nat}
    (standing : workspace.get? place = some (.file bytes mode)) : place ≠ [] := by
  have free : workspace.get? place ≠ some .directory := by simp [standing]
  exact ne_nil_of_not_directory free

theorem locateFrom_eq_follow {place found : Place} {names : List String}
    (located : workspace.locateFrom place names = .ok found) :
    found = Path.follow place names := by
  induction names generalizing place with
  | nil =>
      simp only [locateFrom, Except.ok.injEq] at located
      exact located.symm
  | cons name names induction =>
      unfold locateFrom at located
      split at located
      · cases located
      · cases located
      · split at located
        · cases located
        · split at located
          · rename_i up
            simpa [Path.follow, up] using induction located
          · rename_i down
            simpa [Path.follow, down] using induction located

theorem locate_eq_place {path : Path} {found : Place}
    (located : workspace.locate path = .ok found) : found = path.place := by
  unfold locate at located
  split at located
  · cases located
  · exact locateFrom_eq_follow located

/-- No directory is lost, new ones stand where directories may be made, and away
from the touched places nothing else happens. -/
structure Evolves (touched made : Place → Prop) (before after : Workspace) : Prop where
  keepsDirectory : ∀ place, before.get? place = some .directory →
    after.get? place = some .directory
  newDirectory : ∀ place, after.get? place = some .directory →
    before.get? place = some .directory ∨ made place
  keepsOther : ∀ place, ¬ touched place → after.get? place = before.get? place ∨
    (before.get? place = none ∧ after.get? place = some .directory)

namespace Evolves

variable {touched wider made allowed : Place → Prop}

theorem refl (touched made : Place → Prop) (workspace : Workspace) :
    Evolves touched made workspace workspace where
  keepsDirectory := fun _ directory => directory
  newDirectory := fun _ directory => Or.inl directory
  keepsOther := fun _ _ => Or.inl rfl

theorem mono (evolved : Evolves touched made before after)
    (within : ∀ place, touched place → wider place)
    (permitted : ∀ place, made place → allowed place) :
    Evolves wider allowed before after := by
  constructor
  · exact evolved.keepsDirectory
  · intro place directory
    exact (evolved.newDirectory place directory).imp_right (permitted place)
  · intro place outside
    exact evolved.keepsOther place (fun member => outside (within place member))

theorem touching (evolved : Evolves touched made before after)
    (within : ∀ place, touched place → wider place) : Evolves wider made before after :=
  evolved.mono within fun _ permitted => permitted

theorem settled (evolved : Evolves touched made before after)
    (known : ∀ place, made place → before.get? place = some .directory) :
    Evolves touched allowed before after := by
  constructor
  · exact evolved.keepsDirectory
  · intro place directory
    rcases evolved.newDirectory place directory with old | permitted
    · exact Or.inl old
    · exact Or.inl (known place permitted)
  · exact evolved.keepsOther

theorem trans (first : Evolves touched made before middle)
    (second : Evolves touched made middle after) : Evolves touched made before after := by
  constructor
  · intro place directory
    exact second.keepsDirectory place (first.keepsDirectory place directory)
  · intro place directory
    rcases second.newDirectory place directory with early | late
    · exact first.newDirectory place early
    · exact Or.inr late
  · intro place outside
    rcases first.keepsOther place outside with kept | ⟨absent, made⟩
    · rcases second.keepsOther place outside with again | ⟨absent, made⟩
      · exact Or.inl (again.trans kept)
      · exact Or.inr ⟨kept ▸ absent, made⟩
    · exact Or.inr ⟨absent, second.keepsDirectory place made⟩

theorem get?_file (evolved : Evolves touched made before after) {place : Place}
    (outside : ¬ touched place) {bytes : List UInt8} {mode : Nat}
    (file : before.get? place = some (.file bytes mode)) :
    after.get? place = some (.file bytes mode) := by
  rcases evolved.keepsOther place outside with kept | ⟨absent, _⟩
  · exact kept.trans file
  · rw [absent] at file
    cases file

theorem locateFrom (evolved : Evolves touched made before after) {place found : Place}
    {names : List String} (located : before.locateFrom place names = .ok found) :
    after.locateFrom place names = .ok found := by
  induction names generalizing place with
  | nil => exact located
  | cons name names induction =>
      unfold Workspace.locateFrom at located ⊢
      split at located
      · cases located
      · cases located
      · rename_i directory
        rw [evolved.keepsDirectory place directory]
        dsimp only
        split at located
        · cases located
        · rename_i short
          rw [if_neg short]
          split at located
          · rename_i up
            rw [if_pos up]
            exact induction located
          · rename_i down
            rw [if_neg down]
            exact induction located

theorem locate (evolved : Evolves touched made before after) {path : Path} {found : Place}
    (located : before.locate path = .ok found) : after.locate path = .ok found := by
  unfold Workspace.locate at located ⊢
  split at located
  · cases located
  · rename_i short
    rw [if_neg short]
    exact evolved.locateFrom located

end Evolves

theorem evolves_putFile {made : Place → Prop} {place : Place} {bytes : List UInt8} {mode : Nat}
    (free : workspace.get? place ≠ some .directory) :
    Evolves (· = place) made workspace (workspace.put place (.file bytes mode)) := by
  constructor
  · intro other directory
    have apart : other ≠ place := by
      intro same
      exact free (same ▸ directory)
    rw [get?_put_other _ apart]
    exact directory
  · intro other directory
    by_cases same : other = place
    · rw [same, get?_put_self _ (ne_nil_of_not_directory free)] at directory
      cases directory
    · rw [get?_put_other _ same] at directory
      exact Or.inl directory
  · intro other apart
    exact Or.inl (get?_put_other _ apart)

theorem evolves_putDirectory {touched : Place → Prop} {place : Place}
    (free : workspace.get? place = none) :
    Evolves touched (· = place) workspace (workspace.put place .directory) := by
  have below : place ≠ [] := by
    intro root
    simp [get?, root] at free
  constructor
  · intro other directory
    by_cases same : other = place
    · rw [same, free] at directory
      cases directory
    · rw [get?_put_other _ same]
      exact directory
  · intro other directory
    by_cases same : other = place
    · exact Or.inr same
    · rw [get?_put_other _ same] at directory
      exact Or.inl directory
  · intro other _
    by_cases same : other = place
    · subst other
      exact Or.inr ⟨free, get?_put_self _ below⟩
    · exact Or.inl (get?_put_other _ same)

theorem evolves_erase {made : Place → Prop} {place : Place}
    (free : workspace.get? place ≠ some .directory) :
    Evolves (· = place) made workspace (workspace.erase place) := by
  constructor
  · intro other directory
    have apart : other ≠ place := by
      intro same
      exact free (same ▸ directory)
    rw [get?_erase_other apart]
    exact directory
  · intro other directory
    by_cases same : other = place
    · rw [same, get?_erase_self (ne_nil_of_not_directory free)] at directory
      cases directory
    · rw [get?_erase_other same] at directory
      exact Or.inl directory
  · intro other apart
    exact Or.inl (get?_erase_other apart)

end Workspace

end Restyle
