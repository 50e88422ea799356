import Restyle.Proofs.Stylesheet.Growth
import Restyle.Text.Parts

/-!
# Which names are taken

A promotion is refused when the stylesheet seems to define its name.  The check looks
for the name behind `@utility` and then at one more character only, so that it can take
the definition of a longer name for one of a shorter name, and overlook one of the
name itself.  What it finds are the names that were promoted before.
-/

namespace Restyle

open Text Activity

namespace Promotion

variable {name earlier : String} {text lead rest later : List Char} {sections : List Section}
  {start : String} {names : List String}

/-- Whether a word is not empty and holds neither blanks nor `@`. -/
structure IsSolid (word : String) : Prop where
  some : word.toList ≠ []
  solid : ∀ character ∈ word.toList, isBlank character = false
  plain : '@' ∉ word.toList

/-- Whether the definition of a name is taken for one of another name: it starts with that name,
and goes on as the end of that name does. -/
def Meets (earlier name : String) : Prop :=
  ∃ rest, earlier.toList = name.toList ++ rest ∧ endsName name.toList (rest ++ [' ']) = true

/-! ## Looking for a definition -/

theorem definesHere_of_not_prefix {name : List Char} (other : ¬ "@utility".toList <+: text) :
    definesHere name text = false := by
  unfold definesHere
  cases found : dropLead? "@utility".toList text with
  | none => rfl
  | some rest => exact absurd ⟨rest, (dropLead?_eq_some.mp found).symm⟩ other

theorem not_prefix_of_ne {character : Char} (other : character ≠ '@') :
    ¬ "@utility".toList <+: character :: rest := by
  intro leads
  exact other (List.cons_prefix_cons.mp leads).1.symm

/-- Behind `@utility` and a blank stands the name of the definition. -/
theorem definesHere_utility (named : IsSolid name) (defined : IsSolid earlier) :
    definesHere name.toList ("@utility ".toList ++ (earlier.toList ++ ' ' :: later)) = true ↔
      Meets earlier name := by
  obtain ⟨first, others, spelled⟩ := List.exists_cons_of_ne_nil defined.some
  have solid : isBlank first = false := defined.solid first (by simp [spelled])
  have behind : dropLead? "@utility".toList ("@utility ".toList ++ (earlier.toList ++ ' ' :: later)) =
      some (' ' :: (earlier.toList ++ ' ' :: later)) := dropLead?_eq_some.mpr rfl
  have gap : (' ' :: (earlier.toList ++ ' ' :: later)).takeWhile isBlank = [' '] := by
    rw [List.takeWhile_cons_of_pos (by decide), spelled, List.cons_append,
      List.takeWhile_cons_of_neg (by simp [solid])]
  have word : (' ' :: (earlier.toList ++ ' ' :: later)).dropWhile isBlank =
      earlier.toList ++ ' ' :: later := by
    rw [List.dropWhile_cons_of_pos (by decide), spelled, List.cons_append,
      List.dropWhile_cons_of_neg (by simp [solid])]
  have ends : ∀ rest, endsName name.toList (rest ++ ' ' :: later) =
      endsName name.toList (rest ++ [' ']) := by
    rintro (_ | ⟨character, rest⟩) <;> rfl
  simp only [definesHere, behind, gap, word, List.isEmpty_cons, Bool.not_false, Bool.true_and]
  constructor
  · intro found
    cases dropped : dropLead? name.toList (earlier.toList ++ ' ' :: later) with
    | none => simp [dropped] at found
    | some left =>
        simp only [dropped] at found
        rcases List.append_eq_append_iff.mp (dropLead?_eq_some.mp dropped) with
          ⟨more, longer, behind⟩ | ⟨rest, spelled, left⟩
        · cases more with
          | nil =>
              refine ⟨[], by simpa using longer.symm, ?_⟩
              rw [List.nil_append] at behind
              rw [← ends, ← found, List.nil_append, behind]
          | cons blank more =>
              obtain ⟨rfl, _⟩ := List.cons.inj behind
              have inside : ' ' ∈ name.toList := by simp [longer]
              exact absurd (named.solid ' ' inside) (by decide)
        · exact ⟨rest, spelled, by rw [← ends, ← left, found]⟩
  · rintro ⟨rest, spelled, complete⟩
    have dropped : dropLead? name.toList (earlier.toList ++ ' ' :: later) =
        some (rest ++ ' ' :: later) := by
      rw [dropLead?_eq_some, spelled, List.append_assoc]
    simp only [dropped, ends, complete]

theorem defines_skip {name : List Char} (absent : '@' ∉ lead) :
    defines name (lead ++ rest) = defines name rest := by
  induction lead with
  | nil => rfl
  | cons character lead induction =>
      obtain ⟨other, later⟩ := not_or.mp (List.mem_cons.not.mp absent)
      rw [List.cons_append, defines, induction later,
        definesHere_of_not_prefix (not_prefix_of_ne (Ne.symm other)), Bool.false_or]

/-- Nothing is defined in a text without `@utility`, nor across its end. -/
theorem defines_behind {name : List Char} (absent : ¬ "@utility".toList <:+: lead)
    (apart : ∀ character ∈ rest.head?, character ∉ "@utility".toList) :
    defines name (lead ++ rest) = defines name rest := by
  induction lead with
  | nil => rfl
  | cons character lead induction =>
      have later : ¬ "@utility".toList <:+: lead := fun within =>
        absent (within.trans (List.suffix_cons character lead).isInfix)
      rw [List.cons_append, defines, induction later, definesHere_of_not_prefix, Bool.false_or]
      rw [← List.cons_append]
      rintro ⟨tail, split⟩
      rcases List.append_eq_append_iff.mp split with ⟨more, longer, _⟩ | ⟨more, shorter, behind⟩
      · exact absent ⟨[], more, by rw [List.nil_append, longer]⟩
      · cases more with
        | nil => exact absent ⟨[], [], by simp [shorter]⟩
        | cons first more =>
            refine apart first (by simp [behind]) ?_
            rw [shorter]
            simp

/-- Whether a section is that of a promotion under a name. -/
def IsDefinition (defined : String) (piece : Section) : Prop :=
  IsSolid defined ∧ ∃ pattern : String, '@' ∉ pattern.toList ∧
    piece = .promoted defined (utilityBlock defined pattern)

theorem text_definition (defined pattern : String) :
    (Section.promoted defined (utilityBlock defined pattern)).text.toList =
      ("\n\n/* north promote: ".toList ++ defined.toList ++ " */\n".toList) ++
        ("@utility ".toList ++ (defined.toList ++ ' ' :: ("\x7b\n  ".toList ++
          '@' :: ("apply ".toList ++ pattern.toList ++ ";\n\x7d".toList)))) := by
  rw [Section.text_promoted, utilityBlock]
  simp only [String.toList_append, List.append_assoc]
  rfl

/-- The section of a promotion defines its name, and nothing else. -/
theorem defines_definition {piece : Section} (named : IsSolid name)
    (definition : IsDefinition earlier piece) :
    defines name.toList (piece.text.toList ++ rest) = true ↔
      Meets earlier name ∨ defines name.toList rest = true := by
  obtain ⟨defined, pattern, plain, rfl⟩ := definition
  have opening : '@' ∉ "\n\n/* north promote: ".toList ++ earlier.toList ++ " */\n".toList := by
    simp only [List.mem_append, not_or]
    exact ⟨⟨by decide, defined.plain⟩, by decide⟩
  have between : '@' ∉ "utility ".toList ++ (earlier.toList ++ " \x7b\n  ".toList) := by
    simp only [List.mem_append, not_or]
    exact ⟨by decide, defined.plain, by decide⟩
  have closing : '@' ∉ "apply ".toList ++ pattern.toList ++ ";\n\x7d".toList := by
    simp only [List.mem_append, not_or]
    exact ⟨⟨by decide, plain⟩, by decide⟩
  have applied : definesHere name.toList
      ('@' :: ("apply ".toList ++ pattern.toList ++ ";\n\x7d".toList ++ rest)) = false := by
    apply definesHere_of_not_prefix
    intro leads
    exact absurd (List.cons_prefix_cons.mp (List.cons_prefix_cons.mp leads).2).1 (by decide)
  obtain ⟨later, here, onward⟩ : ∃ later,
      ("@utility ".toList ++ (earlier.toList ++ ' ' :: ("\x7b\n  ".toList ++
          '@' :: ("apply ".toList ++ pattern.toList ++ ";\n\x7d".toList)))) ++ rest =
        "@utility ".toList ++ (earlier.toList ++ ' ' :: later) ∧
      "@utility ".toList ++ (earlier.toList ++ ' ' :: later) =
        '@' :: ("utility ".toList ++ (earlier.toList ++ " \x7b\n  ".toList) ++
          '@' :: ("apply ".toList ++ pattern.toList ++ ";\n\x7d".toList ++ rest)) := by
    refine ⟨"\x7b\n  ".toList ++
      '@' :: ("apply ".toList ++ pattern.toList ++ ";\n\x7d".toList ++ rest), ?_, ?_⟩
    · simp only [List.append_assoc, List.cons_append]
    · simp only [List.append_assoc]
      rfl
  rw [text_definition, List.append_assoc, defines_skip opening, here, onward, defines, ← onward,
    Bool.or_eq_true, definesHere_utility named defined, defines_skip between, defines, applied,
    Bool.false_or, defines_skip closing]

theorem defines_sections (named : IsSolid name)
    (definitions : List.Forall₂ IsDefinition names sections) :
    defines name.toList (sections.flatMap (·.text.toList) ++ rest) = true ↔
      (∃ earlier ∈ names, Meets earlier name) ∨ defines name.toList rest = true := by
  induction definitions with
  | nil => simp
  | cons definition _ induction =>
      rw [List.flatMap_cons, List.append_assoc, defines_definition named definition, induction,
        List.exists_mem_cons_iff, or_assoc]

theorem defines_grown (named : IsSolid name) (absent : ¬ "@utility".toList <:+: start.toList)
    (definitions : List.Forall₂ IsDefinition names sections) :
    defines name.toList (grown start sections).toList = true ↔
      ∃ earlier ∈ names, Meets earlier name := by
  cases definitions with
  | nil =>
      have none : defines name.toList (start.toList ++ []) = defines name.toList [] :=
        defines_behind absent (by simp)
      rw [List.append_nil] at none
      rw [grown_nil, none]
      simp [defines]
  | @cons defined piece names sections definition definitions =>
      have kept : ¬ "@utility".toList <:+: trimRight start.toList := fun within =>
        absent (within.trans (List.rdropWhile_prefix isBlank start.toList).isInfix)
      have feed : defines name.toList (['\n'] ++ []) = defines name.toList [] :=
        defines_skip (by decide)
      rw [grown_toList (List.cons_ne_nil _ _), List.append_assoc, defines_behind kept,
        defines_sections named (.cons definition definitions)]
      · rw [List.append_nil] at feed
        rw [feed]
        simp only [defines, Bool.false_eq_true, or_false]
      · obtain ⟨_, pattern, _, rfl⟩ := definition
        rw [List.flatMap_cons, text_definition]
        simp

/-! ## Promotions one after another -/

theorem IsSolid.trim_eq (named : IsSolid name) : String.ofList (trim name.toList) = name := by
  rw [trim_of_solid named.solid, String.ofList_toList]

theorem IsSolid.return_not_mem (named : IsSolid name) : '\r' ∉ name.toList := fun inside =>
  absurd (named.solid _ inside) (by decide)

/-- A promotion that could be made is refused when the stylesheet defines its name. -/
theorem Promotes.repeated_of {stylesheet : Path} {pattern content : String} {session : Session}
    {outcome : EStateM.Result Failure Session Promotion}
    (promotes : Promotes stylesheet name pattern true session outcome) (named : IsSolid name)
    (some : trim pattern.toList ≠ []) (clean : stylesheet.hasNull = false)
    (read : session.workspace.readText stylesheet = .ok content)
    (defined : defines name.toList content.toList = true) :
    outcome = .error (.promotion (.alreadyDefined name stylesheet)) session := by
  have nameOf : ∀ {promotion : Promotion}, propose stylesheet name pattern = .ok promotion →
      promotion.name = name := fun proposed =>
    (propose_eq_ok proposed).1.trans named.trim_eq
  cases promotes with
  | improper refused _ =>
      have kept : trim name.toList ≠ [] := by
        rw [trim_of_solid named.solid]
        exact named.some
      obtain ⟨_, proposed⟩ : ∃ promotion, propose stylesheet name pattern = .ok promotion :=
        propose_of_some kept some
      rw [refused] at proposed
      cases proposed
  | previewed _ calm => cases calm
  | unread _ unread _ =>
      rcases unread with null | ⟨_, failed⟩
      · rw [clean] at null
        cases null
      · rw [read] at failed
        cases failed
  | repeated proposed _ _ _ _ => rw [nameOf proposed]
  | unwritten proposed _ _ again new _ _ =>
      rw [read] at again
      cases again
      rw [nameOf proposed, defined] at new
      cases new
  | written proposed _ _ again new _ _ =>
      rw [read] at again
      cases again
      rw [nameOf proposed, defined] at new
      cases new

end Promotion

/-- The name that an event promotes. -/
def Event.promoted? (layout : Layout) (event : Event) : Option String :=
  match event.operation with
  | .promote name pattern apply =>
      match Promotion.run layout.stylesheet name pattern apply event.session with
      | .ok promotion _ => if promotion.applied then some name else none
      | .error _ _ => none
  | .migrate _ _ => none

/-- The names that events promote, the last event coming first. -/
def promotedNames (layout : Layout) : List Event → List String
  | [] => []
  | event :: events => promotedNames layout events ++ (event.promoted? layout).toList

/-- Whether an event is the promotion of a pattern under a name, of which neither is empty nor
holds `@`, and the name holds no blank. -/
structure Event.IsPromotion (layout : Layout) (event : Event) : Prop where
  plain : event.session.HasPlainTag
  unnamed : event.session.temporaryName ∉ layout.stylesheet.place
  promotes : ∃ name pattern, event.operation = .promote name pattern true ∧
    Promotion.IsSolid name ∧ trim pattern.toList ≠ [] ∧ '@' ∉ pattern.toList

variable {layout : Layout} {event : Event} {events : List Event} {first last : Workspace}
  {start name pattern : String} {session : Session}

theorem Event.IsPromotion.careful (promotion : event.IsPromotion layout) :
    event.IsCareful layout := by
  obtain ⟨operation, session⟩ := event
  obtain ⟨plain, unnamed, name, pattern, rfl, named, _⟩ := promotion
  exact ⟨plain, unnamed, named.return_not_mem⟩

theorem Event.IsPromotion.definitions (promotion : event.IsPromotion layout) :
    List.Forall₂ Promotion.IsDefinition (event.promoted? layout).toList
      ((event.added layout).map Section.asRead) := by
  obtain ⟨operation, session⟩ := event
  obtain ⟨_, _, name, pattern, rfl, named, _, absent⟩ := promotion
  simp only [Event.promoted?, Event.added]
  have promotes := Promotion.run_promotes layout.stylesheet name pattern true session
  cases returned : Promotion.run layout.stylesheet name pattern true session with
  | error failure after => exact .nil
  | ok promotion after =>
      have added := Promotion.added_of_ok returned
      rw [returned] at added promotes
      have applied : promotion.applied = true := by
        cases promotes with
        | previewed _ calm => cases calm
        | written _ _ _ _ _ _ _ => rfl
      rw [added, named.trim_eq]
      simp only [applied, if_true, Option.toList_some, List.map_cons, List.map_nil, Section.asRead,
        Promotion.readBack_utilityBlock named.return_not_mem]
      refine .cons ⟨named, _, ?_, rfl⟩ .nil
      rw [readBack, String.toList_ofList, String.toList_ofList]
      intro inside
      rcases mem_unifyBreaks inside with trimmed | feed
      · exact absent (mem_of_mem_trim trimmed)
      · exact absurd feed (by decide)

theorem definitions_addedBy (promotions : ∀ event ∈ events, event.IsPromotion layout) :
    List.Forall₂ Promotion.IsDefinition (promotedNames layout events)
      ((addedBy layout events).map Section.asRead) := by
  induction events with
  | nil => exact .nil
  | cons event events induction =>
      obtain ⟨here, later⟩ := List.forall_mem_cons.mp promotions
      rw [addedBy, List.map_append, promotedNames]
      exact List.rel_append (induction later) here.definitions

theorem hasNull_of_promoted (member : name ∈ promotedNames layout events) :
    layout.stylesheet.hasNull = false := by
  induction events with
  | nil => cases member
  | cons event events induction =>
      rcases List.mem_append.mp member with earlier | here
      · exact induction earlier
      · obtain ⟨operation, session⟩ := event
        cases operation with
        | migrate options index => cases here
        | promote name pattern apply =>
            have promotes := Promotion.run_promotes layout.stylesheet name pattern apply session
            simp only [Event.promoted?] at here
            split at here
            · rename_i returned
              rw [returned] at promotes
              cases promotes with
              | previewed proposed _ => simp [(Promotion.propose_eq_ok proposed).2.2.2] at here
              | written _ _ clean _ _ _ _ => exact clean
            · cases here

/-- A promotion is refused when its name meets one that was promoted before, and then
only. -/
theorem refused_iff_meets
    (series : Series layout first (⟨.promote name pattern true, session⟩ :: events) last)
    (promotions : ∀ event ∈ ⟨.promote name pattern true, session⟩ :: events,
      event.IsPromotion layout)
    (shows : first.Shows layout.stylesheet start)
    (absent : ¬ "@utility".toList <:+: start.toList) :
    (∃ after, Promotion.run layout.stylesheet name pattern true session =
        .error (.promotion (.alreadyDefined name layout.stylesheet)) after) ↔
      ∃ earlier ∈ promotedNames layout events, Promotion.Meets earlier name := by
  obtain ⟨here, later⟩ := List.forall_mem_cons.mp promotions
  obtain ⟨_, _, _, _, ⟨⟩, named, some, _⟩ := here
  cases series with
  | next series still =>
      have shown := still _ (series.shows (fun event member => (later event member).careful)
        shows).2
      have defined := Promotion.defines_grown named absent (definitions_addedBy later)
      have promotes := Promotion.run_promotes layout.stylesheet name pattern true session
      constructor
      · rintro ⟨after, refused⟩
        rw [refused] at promotes
        have repetition : Promotion.IsRepetition
            (.promotion (.alreadyDefined name layout.stylesheet)) := ⟨_, _, rfl⟩
        cases promotes with
        | improper _ other => exact absurd repetition other
        | unread _ _ other => exact absurd repetition other
        | unwritten _ _ _ _ _ _ other => exact absurd repetition other
        | repeated _ _ _ read found =>
            rw [← shown.eq_of_read read] at found
            exact defined.mp found
      · intro met
        have found := defined.mpr met
        obtain ⟨earlier, among, _⟩ := met
        rcases shown with read | ⟨empty, _⟩
        · exact ⟨_, promotes.repeated_of named some (hasNull_of_promoted among) read found⟩
        · rw [empty] at found
          cases found

/-- For a name that ends in a word character, only a longer name that goes on with another
character is taken for it. -/
theorem Promotion.meets_iff {earlier : String}
    (ends : ∃ character ∈ name.toList.getLast?, isWord character = true)
    (goesOn : ∀ character rest, earlier.toList = name.toList ++ character :: rest →
      isWord character = true) : Meets earlier name ↔ earlier = name := by
  obtain ⟨final, last, word⟩ := ends
  have lastIsWord : (name.toList.getLast?.map isWord).getD false = true := by
    rw [last]
    exact word
  constructor
  · rintro ⟨rest, spelled, complete⟩
    cases rest with
    | nil => exact String.toList_inj.mp (by simpa using spelled)
    | cons character rest =>
        rw [endsName, lastIsWord] at complete
        simp [goesOn character rest spelled] at complete
  · rintro rfl
    refine ⟨[], by simp, ?_⟩
    rw [endsName, lastIsWord]
    decide

/-- After promotions that started from a stylesheet without `@utility`, a promotion is refused
as a repetition exactly if some name that was promoted before starts with its name and goes on
as the end of its name does: behind a word character follows none, and behind another one
follows one.  So a name that ends in a word character is refused exactly if it was promoted
before, unless an earlier name goes on behind it with another character; and it is not refused
for names that it goes on from. -/
theorem promotion_refused_iff
    (series : Series layout first (⟨.promote name pattern true, session⟩ :: events) last)
    (promotions : ∀ event ∈ ⟨.promote name pattern true, session⟩ :: events,
      event.IsPromotion layout)
    (shows : first.Shows layout.stylesheet start)
    (absent : ¬ "@utility".toList <:+: start.toList) :
    let refused := ∃ after, Promotion.run layout.stylesheet name pattern true session =
      .error (.promotion (.alreadyDefined name layout.stylesheet)) after
    let promoted := promotedNames layout events
    (refused ↔ ∃ earlier ∈ promoted, ∃ rest, earlier.toList = name.toList ++ rest ∧
        Promotion.endsName name.toList (rest ++ [' ']) = true) ∧
      ((∃ character ∈ name.toList.getLast?, isWord character = true) →
        (∀ earlier ∈ promoted, ∀ character rest,
          earlier.toList = name.toList ++ character :: rest → isWord character = true) →
          (refused ↔ name ∈ promoted)) ∧
      ((∀ earlier ∈ promoted, ¬ name.toList <+: earlier.toList) → ¬ refused) := by
  dsimp only
  rw [refused_iff_meets series promotions shows absent]
  refine ⟨Iff.rfl, fun ends goesOn => ?_, ?_⟩
  · constructor
    · rintro ⟨earlier, among, met⟩
      exact (Promotion.meets_iff ends (goesOn earlier among)).mp met ▸ among
    · intro among
      exact ⟨name, among, (Promotion.meets_iff ends (goesOn name among)).mpr rfl⟩
  · rintro apart ⟨earlier, among, rest, spelled, _⟩
    exact apart earlier among ⟨rest, spelled.symm⟩

def emptyProject : Session := styledProject ⟨.root, ["q"]⟩ Migration.smallLayout.stylesheet ""

/-- A promotion of some pattern in that project. -/
def promotionOf (name : String) (workspace : Workspace) : Event :=
  ⟨.promote name "p-4" true, { emptyProject with workspace }⟩

/-- What is left of the project after such a promotion. -/
def leftBy (name : String) : Workspace :=
  (promotionOf name emptyProject.workspace).leaves Migration.smallLayout

theorem promotionOf_isPromotion (named : Promotion.IsSolid name) (workspace : Workspace) :
    (promotionOf name workspace).IsPromotion Migration.smallLayout where
  plain := (by decide : emptyProject.HasPlainTag)
  unnamed := (by decide : emptyProject.temporaryName ∉ Migration.smallLayout.stylesheet.place)
  promotes := ⟨name, "p-4", rfl, named, by decide, by decide⟩

theorem promotion_refused_iff_card :
    ∃ after, Promotion.run Migration.smallLayout.stylesheet "card" "p-4" true
        { emptyProject with workspace := leftBy "card" } =
      .error (.promotion (.alreadyDefined "card" Migration.smallLayout.stylesheet)) after := by
  have solid : ("card".toList.all fun character => !isBlank character) = true := by decide
  have named : Promotion.IsSolid "card" := by
    refine ⟨by decide, fun character member => ?_, by decide⟩
    simpa using List.all_eq_true.mp solid character member
  have series := @Series.of_two Migration.smallLayout (promotionOf "card" emptyProject.workspace)
    (promotionOf "card" (leftBy "card")) rfl
  have read : emptyProject.workspace.readText Migration.smallLayout.stylesheet = .ok "" := by
    decide +kernel
  have promoted : promotedNames Migration.smallLayout
      [promotionOf "card" emptyProject.workspace] = ["card"] := by
    decide +kernel
  obtain ⟨_, repeated, _⟩ := promotion_refused_iff series
    (List.forall_mem_cons.mpr ⟨promotionOf_isPromotion named _,
      List.forall_mem_cons.mpr ⟨promotionOf_isPromotion named _, by simp⟩⟩)
    (Or.inl read) (by decide)
  rw [promoted] at repeated
  refine (repeated ⟨'d', by decide, by decide⟩ ?_).mpr (by decide)
  intro earlier among character rest longer
  rw [List.mem_singleton.mp among] at longer
  exact absurd (congrArg List.length longer) (by simp)

/-- How a promotion in that project ends: under a name, or with a failure. -/
def promotionEnd (name : String) (workspace : Workspace) : Except Failure String :=
  match Promotion.run Migration.smallLayout.stylesheet name "p-4" true
      { emptyProject with workspace } with
  | .ok promotion _ => .ok promotion.name
  | .error failure _ => .error failure

/-- A name is refused that was not promoted, and one is promoted twice. -/
theorem promotion_check_misled :
    promotionEnd "stack-lg" emptyProject.workspace = .ok "stack-lg" ∧
      promotionEnd "stack" (leftBy "stack-lg") =
        .error (.promotion (.alreadyDefined "stack" Migration.smallLayout.stylesheet)) ∧
      promotionEnd "a-" emptyProject.workspace = .ok "a-" ∧
        promotionEnd "a-" (leftBy "a-") = .ok "a-" := by
  decide +kernel

end Restyle
