import Restyle.Proofs.Stylesheet.Promoting

/-!
# The stylesheet only grows

Runs and promotions come in any order, and between two of them anything may happen
to the project that leaves the text of the stylesheet alone.  After all of them the
stylesheet holds the text from before, the blanks at its end apart, and behind it
every section that one of them has added, in order and word for word.
-/

namespace Restyle

open Text Activity

/-- What can be asked for that may change the stylesheet. -/
inductive Operation where
  | promote (name pattern : String) (apply : Bool)
  | migrate (options : MigrationOptions) (index : IndexRebuild)

/-- An operation and the session that it finds. -/
structure Event where
  operation : Operation
  session : Session

variable {layout : Layout} {event : Event} {events : List Event} {first last : Workspace}
  {start : String}

namespace Event

/-- The workspace that an event leaves, be it that its operation returns or fails. -/
def leaves (layout : Layout) (event : Event) : Workspace :=
  match event.operation with
  | .promote name pattern apply =>
      (sessionOf (Promotion.run layout.stylesheet name pattern apply event.session)).workspace
  | .migrate options index =>
      (sessionOf (Migration.run options layout index event.session)).workspace

/-- The sections that the stylesheet receives from an event. -/
def added (layout : Layout) (event : Event) : List Section :=
  match event.operation with
  | .promote name pattern apply =>
      Promotion.added (Promotion.run layout.stylesheet name pattern apply event.session)
  | .migrate options _ => Migration.appended options layout event.session

theorem added_promote (layout : Layout) (name pattern : String) (apply : Bool)
    (session : Session) :
    added layout ⟨.promote name pattern apply, session⟩ =
      Promotion.added (Promotion.run layout.stylesheet name pattern apply session) := rfl

theorem added_migrate (layout : Layout) (options : MigrationOptions) (index : IndexRebuild)
    (session : Session) :
    added layout ⟨.migrate options index, session⟩ =
      Migration.appended options layout session := rfl

theorem leaves_promote (layout : Layout) (name pattern : String) (apply : Bool)
    (session : Session) :
    leaves layout ⟨.promote name pattern apply, session⟩ =
      (sessionOf (Promotion.run layout.stylesheet name pattern apply session)).workspace := rfl

theorem leaves_migrate (layout : Layout) (options : MigrationOptions) (index : IndexRebuild)
    (session : Session) :
    leaves layout ⟨.migrate options index, session⟩ =
      (sessionOf (Migration.run options layout index session)).workspace := rfl

/-- Whether an event leaves the stylesheet to what is added to it: the name of temporary files is
another one, a promoted name holds no carriage return, and the steps of a run and the
checkpoint stay away from the stylesheet. -/
def IsCareful (layout : Layout) (event : Event) : Prop :=
  match event.operation with
  | .promote name _ _ => event.session.HasPlainTag ∧
      event.session.temporaryName ∉ layout.stylesheet.place ∧ '\r' ∉ name.toList
  | .migrate options _ => layout.stylesheet.place ≠ layout.checkpoint.place ∧
      Migration.Respects options.backup layout.stylesheet event.session
        (Migration.scheduledSteps options layout event.session)

/-- Whether the pattern of an event, if it has one, holds no carriage return. -/
def HasPlainPattern (event : Event) : Prop :=
  match event.operation with
  | .promote _ pattern _ => '\r' ∉ pattern.toList
  | .migrate _ _ => True

/-- The events that add nothing: previews, refused promotions, runs that fail before
they come to the stylesheet, and runs that cannot read or write it. -/
inductive IsIdle (layout : Layout) : Event → Prop where
  | promotionPreview {name pattern : String} {session : Session} :
      IsIdle layout ⟨.promote name pattern false, session⟩
  | promotionFailure {name pattern : String} {apply : Bool} {session after : Session}
      {failure : Failure}
      (stopped : Promotion.run layout.stylesheet name pattern apply session =
        .error failure after) :
      IsIdle layout ⟨.promote name pattern apply, session⟩
  | preview {options : MigrationOptions} {index : IndexRebuild} {session : Session}
      (calm : options.apply = false) : IsIdle layout ⟨.migrate options index, session⟩
  | unprepared {options : MigrationOptions} {index : IndexRebuild} {session after : Session}
      {failure : Failure}
      (stopped : Migration.prepare options layout session = .error failure after) :
      IsIdle layout ⟨.migrate options index, session⟩
  | ungathered {options : MigrationOptions} {index : IndexRebuild}
      {session started after : Session} {task : Migration.Task} {failure : Failure}
      (prepared : Migration.prepare options layout session = .ok task started)
      (stopped : Migration.gather options task started = .error failure after) :
      IsIdle layout ⟨.migrate options index, session⟩
  | unstyled {options : MigrationOptions} {index : IndexRebuild}
      {session started committed after : Session} {task : Migration.Task} {state : RunState}
      {failure : Failure}
      (prepared : Migration.prepare options layout session = .ok task started)
      (gathered : Migration.gather options task started = .ok state committed)
      (stopped : Migration.appendDeclarations layout.stylesheet state committed =
        .error failure after) :
      IsIdle layout ⟨.migrate options index, session⟩

theorem IsIdle.added (idle : event.IsIdle layout) : event.added layout = [] := by
  cases idle with
  | promotionPreview =>
      rw [added_promote]
      exact (Promotion.run_promotes _ _ _ _ _).added_of_preview rfl
  | promotionFailure stopped =>
      rw [added_promote, stopped]
      rfl
  | preview calm =>
      simp only [added_migrate, Migration.appended, calm]
      split <;> simp
  | unprepared stopped => simp only [added_migrate, Migration.appended, stopped]
  | ungathered prepared stopped =>
      simp [added_migrate, Migration.appended, Migration.receivedFrom, prepared, stopped]
  | unstyled prepared gathered stopped =>
      simp [added_migrate, Migration.appended, Migration.receivedFrom, Migration.appendedBy, prepared,
        gathered, stopped]

theorem endsIn_sessionOf {α : Type} (body : Activity α) (session : Session) :
    EndsIn body session (sessionOf (body session)) := by
  unfold EndsIn sessionOf
  cases ended : body session with
  | ok result after => exact Or.inl ⟨result, rfl⟩
  | error failure after => exact Or.inr ⟨failure, rfl⟩

/-- Only promoted blocks can be read back otherwise than they were written. -/
theorem asRead_sectionsOf (tokens utilities : List String) :
    (sectionsOf tokens utilities).map Section.asRead = sectionsOf tokens utilities := by
  unfold sectionsOf
  split <;> split <;> rfl

theorem asRead_appended (options : MigrationOptions) (layout : Layout) (session : Session) :
    (Migration.appended options layout session).map Section.asRead =
      Migration.appended options layout session := by
  unfold Migration.appended Migration.receivedFrom Migration.appendedBy
  repeat' split
  all_goals first | rfl | exact asRead_sectionsOf _ _

theorem closed (careful : event.IsCareful layout) :
    ∀ piece ∈ (event.added layout).map Section.asRead, piece.IsClosed := by
  obtain ⟨operation, session⟩ := event
  cases operation with
  | promote name pattern apply =>
      obtain ⟨_, _, absent⟩ := careful
      rw [added_promote]
      exact (Promotion.run_promotes _ _ _ _ _).closed absent
  | migrate options index =>
      rw [added_migrate, asRead_appended]
      exact Migration.closed_appended options layout session

/-- The stylesheet receives from an event what the event adds. -/
theorem receives (careful : event.IsCareful layout) :
    Receives layout.stylesheet ((event.added layout).map Section.asRead)
      event.session.workspace (event.leaves layout) := by
  obtain ⟨operation, session⟩ := event
  cases operation with
  | promote name pattern apply =>
      obtain ⟨plain, unnamed, absent⟩ := careful
      rw [added_promote, leaves_promote]
      exact (Promotion.run_promotes _ _ _ _ _).receives plain unnamed absent
  | migrate options index =>
      rw [added_migrate, asRead_appended, leaves_migrate]
      exact Migration.run_receives careful.2 careful.1 (endsIn_sessionOf _ _)

theorem asRead_added (careful : event.IsCareful layout) (clean : event.HasPlainPattern) :
    (event.added layout).map Section.asRead = event.added layout := by
  obtain ⟨operation, session⟩ := event
  cases operation with
  | promote name pattern apply =>
      obtain ⟨_, _, absent⟩ := careful
      have promotes := Promotion.run_promotes layout.stylesheet name pattern apply session
      rw [added_promote]
      rcases promotes.added_cases with none | ⟨promotion, proposed, one⟩
      · rw [none]
        rfl
      · obtain ⟨named, patterned, blocked, _⟩ := Promotion.propose_eq_ok proposed
        have trimmed := Promotion.return_not_mem_name named absent
        have plain : readBack promotion.pattern = promotion.pattern := by
          rw [readBack, unifyBreaks_of_not_mem (Promotion.return_not_mem_name patterned clean),
            String.ofList_toList]
        rw [one, blocked, List.map_singleton, Section.asRead,
          Promotion.readBack_utilityBlock trimmed, plain]
  | migrate options index => exact asRead_appended options layout session

end Event

/-- The sections that events add, the last event coming first. -/
def addedBy (layout : Layout) : List Event → List Section
  | [] => []
  | event :: events => addedBy layout events ++ event.added layout

/-- Events one after another, the last one first.  Between two of them anything may
change but the text of the stylesheet. -/
inductive Series (layout : Layout) (first : Workspace) : List Event → Workspace → Prop where
  | nil : Series layout first [] first
  | next {event : Event} {events : List Event} {last : Workspace}
      (earlier : Series layout first events last)
      (still : ∀ text, last.Shows layout.stylesheet text →
        event.session.workspace.Shows layout.stylesheet text) :
      Series layout first (event :: events) (event.leaves layout)

theorem Series.of_two {one two : Event} (found : two.session.workspace = one.leaves layout) :
    Series layout one.session.workspace [two, one] (two.leaves layout) := by
  refine .next (.next .nil fun _ shows => shows) fun _ shows => ?_
  rw [found]
  exact shows

/-- After a series the stylesheet shows the sections that were added, as they are
read back. -/
theorem Series.shows (series : Series layout first events last)
    (careful : ∀ event ∈ events, event.IsCareful layout)
    (shows : first.Shows layout.stylesheet start) :
    (∀ piece ∈ (addedBy layout events).map Section.asRead, piece.IsClosed) ∧
      last.Shows layout.stylesheet (grown start ((addedBy layout events).map Section.asRead)) := by
  induction series with
  | nil => exact ⟨by simp [addedBy], shows⟩
  | next earlier still induction =>
      obtain ⟨here, later⟩ := List.forall_mem_cons.mp careful
      obtain ⟨closed, shown⟩ := induction later
      rw [addedBy, List.map_append]
      constructor
      · intro piece member
        rcases List.mem_append.mp member with before | new
        · exact closed piece before
        · exact Event.closed here piece new
      · rw [← grown_grown closed]
        exact (Event.receives here).shows _ (still _ shown)

theorem asRead_addedBy (careful : ∀ event ∈ events, event.IsCareful layout)
    (clean : ∀ event ∈ events, event.HasPlainPattern) :
    (addedBy layout events).map Section.asRead = addedBy layout events := by
  induction events with
  | nil => rfl
  | cons event events induction =>
      obtain ⟨careful, carefulLater⟩ := List.forall_mem_cons.mp careful
      obtain ⟨clean, cleanLater⟩ := List.forall_mem_cons.mp clean
      rw [addedBy, List.map_append, induction carefulLater cleanLater,
        Event.asRead_added careful clean]

/-- After every series the stylesheet holds its text from before without the blanks at
the end, every section that was added since, in order and word for word, and a line
feed; events that add nothing leave the file alone.  A promotion adds the block of its
name; a run that returns adds one section with the tokens and one with the utilities of
the steps that it has edited, each if there are any. -/
theorem stylesheet_only_grows (series : Series layout first events last)
    (careful : ∀ event ∈ events, event.IsCareful layout)
    (clean : ∀ event ∈ events, event.HasPlainPattern)
    (shows : first.Shows layout.stylesheet start) :
    last.Shows layout.stylesheet
        (if (addedBy layout events).isEmpty then start
          else Migration.trimEnd start ++ String.join ((addedBy layout events).map Section.text) ++
            "\n") ∧
      (∀ event ∈ events, event.IsIdle layout → event.added layout = []) ∧
      (∀ event ∈ events, event.added layout = [] →
        event.session.workspace.Keeps (event.leaves layout) layout.stylesheet.place) ∧
      (∀ name pattern session promotion after,
        Promotion.run layout.stylesheet name pattern true session = .ok promotion after →
          Event.added layout ⟨.promote name pattern true, session⟩ =
            [.promoted (String.ofList (trim name.toList))
              (utilityBlock (String.ofList (trim name.toList))
                (String.ofList (trim pattern.toList)))]) ∧
      (∀ options index session report after, options.apply = true →
        Migration.run options layout index session = .ok report after →
          let edited := Migration.editedSteps
            ((Migration.scheduledSteps options layout session).zip report.results)
          Event.added layout ⟨.migrate options index, session⟩ =
            if report.warnings = [] then
              sectionsOf (edited.filterMap Step.token?) (edited.filterMap Step.utility?)
            else []) ∧
      ∀ old tokens utilities, Migration.restyled old tokens utilities =
        if tokens = [] ∧ utilities = [] then old
        else Migration.trimEnd old ++ (if tokens = [] then "" else (Section.tokens tokens).text) ++
          (if utilities = [] then "" else (Section.utilities utilities).text) ++ "\n" := by
  refine ⟨?_, fun _ _ idle => idle.added, ?_, ?_, ?_, ?_⟩
  · have shown := (series.shows careful shows).2
    rw [asRead_addedBy careful clean] at shown
    exact shown
  · intro event member none
    have received := Event.receives (careful event member)
    rw [none] at received
    exact received.keeps rfl
  · intro name pattern session promotion after returned
    exact Promotion.added_of_ok returned
  · intro options index session report after applying returned
    exact Migration.appended_of_returned applying returned
  · intro old tokens utilities
    rw [restyled_eq_grown, grown_sectionsOf]

/-- The project with a plan that makes a token of a class, and with a stylesheet. -/
def styledProject (locked stylesheet : Path) (text : String) : Session :=
  { Migration.tokenProject locked with
    workspace :=
      ⟨(stylesheet.place, .file (Text.encode text.toList) 420) ::
        (Migration.tokenProject locked).workspace.entries⟩ }

/-- The stylesheet once a utility is promoted. -/
def promotedText : String :=
  "a\n\n/* north promote: card */\n@utility card \x7b\n  @apply p-4;\n\x7d\n"

def promotingEvent : Event :=
  ⟨.promote "card" " p-4" true, styledProject Migration.smallLayout.checkpoint
    Migration.smallLayout.stylesheet "a \n"⟩

/-- A run that fails because its checkpoint cannot be saved. -/
def migratingEvent : Event :=
  ⟨.migrate { apply := true } .absent, styledProject Migration.smallLayout.checkpoint
    Migration.smallLayout.stylesheet promotedText⟩

theorem promotingEvent_leaves :
    (promotingEvent.leaves Migration.smallLayout).readText Migration.smallLayout.stylesheet =
      .ok promotedText := by
  decide +kernel

theorem migratingEvent_added :
    migratingEvent.added Migration.smallLayout = [.tokens ["--t: x;"]] := by
  unfold Event.added migratingEvent
  dsimp only
  rw [Migration.appended, Migration.prepare_loads]
  decide +kernel

/-- Steps that are all on the file of that project stay away from a stylesheet beside
it. -/
theorem styledProject_respects {steps : List Step} {locked stylesheet : Path} {text : String}
    {backup : Bool}
    (files : ∀ step ∈ steps, step.file = .text "f")
    (clean : ∀ step ∈ steps, step.DeclaresCleanly)
    (unnamed : (styledProject locked stylesheet text).temporaryName ∉ stylesheet.place)
    (away : stylesheet.place ≠ Migration.tokenFile.place ∧
      stylesheet.place ≠ (Migration.tokenFile.withSuffix ".bak").place) :
    Migration.Respects backup stylesheet (styledProject locked stylesheet text) steps := by
  obtain ⟨fresh, keys⟩ := Migration.tokenProject_fresh locked files
  refine ⟨Migration.FreshTag.of_entries fresh.plain ?_ fresh.unnamed, ?_, ?_, unnamed, clean⟩
  · intro pair member
    rcases List.mem_cons.mp member with rfl | among
    · exact unnamed
    · exact (by decide : ∀ pair ∈ (Migration.tokenProject Migration.tokenFile).workspace.entries,
        (Migration.tokenProject Migration.tokenFile).temporaryName ∉ pair.1) pair among
  · intro step member key known
    rw [keys step member key known]
    exact away.1.symm
  · rintro - ⟨step, member, key, known, same⟩
    rw [keys step member key known] at same
    exact away.2 same

theorem migratingEvent_scheduled :
    (Migration.scheduledSteps { apply := true } Migration.smallLayout migratingEvent.session).map
        (fun step => (step.file, step.token?, step.utility?)) =
      [(.text "f", some "--t: x;", none)] := by
  rw [Migration.scheduledSteps, Migration.prepare_loads]
  decide +kernel

theorem migratingEvent_careful : migratingEvent.IsCareful Migration.smallLayout := by
  have each : ∀ step ∈ Migration.scheduledSteps { apply := true } Migration.smallLayout
      migratingEvent.session, (step.file, step.token?, step.utility?) =
        (.text "f", some "--t: x;", none) := by
    intro step member
    have listed := List.mem_map_of_mem (f := fun step : Step =>
      (step.file, step.token?, step.utility?)) member
    rw [migratingEvent_scheduled] at listed
    exact List.mem_singleton.mp listed
  refine ⟨by decide, styledProject_respects
    (fun step member => congrArg (·.1) (each step member)) ?_ (by decide) (by decide)⟩
  intro step member declaration declares
  obtain ⟨_, token, utility⟩ : step.file = .text "f" ∧ step.token? = some "--t: x;" ∧
      step.utility? = none := by simpa using each step member
  rw [token, utility] at declares
  obtain ⟨⟨⟩⟩ | ⟨⟨⟩⟩ := declares
  decide

theorem stylesheet_only_grows_promoted :
    ∃ last, Series Migration.smallLayout promotingEvent.session.workspace
        [migratingEvent, promotingEvent] last ∧
      last.Shows Migration.smallLayout.stylesheet
        ("a\n\n/* north promote: card */\n@utility card \x7b\n  @apply p-4;\n\x7d" ++
          "\n/* north migrate: tokens */\n@theme \x7b\n  --t: x;\n\x7d\n") := by
  have promoting : promotingEvent.IsCareful Migration.smallLayout := by
    refine ⟨?_, ?_, ?_⟩ <;> decide
  have plain : promotingEvent.HasPlainPattern := by
    show '\r' ∉ " p-4".toList
    decide
  have series : Series Migration.smallLayout promotingEvent.session.workspace
      [migratingEvent, promotingEvent] (migratingEvent.leaves Migration.smallLayout) := by
    refine .next (.next .nil fun _ shows => shows) fun text shows => ?_
    rw [shows.eq_of_read promotingEvent_leaves]
    exact Or.inl (by decide +kernel)
  have read : promotingEvent.session.workspace.readText Migration.smallLayout.stylesheet =
      .ok "a \n" := by decide +kernel
  have added : addedBy Migration.smallLayout [migratingEvent, promotingEvent] =
      [.promoted "card" (utilityBlock "card" "p-4"), .tokens ["--t: x;"]] := by
    rw [addedBy, addedBy, migratingEvent_added]
    decide +kernel
  obtain ⟨shown, _⟩ := stylesheet_only_grows series
    (List.forall_mem_cons.mpr ⟨migratingEvent_careful, by simpa using promoting⟩)
    (List.forall_mem_cons.mpr ⟨trivial, by simpa using plain⟩) (Or.inl read)
  rw [added] at shown
  have written : Migration.trimEnd "a \n" ++
      String.join ([.promoted "card" (utilityBlock "card" "p-4"), .tokens ["--t: x;"]].map
        Section.text) ++ "\n" =
      "a\n\n/* north promote: card */\n@utility card \x7b\n  @apply p-4;\n\x7d" ++
        "\n/* north migrate: tokens */\n@theme \x7b\n  --t: x;\n\x7d\n" := by
    decide +kernel
  refine ⟨_, series, ?_⟩
  rw [← written]
  exact shown

/-- A layout whose stylesheet stands where the backup of the file goes. -/
def backupLayout : Layout :=
  ⟨⟨.root, ["p", "plan"]⟩, ⟨.root, ["p", "check"]⟩, ⟨.root, ["p", "f.bak"]⟩⟩

/-- A layout whose stylesheet stands where the checkpoint goes. -/
def checkpointLayout : Layout :=
  ⟨⟨.root, ["p", "plan"]⟩, ⟨.root, ["p", "check"]⟩, ⟨.root, ["p", "check"]⟩⟩

/-- That project, with `a` in the place of the stylesheet. -/
def crowdedProject (layout : Layout) : Session := styledProject ⟨.root, ["q"]⟩ layout.stylesheet "a"

theorem backup_observed :
    Migration.observe { apply := true } backupLayout .absent (crowdedProject backupLayout)
        (fun task _ after => (task.steps.map Step.file,
          (after.workspace.readText backupLayout.stylesheet).toOption)) =
      some ([.text "f"], some
        "x y\n/* north migrate: tokens */\n@theme \x7b\n  --t: x;\n\x7d\n") := by
  rw [Migration.observe_loads]
  decide +kernel

theorem checkpoint_observed :
    Migration.observe { apply := true } checkpointLayout .absent (crowdedProject checkpointLayout)
        (fun task report _ => (task.steps.map Step.file, report.checkpoint.isSome)) =
      some ([.text "f"], true) := by
  rw [Migration.observe_loads]
  decide +kernel

theorem readText_of_saved {options : MigrationOptions} {index : IndexRebuild}
    {session after : Session} {report : RunReport} {saved : Checkpoint}
    (applying : options.apply = true)
    (returned : Migration.run options layout index session = .ok report after)
    (reported : report.checkpoint = some saved) :
    after.workspace.readText layout.checkpoint = .ok saved.toJson.pretty := by
  obtain ⟨_, _, ⟨_, _, none, _⟩ | ⟨other, saves, _⟩⟩ := Migration.run_progress applying returned
  · rw [reported] at none
    cases none
  · cases reported.symm.trans saves.reported
    refine Workspace.readText_eq_ok_iff.mpr ⟨_, _, saves.bytes, Text.decode_encode _, ?_⟩
    rw [unifyBreaks_of_not_mem (Json.return_not_mem_pretty _), String.ofList_toList]

/-- Whether a run of that project loses what the stylesheet held, although it returns and its
steps are on another file. -/
def LosesStylesheet (layout : Layout) : Prop :=
  (crowdedProject layout).workspace.readText layout.stylesheet = .ok "a" ∧
    ∃ task started report after text,
      Migration.prepare { apply := true } layout (crowdedProject layout) = .ok task started ∧
      task.steps.map Step.file = [.text "f"] ∧
      Migration.run { apply := true } layout .absent (crowdedProject layout) = .ok report after ∧
        after.workspace.readText layout.stylesheet = .ok text ∧
          ¬ trimRight "a".toList <+: text.toList

/-- A stylesheet in the place of a backup is overwritten, and one in the place of the
checkpoint. -/
theorem crowded_stylesheet_overwritten :
    LosesStylesheet backupLayout ∧ LosesStylesheet checkpointLayout := by
  refine ⟨⟨by decide +kernel, ?_⟩, ⟨by decide +kernel, ?_⟩⟩
  · obtain ⟨task, started, report, after, prepared, returned, seen⟩ :=
      Migration.observe_eq_some backup_observed
    obtain ⟨files, left⟩ := Prod.mk.inj seen
    exact ⟨task, started, report, after, _, prepared, files, returned, eq_ok_of_toOption left,
      by decide +kernel⟩
  · obtain ⟨task, started, report, after, prepared, returned, seen⟩ :=
      Migration.observe_eq_some checkpoint_observed
    obtain ⟨files, saves⟩ := Prod.mk.inj seen
    obtain ⟨saved, reported⟩ := Option.isSome_iff_exists.mp saves
    refine ⟨task, started, report, after, _, prepared, files, returned,
      readText_of_saved rfl returned reported, ?_⟩
    have opening : saved.toJson.pretty.toList.head? = some '\x7b' := by
      rw [Json.pretty, String.toList_ofList]
      rfl
    have kept : trimRight "a".toList = ['a'] := by decide
    rintro ⟨rest, whole⟩
    rw [← whole, kept, List.cons_append, List.head?_cons] at opening
    exact absurd (Option.some.inj opening) (by decide)

end Restyle
