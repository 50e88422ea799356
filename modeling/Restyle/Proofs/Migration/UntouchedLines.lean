import Restyle.Proofs.Migration.FailedRuns
import Restyle.Proofs.Migration.Insertions

/-!
# Lines that no step is for

A run edits the lines that its steps name.  Every other line of a source file
keeps its characters.  A file that is written anew was read with all its line
ends turned into line feeds, so the ends of such lines stay as they were only
where they are line feeds.
-/

namespace Restyle

namespace Text

/-- A line and the characters that end it: a line feed, a carriage return, both,
or nothing at the end of a text. -/
structure EndedLine where
  content : List Char
  ending : List Char
  deriving DecidableEq, Repr

namespace EndedLine

/-- The line with its end, if it has one, turned into a line feed. -/
def unified (line : EndedLine) : EndedLine :=
  { line with ending := unifyBreaks line.ending }

/-- The line after one more character. -/
def after (character : Char) (line : EndedLine) : EndedLine :=
  { line with content := character :: line.content }

end EndedLine

def endedLines : List Char → List EndedLine
  | [] => [⟨[], []⟩]
  | '\r' :: '\n' :: rest => ⟨[], ['\r', '\n']⟩ :: endedLines rest
  | '\r' :: rest => ⟨[], ['\r']⟩ :: endedLines rest
  | '\n' :: rest => ⟨[], ['\n']⟩ :: endedLines rest
  | character :: rest => (endedLines rest).modifyHead (EndedLine.after character)

theorem endedLines_ne_nil (text : List Char) : endedLines text ≠ [] := by
  fun_induction endedLines text with
  | case5 character rest _ _ _ induction => simpa using induction
  | _ => exact List.cons_ne_nil _ _

theorem endedLines_cons {character : Char} (rest : List Char) (notReturn : character ≠ '\r')
    (notFeed : character ≠ '\n') :
    endedLines (character :: rest) = (endedLines rest).modifyHead (EndedLine.after character) := by
  rw [endedLines]
  · exact fun _ same _ => notReturn same
  · exact notReturn
  · exact notFeed

/-- The lines of a text make up the text. -/
theorem flatMap_endedLines (text : List Char) :
    ((endedLines text).flatMap fun line => line.content ++ line.ending) = text := by
  fun_induction endedLines text with
  | case1 => rfl
  | case2 rest induction =>
      rw [List.flatMap_cons, induction]
      rfl
  | case3 rest _ induction =>
      rw [List.flatMap_cons, induction]
      rfl
  | case4 rest induction =>
      rw [List.flatMap_cons, induction]
      rfl
  | case5 character rest _ _ _ induction =>
      obtain ⟨line, lines, cut⟩ := List.exists_cons_of_ne_nil (endedLines_ne_nil rest)
      rw [cut, List.flatMap_cons] at induction
      rw [cut, List.modifyHead_cons, List.flatMap_cons, ← induction]
      rfl

/-- Turning the line ends of a text into line feeds turns those of its lines. -/
theorem endedLines_unifyBreaks (text : List Char) :
    endedLines (unifyBreaks text) = (endedLines text).map EndedLine.unified := by
  fun_induction unifyBreaks text with
  | case1 => rfl
  | case2 rest induction =>
      rw [endedLines, endedLines, induction]
      rfl
  | case3 rest lone induction =>
      rw [endedLines, endedLines, induction]
      · rfl
      · exact lone
  | case4 character rest _ other induction =>
      by_cases feed : character = '\n'
      · subst feed
        rw [endedLines, endedLines, induction]
        rfl
      · obtain ⟨line, lines, cut⟩ := List.exists_cons_of_ne_nil (endedLines_ne_nil rest)
        rw [endedLines_cons _ other feed, endedLines_cons _ other feed, induction, cut]
        rfl

def feedLines : List (List Char) → List EndedLine
  | [] => []
  | [line] => [⟨line, []⟩]
  | line :: lines => ⟨line, ['\n']⟩ :: feedLines lines

theorem getElem?_feedLines (lines : List (List Char)) (index : Nat) :
    (feedLines lines)[index]? = lines[index]?.map fun line =>
      ⟨line, if index + 1 < lines.length then ['\n'] else []⟩ := by
  fun_induction feedLines lines generalizing index with
  | case1 => rfl
  | case2 line => cases index <;> simp
  | case3 line lines more induction =>
      have several : 0 < lines.length := List.length_pos_iff.mpr more
      cases index with
      | zero => simp [several]
      | succ index => simp [induction]

theorem endedLines_of_clean {text : List Char} (clean : '\r' ∉ text) :
    endedLines text = feedLines (splitFeeds text) := by
  induction text with
  | nil => rfl
  | cons character rest induction =>
      rw [List.mem_cons, not_or] at clean
      have later := induction clean.2
      obtain ⟨first, lines, cut⟩ := List.exists_cons_of_ne_nil (splitFeeds_ne_nil rest)
      rw [splitFeeds_cons]
      by_cases feed : character = '\n'
      · subst feed
        rw [endedLines, later, if_pos rfl, cut]
        rfl
      · rw [endedLines_cons _ (fun same => clean.1 same.symm) feed, later, if_neg feed, cut]
        cases lines <;> rfl

theorem length_feedLines (lines : List (List Char)) : (feedLines lines).length = lines.length := by
  fun_induction feedLines lines with
  | case1 => rfl
  | case2 line => rfl
  | case3 line lines _ induction => simp [induction]

/-- Whether two texts, as cut at line feeds, differ in lines of some numbers at
most. -/
structure SameLines (numbers : List Int) (before after : List Char) : Prop where
  length : (splitFeeds after).length = (splitFeeds before).length
  lines : ∀ index : Nat, (index + 1 : Int) ∉ numbers →
    (splitFeeds after)[index]? = (splitFeeds before)[index]?

theorem SameLines.refl (numbers : List Int) (text : List Char) : SameLines numbers text text :=
  ⟨rfl, fun _ _ => rfl⟩

theorem SameLines.trans {numbers others : List Int} {before middle after : List Char}
    (first : SameLines numbers before middle) (second : SameLines others middle after) :
    SameLines (numbers ++ others) before after where
  length := second.length.trans first.length
  lines index outside := by
    rw [List.mem_append, not_or] at outside
    exact (second.lines index outside.2).trans (first.lines index outside.1)

/-- Whether a text is another, or keeps the lines of the other with their ends
turned into line feeds, apart from lines of some numbers. -/
def KeepsLines (numbers : List Int) (before after : List Char) : Prop :=
  after = before ∨
    ((endedLines after).length = (endedLines before).length ∧
      ∀ index : Nat, (index + 1 : Int) ∉ numbers →
        (endedLines after)[index]? = (endedLines before)[index]?.map EndedLine.unified)

theorem SameLines.keepsLines {numbers : List Int} {before after : List Char}
    (same : SameLines numbers (unifyBreaks before) after) (clean : '\r' ∉ after) :
    KeepsLines numbers before after := by
  have unified : (endedLines before).map EndedLine.unified =
      feedLines (splitFeeds (unifyBreaks before)) := by
    rw [← endedLines_unifyBreaks, endedLines_of_clean (return_not_mem_unifyBreaks before)]
  right
  constructor
  · have length := congrArg List.length unified
    rw [List.length_map, length_feedLines] at length
    rw [endedLines_of_clean clean, length_feedLines, same.length, length]
  · intro index outside
    rw [← List.getElem?_map, unified, endedLines_of_clean clean, getElem?_feedLines,
      getElem?_feedLines, same.length, same.lines index outside]

theorem KeepsLines.exact {numbers : List Int} {before after : List Char}
    (keeps : KeepsLines numbers before after) (clean : '\r' ∉ before) (index : Nat)
    (outside : (index + 1 : Int) ∉ numbers) :
    (endedLines after)[index]? = (endedLines before)[index]? := by
  rcases keeps with rfl | ⟨_, lines⟩
  · rfl
  · rw [lines index outside, ← List.getElem?_map, ← endedLines_unifyBreaks,
      unifyBreaks_of_not_mem clean]

end Text

open Text

/-- The number of the line that a step edits in a text, if it does. -/
def Step.editedLine (step : Step) (text : List Char) : List Int :=
  match step.edit text with
  | .ok (some _) => [step.line]
  | _ => []

/-- The numbers of the lines that steps edit, one after the other. -/
def editedLines (text : List Char) : List Step → List Int
  | [] => []
  | step :: later => step.editedLine text ++ editedLines (step.applyTo text) later

theorem Step.applyTo_cases (step : Step) (text : List Char) :
    (∃ edit, step.edit text = .ok (some edit) ∧ step.applyTo text = edit.content ∧
        step.editedLine text = [step.line]) ∨
      (step.applyTo text = text ∧ step.editedLine text = []) := by
  unfold Step.applyTo Step.editedLine
  rcases step.edit text with _ | _ | edit
  · exact Or.inr ⟨rfl, rfl⟩
  · exact Or.inr ⟨rfl, rfl⟩
  · exact Or.inl ⟨edit, rfl, rfl, rfl⟩

/-- A step leaves the other lines alone, if it inserts no line feed. -/
theorem Step.applyTo_sameLines {step : Step} (plain : '\n' ∉ step.action.inserted)
    (text : List Char) : SameLines (step.editedLine text) text (step.applyTo text) := by
  rcases step.applyTo_cases text with ⟨edit, made, edited, here⟩ | ⟨same, _⟩
  · obtain ⟨positive, line, start, stop, among, spliced⟩ := Step.edit_eq_splice made
    have clean : ∀ other ∈ (splitFeeds text).set (step.line - 1).toNat
        (line.take start ++ step.action.inserted ++ line.drop stop), '\n' ∉ other := by
      intro other member
      rcases List.mem_or_eq_of_mem_set member with old | rfl
      · exact feed_not_mem_splitFeeds old
      · rw [List.mem_append, List.mem_append, not_or, not_or]
        have whole := feed_not_mem_splitFeeds among
        exact ⟨⟨fun kept => whole (List.mem_of_mem_take kept), plain⟩,
          fun kept => whole (List.mem_of_mem_drop kept)⟩
    have cut : splitFeeds (step.applyTo text) = (splitFeeds text).set (step.line - 1).toNat
        (line.take start ++ step.action.inserted ++ line.drop stop) := by
      rw [edited, spliced]
      apply splitFeeds_joinFeeds clean
      simpa using splitFeeds_ne_nil text
    constructor
    · rw [cut, List.length_set]
    · intro index outside
      rw [here, List.mem_singleton] at outside
      rw [cut, List.getElem?_set_ne]
      omega
  · rw [same]
    exact SameLines.refl _ text

theorem editInOrder_sameLines {steps : List Step}
    (plain : ∀ step ∈ steps, '\n' ∉ step.action.inserted) (text : List Char) :
    SameLines (editedLines text steps) text (editInOrder text steps) := by
  induction steps generalizing text with
  | nil => exact SameLines.refl _ text
  | cons step steps induction =>
      obtain ⟨first, later⟩ := List.forall_mem_cons.mp plain
      exact (step.applyTo_sameLines first text).trans (induction later (step.applyTo text))

theorem editInOrder_clean {steps : List Step}
    (plain : ∀ step ∈ steps, '\r' ∉ step.action.inserted) {text : List Char}
    (clean : '\r' ∉ text) : '\r' ∉ editInOrder text steps := by
  induction steps generalizing text with
  | nil => exact clean
  | cons step steps induction =>
      obtain ⟨first, later⟩ := List.forall_mem_cons.mp plain
      rw [editInOrder_cons]
      apply induction later
      rcases step.applyTo_cases text with ⟨edit, made, edited, _⟩ | ⟨same, _⟩
      · rw [edited]
        intro member
        rcases Step.mem_edit made member (by decide) with old | new
        · exact clean old
        · exact first new
      · rw [same]
        exact clean

namespace Migration

variable {options : MigrationOptions} {layout : Layout} {index : IndexRebuild} {task : Task}
  {report : RunReport} {session started after : Session} {path : Path} {text : List Char}

def appliedLines (project path : Path) (pairs : List (Step × StepResult)) : List Int :=
  ((attemptedOn project path pairs).filter (·.2.status = .applied)).map (·.1.line)

theorem Accounts.editedLines {pairs : List (Step × StepResult)} (accounted : Accounts text pairs) :
    ∀ number ∈ editedLines text (pairs.map Prod.fst),
      ∃ pair ∈ pairs, pair.2.status = .applied ∧ pair.1.line = number := by
  induction pairs generalizing text with
  | nil => simp [Restyle.editedLines]
  | cons pair pairs induction =>
      obtain ⟨applied, _, later⟩ := accounted
      intro number member
      rcases List.mem_append.mp member with here | there
      · rcases pair.1.applyTo_cases text with ⟨edit, made, _, line⟩ | ⟨_, none⟩
        · rw [line] at here
          exact ⟨pair, List.mem_cons_self, applied.mpr ⟨edit, made⟩, (List.mem_singleton.mp here).symm⟩
        · rw [none] at here
          cases here
      · obtain ⟨other, among, found⟩ := induction later number there
        exact ⟨other, List.mem_cons_of_mem _ among, found⟩

theorem keepsLines_of_edits {steps : List Step} {numbers : List Int}
    (clean : ∀ step ∈ steps, '\n' ∉ step.action.inserted ∧ '\r' ∉ step.action.inserted)
    (within : ∀ number ∈ editedLines (unifyBreaks text) steps, number ∈ numbers) :
    KeepsLines numbers text (editInOrder (unifyBreaks text) steps) := by
  have same := editInOrder_sameLines (fun step member => (clean step member).1) (unifyBreaks text)
  have wider : SameLines numbers (unifyBreaks text) (editInOrder (unifyBreaks text) steps) :=
    ⟨same.length, fun index outside => same.lines index fun member => outside (within _ member)⟩
  apply wider.keepsLines
  apply editInOrder_clean fun step member => (clean step member).2
  exact return_not_mem_unifyBreaks text

/-- A run that returns keeps the lines that none of its applied steps is for. -/
theorem run_returns_lines (applying : options.apply = true)
    (returned : run options layout index session = .ok report after)
    (prepared : prepare options layout session = .ok task started)
    (fresh : FreshTag session task.steps) (source : IsSource session layout task.steps path)
    (clean : ∀ step ∈ task.steps, fileKey? session.project step.file = some path →
      '\n' ∉ step.action.inserted ∧ '\r' ∉ step.action.inserted)
    (read : session.workspace.readBytes path = .ok (Text.encode text)) :
    ∃ final, after.workspace.readBytes path = .ok (Text.encode final) ∧
      KeepsLines (appliedLines session.project path (task.steps.zip report.results)) text final := by
  have readable : session.workspace.readText path = .ok (String.ofList (unifyBreaks text)) :=
    Workspace.readText_eq_ok_iff.mpr ⟨_, _, read, Text.decode_encode _, rfl⟩
  obtain ⟨done, cut, outcomes, refused, split, results, subjects, accounted, finished⟩ :=
    run_finishes applying returned prepared fresh source readable
  obtain ⟨sublist, onFile⟩ := attemptedOn_sublist session.project path subjects
  have attempts := attemptedOn_results path split results subjects
  by_cases unchanged : editInOrder (unifyBreaks text)
      ((attemptedOn session.project path (done.zip outcomes)).map Prod.fst) = unifyBreaks text
  · exact ⟨text, (finished.unchanged unchanged).2.trans read, Or.inl rfl⟩
  by_cases accepted : session.Accepts path
  · obtain ⟨notRefused, stored⟩ := finished.stored unchanged accepted
    refine ⟨_, stored, keepsLines_of_edits ?_ ?_⟩
    · intro step member
      apply clean step _ (onFile step member)
      rw [split]
      exact List.mem_append_left _ (sublist.subset member)
    · intro number member
      obtain ⟨pair, among, applied, line⟩ := accounted.editedLines number member
      have status := (refuseAll_status_of_key (key_of_attempted subjects among)).1 notRefused
      have listed : (pair.1, refuseAll session.project refused pair.2) ∈
          attemptedOn session.project path (task.steps.zip report.results) := by
        rw [attempts]
        exact List.mem_map_of_mem among
      apply List.mem_map.mpr
      exact ⟨_, List.mem_filter.mpr ⟨listed, by simp [status, applied]⟩, line⟩
  · exact ⟨text, (finished.refused unchanged accepted).2.trans read, Or.inl rfl⟩

theorem run_fails_lines {failure : Failure}
    (stopped : run options layout index session = .error failure after)
    (fresh : FreshTag session (plannedSteps options layout session))
    (source : IsSource session layout (plannedSteps options layout session) path)
    (clean : ∀ step ∈ plannedSteps options layout session,
      fileKey? session.project step.file = some path →
        '\n' ∉ step.action.inserted ∧ '\r' ∉ step.action.inserted)
    (read : session.workspace.readBytes path = .ok (Text.encode text)) :
    ∃ final taken, after.workspace.readBytes path = .ok (Text.encode final) ∧
      (∀ step ∈ taken, step ∈ plannedSteps options layout session ∧
        fileKey? session.project step.file = some path) ∧
      KeepsLines (editedLines (unifyBreaks text) taken) text final := by
  rcases run_stops stopped fresh with unharmed | ⟨task, started, prepared, quiet, within, halts⟩
  · exact ⟨text, [], unharmed.readBytes source.notBackup read, by simp, Or.inl rfl⟩
  · have readable : started.workspace.readText path = .ok (String.ofList (unifyBreaks text)) := by
      rw [quiet.workspace]
      exact Workspace.readText_eq_ok_iff.mpr ⟨_, _, read, Text.decode_encode _, rfl⟩
    rcases halts.finishes ((fresh.of_subset within).of_quiet quiet)
      ((source.of_subset within).of_quiet quiet) readable with
      kept | ⟨taken, sublist, onFile, stored⟩
    · rw [quiet.workspace, read] at kept
      exact ⟨text, [], kept, by simp, Or.inl rfl⟩
    · rw [quiet.project] at onFile
      have planned : ∀ step ∈ taken, step ∈ plannedSteps options layout session ∧
          fileKey? session.project step.file = some path :=
        fun step member => ⟨within step (sublist.subset member), onFile step member⟩
      refine ⟨_, taken, stored, planned, keepsLines_of_edits ?_ fun _ member => member⟩
      exact fun step member => clean step (planned step member).1 (planned step member).2

/-- Every line of a source file that is not the line of an applied step keeps its
characters through a run.  Either the file is as it was, or it is written with line
feeds for all line ends.  So where it has no carriage returns, these lines are as
they were, with their ends.  A run that fails keeps the lines that it has not
edited. -/
theorem run_keeps_lines (applying : options.apply = true)
    (fresh : FreshTag session (plannedSteps options layout session))
    (source : IsSource session layout (plannedSteps options layout session) path)
    (clean : ∀ step ∈ plannedSteps options layout session,
      fileKey? session.project step.file = some path →
        '\n' ∉ step.action.inserted ∧ '\r' ∉ step.action.inserted)
    (read : session.workspace.readBytes path = .ok (Text.encode text)) :
    (∀ task started report after, prepare options layout session = .ok task started →
      run options layout index session = .ok report after →
        ∃ final, after.workspace.readBytes path = .ok (Text.encode final) ∧
          let numbers := appliedLines session.project path (task.steps.zip report.results)
          KeepsLines numbers text final ∧
            ('\r' ∉ text → ∀ place : Nat, (place + 1 : Int) ∉ numbers →
              (endedLines final)[place]? = (endedLines text)[place]?)) ∧
    ∀ failure after, run options layout index session = .error failure after →
      ∃ final taken, after.workspace.readBytes path = .ok (Text.encode final) ∧
        (∀ step ∈ taken, step ∈ plannedSteps options layout session ∧
          fileKey? session.project step.file = some path) ∧
        let numbers := editedLines (unifyBreaks text) taken
        KeepsLines numbers text final ∧
          ('\r' ∉ text → ∀ place : Nat, (place + 1 : Int) ∉ numbers →
            (endedLines final)[place]? = (endedLines text)[place]?) := by
  constructor
  · intro task started report after prepared returned
    have within := (prepare_eq_ok prepared).1.planned
    obtain ⟨final, bytes, keeps⟩ := run_returns_lines applying returned prepared
      (fresh.of_subset within) (source.of_subset within)
      (fun step member => clean step (within step member)) read
    exact ⟨final, bytes, keeps, keeps.exact⟩
  · intro failure after stopped
    obtain ⟨final, taken, bytes, planned, keeps⟩ := run_fails_lines stopped fresh source clean read
    exact ⟨final, taken, bytes, planned, keeps, keeps.exact⟩

/-- The text of two lines that end in a carriage return and a line feed. -/
def returnedText : List Char := ['x', ' ', 'y', '\r', '\n', 'z', '\r', '\n']

/-- The small project with that text in its file. -/
def returnedProject : Session :=
  { smallProject with
    workspace := smallProject.workspace.put ["p", "f"] (.file (Text.encode returnedText) 420) }

def returnedFile : Path := ⟨.root, ["p", "f"]⟩

theorem returnedProject_observed :
    observe { apply := true } smallLayout .absent returnedProject (fun task report after =>
      (task.plan.steps.map fun step => (step.file, step.action),
        appliedLines returnedProject.project returnedFile (task.steps.zip report.results),
        (after.workspace.readBytes returnedFile).toOption)) =
      some ([(.text "f", .remove (.text "x"))], [1],
        some (Text.encode ['y', '\n', 'z', '\n'])) := by
  rw [observe_loads]
  decide +kernel

theorem returnedProject_fresh {steps : List Step} (files : ∀ step ∈ steps, step.file = .text "f") :
    FreshTag returnedProject steps ∧ IsSource returnedProject smallLayout steps returnedFile := by
  have keys : ∀ step ∈ steps, ∀ key,
      fileKey? returnedProject.project step.file = some key → key = returnedFile := by
    intro step member key known
    rw [files step member] at known
    have here : fileKey? ⟨.root, ["p"]⟩ (.text "f") = some returnedFile := by decide
    exact Option.some.inj (known.symm.trans here)
  constructor
  · apply FreshTag.of_entries (by decide)
    · exact (by decide : ∀ pair ∈ returnedProject.workspace.entries,
        returnedProject.temporaryName ∉ pair.1)
    · intro step member key known
      rw [keys step member key known]
      decide
  · refine ⟨fun step member key known _ => keys step member key known, by decide, by decide, ?_⟩
    rintro ⟨step, member, key, known, same⟩
    rw [keys step member key known] at same
    revert same
    decide

theorem run_keeps_lines_returned :
    ∃ report after final, run { apply := true } smallLayout .absent returnedProject =
        .ok report after ∧
      after.workspace.readBytes returnedFile = .ok (Text.encode final) ∧
        KeepsLines [1] returnedText final := by
  obtain ⟨task, started, report, after, preparing, returned, seen⟩ :=
    observe_eq_some returnedProject_observed
  obtain ⟨planned, lines, _⟩ := by simpa only [Prod.mk.injEq] using seen
  have steps := (prepare_eq_ok preparing).1.plannedSteps_eq
  have known : ∀ step ∈ plannedSteps { apply := true } smallLayout returnedProject,
      (step.file, step.action) = (.text "f", .remove (.text "x")) := by
    intro step member
    rw [steps] at member
    have listed := List.mem_map_of_mem (f := fun step : Step => (step.file, step.action)) member
    rw [planned] at listed
    exact List.mem_singleton.mp listed
  obtain ⟨fresh, source⟩ := returnedProject_fresh fun step member =>
    congrArg Prod.fst (known step member)
  have clean : ∀ step ∈ plannedSteps { apply := true } smallLayout returnedProject,
      fileKey? returnedProject.project step.file = some returnedFile →
        '\n' ∉ step.action.inserted ∧ '\r' ∉ step.action.inserted := by
    intro step member _
    have action : step.action = .remove (.text "x") := congrArg Prod.snd (known step member)
    rw [action]
    exact ⟨List.not_mem_nil, List.not_mem_nil⟩
  have read : returnedProject.workspace.readBytes returnedFile = .ok (Text.encode returnedText) :=
    rfl
  obtain ⟨final, bytes, kept, _⟩ :=
    (run_keeps_lines rfl fresh source clean read).1 task started report after preparing returned
  rw [lines] at kept
  exact ⟨report, after, final, returned, bytes, kept⟩

/-- The second line loses its carriage return, though only the first is edited. -/
theorem carriage_return_lost :
    ∃ task started report after final,
      prepare { apply := true } smallLayout returnedProject = .ok task started ∧
      run { apply := true } smallLayout .absent returnedProject = .ok report after ∧
      appliedLines returnedProject.project returnedFile (task.steps.zip report.results) = [1] ∧
      returnedProject.workspace.readBytes returnedFile = .ok (Text.encode returnedText) ∧
      after.workspace.readBytes returnedFile = .ok (Text.encode final) ∧
      (endedLines returnedText)[1]? = some ⟨['z'], ['\r', '\n']⟩ ∧
      (endedLines final)[1]? = some ⟨['z'], ['\n']⟩ := by
  obtain ⟨task, started, report, after, preparing, returned, seen⟩ :=
    observe_eq_some returnedProject_observed
  obtain ⟨_, lines, bytes⟩ := by simpa only [Prod.mk.injEq] using seen
  refine ⟨task, started, report, after, ['y', '\n', 'z', '\n'], preparing, returned, lines, rfl, ?_,
    rfl, rfl⟩
  cases read : after.workspace.readBytes returnedFile with
  | error failure =>
      rw [read] at bytes
      cases bytes
  | ok found =>
      rw [read] at bytes
      exact congrArg Except.ok (Option.some.inj bytes)

end Migration

end Restyle
