import Restyle.Proofs.Migration.Stylesheet

/-!
# Spellings of a file

Steps may name one file in several ways.  The path that a name denotes is found
by joining the name to the project and removing the dots.  A relative name is
looked up at this path, and so is an absolute one without double dots; but an
absolute name with double dots is taken as it stands, and then the file has two
buffers, the later of which overwrites the other.  As long as the names of a file
are plain in this sense, the file ends with the edits of all its applied steps.
-/

namespace Restyle

namespace Path

variable {base path : Path} {place names : List String}

theorem up_not_mem_follow (plain : ".." ∉ place) : ".." ∉ follow place names := by
  induction names generalizing place with
  | nil => exact plain
  | cons name names induction =>
      by_cases up : name = ".."
      · simp only [follow, up, if_true]
        exact induction fun member => plain (List.dropLast_subset _ member)
      · simp only [follow, up, if_false]
        refine induction fun member => ?_
        rcases List.mem_append.mp member with before | here
        · exact plain before
        · exact up (List.mem_singleton.mp here).symm

/-- Whether a path is relative, or an absolute one without double dots whose anchor is the
single slash: a path that begins with just two slashes has another root. -/
def IsPlain (path : Path) : Prop :=
  path.isAbsolute = true → path.anchor = .root ∧ ".." ∉ path.names

instance : Decidable path.IsPlain := inferInstanceAs (Decidable (_ → _))

theorem place_normalize (path : Path) : path.normalize.place = path.place := by
  have plain : ".." ∉ follow [] path.names := up_not_mem_follow List.not_mem_nil
  show follow [] (follow [] path.names) = follow [] path.names
  rw [follow_of_plain plain, List.nil_append]

theorem place_resolve (base path : Path) : (base.resolve path).place = (base.join path).place := by
  unfold resolve
  split
  · rename_i absolute
    rw [join, if_pos absolute]
  · exact place_normalize _

/-- The plain paths are those that resolve to the path that they denote. -/
theorem resolve_eq_normalize_iff :
    base.resolve path = (base.join path).normalize ↔ path.IsPlain := by
  cases absolute : path.isAbsolute with
  | false => simp [resolve, IsPlain, absolute]
  | true =>
      simp only [resolve, join, IsPlain, absolute, if_true, true_imp_iff]
      constructor
      · intro normal
        rw [normal]
        exact ⟨rfl, up_not_mem_follow List.not_mem_nil⟩
      · rintro ⟨root, plain⟩
        rw [normalize, follow_of_plain plain, List.nil_append, ← root]

end Path

namespace Migration

variable {options : MigrationOptions} {layout : Layout} {index : IndexRebuild} {task : Task}
  {report : RunReport} {session started after : Session} {project path : Path}
  {steps : List Step}

/-- The path that the file of a step denotes. -/
def denoted? (project : Path) : Json → Option Path
  | .text name => some (project.join (Path.ofString name)).normalize
  | _ => none

def IsPlainName : Json → Prop
  | .text name => (Path.ofString name).IsPlain
  | _ => True

theorem fileKey?_of_plain {file : Json} {key : Path} (plain : IsPlainName file)
    (known : fileKey? project file = some key) : denoted? project file = some key := by
  cases file with
  | text name =>
      simp only [fileKey?] at known
      split at known
      · cases known
      · rw [← known]
        exact congrArg some (Path.resolve_eq_normalize_iff.mpr plain).symm
  | _ => cases known

theorem denoted?_of_place {file : Json} {key : Path} (canonical : path.normalize = path)
    (known : fileKey? project file = some key) (same : key.place = path.place) :
    denoted? project file = some path := by
  cases file with
  | text name =>
      simp only [fileKey?] at known
      split at known
      · cases known
      · obtain rfl := Option.some.inj known
        rw [Path.place_resolve] at same
        rw [← canonical]
        exact congrArg (fun place => some (Path.mk .root place)) same
  | _ => cases known

/-- A file whose names are all plain is known to the run by one path. -/
theorem IsSource.of_plain (canonical : path.normalize = path)
    (plain : ∀ step ∈ steps, denoted? session.project step.file = some path →
      IsPlainName step.file)
    (notStylesheet : path.place ≠ layout.stylesheet.place)
    (notCheckpoint : path.place ≠ layout.checkpoint.place)
    (notBackup : ¬ IsBackupPlace session.project steps path.place) :
    IsSource session layout steps path where
  unaliased := by
    intro step member key known same
    have denoted := denoted?_of_place canonical known same
    have direct := fileKey?_of_plain (plain step member denoted) known
    exact Option.some.inj (direct.symm.trans denoted)
  notStylesheet := notStylesheet
  notCheckpoint := notCheckpoint
  notBackup := notBackup

/-- Whether each step finds its target in the text that the steps before it
make. -/
def Locates : List Char → List Step → Prop
  | _, [] => True
  | text, step :: steps =>
      (∃ edit, step.edit text = .ok (some edit)) ∧ Locates (step.applyTo text) steps

theorem Accounts.applied {text : List Char} {pairs : List (Step × StepResult)}
    (accounted : Accounts text pairs) :
    editInOrder text (pairs.map Prod.fst) = editInOrder text (appliedSteps pairs) ∧
      Locates text (appliedSteps pairs) := by
  induction pairs generalizing text with
  | nil => exact ⟨rfl, trivial⟩
  | cons pair pairs induction =>
      obtain ⟨found, _, rest⟩ := accounted
      obtain ⟨same, located⟩ := induction rest
      by_cases applied : pair.2.status = .applied
      · have split : appliedSteps (pair :: pairs) = pair.1 :: appliedSteps pairs := by
          simp [appliedSteps, applied]
        rw [split]
        exact ⟨same, found.mp applied, located⟩
      · have split : appliedSteps (pair :: pairs) = appliedSteps pairs := by
          simp [appliedSteps, applied]
        have unchanged : pair.1.applyTo text = text := by
          unfold Step.applyTo
          split
          · rename_i edit made
            exact absurd (found.mpr ⟨edit, made⟩) applied
          · rfl
        rw [unchanged] at same located
        rw [split, List.map_cons, editInOrder_cons, unchanged]
        exact ⟨same, located⟩

theorem HaveKeys.refuseEach {results : List StepResult} (keyed : HaveKeys project results)
    (refused : List (Path × String)) : HaveKeys project (results.map (refuseAll project refused)) := by
  intro result member applied
  obtain ⟨old, among, rfl⟩ := List.mem_map.mp member
  rw [refuseAll_status] at applied
  split at applied
  · cases applied
  · rw [refuseAll_file]
    exact keyed old among applied

/-- The results of a run are those of its first steps, and the applied ones have
a path. -/
theorem run_haveKeys (applying : options.apply = true)
    (returned : run options layout index session = .ok report after) :
    HaveKeys session.project report.results := by
  obtain ⟨task, started, prepared, course⟩ := run_cases applying returned
  have quiet := (prepare_eq_ok prepared).2
  rw [← quiet.project]
  rcases course with ⟨_, rfl, _⟩ | ⟨_, applies⟩
  · intro result member
    cases member
  · cases applies with
    | intro _ _ execution commitment _ _ _ _ conclusion =>
        obtain ⟨_, _, _, _, _, _, reported, _, _⟩ := conclude_eq_ok conclusion
        rw [reported, commitment.results, execution.sameSetting.project]
        refine HaveKeys.refuseEach (execution.haveKeys ?_) _
        rw [startState_results]
        intro result member
        cases member

/-- The steps that are reported as applied to a file, however it is named. -/
def appliedTo (project path : Path) (pairs : List (Step × StepResult)) : List Step :=
  (appliedSteps pairs).filter fun step => denoted? project step.file = some path

/-- With plain names, the applied steps of a file are those whose path is its
own. -/
theorem appliedTo_eq {results : List StepResult} (canonical : path.normalize = path)
    (plain : ∀ step ∈ steps, denoted? project step.file = some path → IsPlainName step.file)
    (keyed : HaveKeys project results)
    (subjects : results.map StepResult.subject = steps.map Step.subject) :
    appliedTo project path (steps.zip results) =
      appliedSteps (attemptedOn project path (steps.zip results)) := by
  have same : ∀ pair ∈ steps.zip results, pair.2.status = .applied →
      (denoted? project pair.1.file = some path ↔ fileKey? project pair.1.file = some path) := by
    intro pair member applied
    have file : pair.2.file = pair.1.file := congrArg (·.2.1) (subject_of_zip subjects member)
    obtain ⟨among, result⟩ := List.of_mem_zip member
    obtain ⟨key, known⟩ := keyed pair.2 result applied
    rw [file] at known
    constructor
    · intro denoted
      have direct := fileKey?_of_plain (plain pair.1 among denoted) known
      rw [known, ← direct, denoted]
    · intro here
      obtain rfl := Option.some.inj (here.symm.trans known)
      exact denoted?_of_place canonical known rfl
  unfold appliedTo appliedSteps attemptedOn
  rw [List.filter_map, List.filter_filter, List.filter_filter]
  congr 1
  apply List.filter_congr
  intro pair member
  by_cases applied : pair.2.status = .applied
  · simp [applied, same pair member applied]
  · simp [applied]

/-- Refusals leave the applied steps of a file as they are, or fail them all. -/
theorem appliedSteps_refuseAll {outcomes : List StepResult} (refused : List (Path × String))
    (subjects : outcomes.map StepResult.subject = steps.map Step.subject) :
    appliedSteps (attemptedOn project path
        (steps.zip (outcomes.map (refuseAll project refused)))) =
      if path ∈ refused.map Prod.fst then []
      else appliedSteps (attemptedOn project path (steps.zip outcomes)) := by
  have statuses : ∀ pair ∈ attemptedOn project path (steps.zip outcomes),
      (refuseAll project refused pair.2).status = .applied ↔
        path ∉ refused.map Prod.fst ∧ pair.2.status = .applied := by
    intro pair member
    have key := key_of_attempted subjects member
    by_cases listed : path ∈ refused.map Prod.fst
    · simp only [listed, not_true_eq_false, false_and, iff_false]
      rw [refuseAll_status]
      split
      · nofun
      · rename_i other
        obtain ⟨entry, among, same⟩ := List.mem_map.mp listed
        exact fun applied => other ⟨entry, among, applied, same ▸ key⟩
    · rw [(refuseAll_status_of_key key).1 listed]
      simp [listed]
  rw [attemptedOn_refuseAll]
  unfold appliedSteps
  rw [List.filter_map, List.map_map]
  split
  · rename_i listed
    rw [List.map_eq_nil_iff, List.filter_eq_nil_iff]
    intro pair member applied
    exact ((statuses pair member).mp (of_decide_eq_true applied)).1 listed
  · rename_i unlisted
    congr 1
    apply List.filter_congr
    intro pair member
    have same := statuses pair member
    simp only [unlisted, not_false_eq_true, true_and] at same
    exact decide_eq_decide.mpr same

/-- A run that returns leaves a file with the edits of all steps that it reports
as applied to the file, made one after the other, however the steps name the
file, as long as the names are plain.  Each of these steps found its target in
the text that the others had left to it, and no applied step is lost. -/
theorem plain_spellings_share_edits {initial : String} (applying : options.apply = true)
    (returned : run options layout index session = .ok report after)
    (prepared : prepare options layout session = .ok task started)
    (fresh : FreshTag session task.steps) (canonical : path.normalize = path)
    (plain : ∀ step ∈ task.steps, denoted? session.project step.file = some path →
      IsPlainName step.file)
    (notStylesheet : path.place ≠ layout.stylesheet.place)
    (notCheckpoint : path.place ≠ layout.checkpoint.place)
    (notBackup : ¬ IsBackupPlace session.project task.steps path.place)
    (readable : session.workspace.readText path = .ok initial) :
    let applied := appliedTo session.project path (task.steps.zip report.results)
    let text := editInOrder initial.toList applied
    (∀ step ∈ applied, fileKey? session.project step.file = some path) ∧
      Locates initial.toList applied ∧
        after.workspace.readBytes path =
          if text = initial.toList then session.workspace.readBytes path
          else .ok (Text.encode text) := by
  have readableList : session.workspace.readText path =
      .ok (String.ofList initial.toList) := by
    rw [String.ofList_toList]
    exact readable
  obtain ⟨done, cut, outcomes, refused, split, results, subjects, accounted, finished⟩ :=
    run_finishes applying returned prepared fresh
      (IsSource.of_plain canonical plain notStylesheet notCheckpoint notBackup) readableList
  have subjectsReported : report.results.map StepResult.subject = done.map Step.subject := by
    rw [results, subjects_refuseAll, subjects]
  have aligned : report.results.length = done.length := by
    simpa using congrArg List.length subjectsReported
  have whole : appliedTo session.project path (task.steps.zip report.results) =
      appliedSteps (attemptedOn session.project path (done.zip report.results)) := by
    rw [split, zip_cut aligned]
    refine appliedTo_eq canonical (fun step member => plain step ?_)
      (run_haveKeys applying returned) subjectsReported
    rw [split]
    exact List.mem_append_left _ member
  obtain ⟨same, located⟩ := accounted.applied
  rw [same] at finished
  dsimp only
  have keys : ∀ step ∈ appliedTo session.project path (task.steps.zip report.results),
      fileKey? session.project step.file = some path := by
    rw [whole]
    intro step member
    obtain ⟨pair, among, rfl⟩ := List.mem_map.mp member
    have attempted := (List.mem_filter.mp (List.mem_filter.mp among).1).2
    exact (of_decide_eq_true attempted).2
  refine ⟨keys, ?_⟩
  rw [whole, results, appliedSteps_refuseAll refused subjects]
  by_cases listed : path ∈ refused.map Prod.fst
  · have changed : editInOrder initial.toList (appliedSteps
        (attemptedOn session.project path (done.zip outcomes))) ≠ initial.toList :=
      fun unchanged => (finished.unchanged unchanged).1 listed
    have rejected : ¬ session.Accepts path :=
      fun accepted => (finished.stored changed accepted).1 listed
    rw [if_pos listed, editInOrder_nil, if_pos rfl]
    exact ⟨trivial, (finished.refused changed rejected).2⟩
  · rw [if_neg listed]
    refine ⟨located, ?_⟩
    split
    · rename_i unchanged
      exact (finished.unchanged unchanged).2
    · rename_i changed
      by_cases accepted : session.Accepts path
      · exact (finished.stored changed accepted).2
      · exact absurd (finished.refused changed accepted).1 listed

/-- The document of a step that replaces a class in a file. -/
def replacement (id file before after : String) : Json :=
  .object
    [("id", .text id), ("file", .text file), ("line", .integer 1), ("ruleId", .text ""),
      ("severity", .text "info"), ("confidence", .integer 1),
      ("action", .object
        [("type", .text "replace"), ("from", .text before), ("to", .text after)])]

/-- A project with a file and a plan of two replacements in it, each of which
names the file in its own way. -/
def spelledProject (first second : String) : Session where
  workspace :=
    ⟨[(["p"], .directory),
      (["p", "plan"], .file (Text.encode (Json.compactText (.object
        [("version", .integer 1),
          ("steps", .array [replacement "a" first "x" "1", replacement "b" second "y" "2"])])))
        420),
      (["p", "f"], .file (Text.encode "x y".toList) 420)]⟩
  project := ⟨.root, ["p"]⟩
  now := 0
  temporaryTag := "0"

/-- What is seen of a run: the files of the steps, how they ended, the text that
the applied steps make of the file, and the file. -/
def spellingView (task : Task) (report : RunReport) (after : Session) :
    List Json × List StepStatus × List Char × Option (List UInt8) :=
  (task.steps.map Step.file, report.results.map StepResult.status,
    editInOrder "x y".toList
      (appliedTo ⟨.root, ["p"]⟩ tokenFile (task.steps.zip report.results)),
    (after.workspace.readBytes tokenFile).toOption)

theorem plain_observed :
    observe { apply := true } smallLayout .absent (spelledProject "d/../f" "/p/f") spellingView =
      some ([.text "d/../f", .text "/p/f"], [.applied, .applied], "1 2".toList,
        some (Text.encode "1 2".toList)) := by
  rw [observe_loads]
  decide +kernel

theorem aliased_observed :
    observe { apply := true } smallLayout .absent (spelledProject "f" "/p/../p/f") spellingView =
      some ([.text "f", .text "/p/../p/f"], [.applied, .applied], "1 2".toList,
        some (Text.encode "x 2".toList)) := by
  rw [observe_loads]
  decide +kernel

theorem plain_spellings_share_edits_twice :
    ∃ report after,
      run { apply := true } smallLayout .absent (spelledProject "d/../f" "/p/f") =
          .ok report after ∧
        after.workspace.readBytes tokenFile = .ok (Text.encode "1 2".toList) := by
  obtain ⟨task, started, report, after, prepared, returned, seen⟩ := observe_eq_some plain_observed
  simp only [spellingView, Prod.mk.injEq] at seen
  obtain ⟨files, _, text, _⟩ := seen
  have named : ∀ step ∈ task.steps, step.file = .text "d/../f" ∨ step.file = .text "/p/f" := by
    intro step member
    have listed := List.mem_map_of_mem (f := Step.file) member
    rw [files] at listed
    simpa using listed
  have keys : ∀ step ∈ task.steps, ∀ key,
      fileKey? ⟨.root, ["p"]⟩ step.file = some key → key = tokenFile := by
    intro step member key known
    rcases named step member with file | file
    · rw [file] at known
      exact Option.some.inj (known.symm.trans (by decide))
    · rw [file] at known
      exact Option.some.inj (known.symm.trans (by decide))
  have fresh : FreshTag (spelledProject "d/../f" "/p/f") task.steps := by
    refine FreshTag.of_entries ?_ ?_ fun step member key known => ?_
    · decide
    · decide
    · rw [keys step member key known]
      decide
  have plain : ∀ step ∈ task.steps, denoted? ⟨.root, ["p"]⟩ step.file = some tokenFile →
      IsPlainName step.file := by
    intro step member _
    rcases named step member with file | file
    · rw [file]
      exact (by decide : (Path.ofString "d/../f").IsPlain)
    · rw [file]
      exact (by decide : (Path.ofString "/p/f").IsPlain)
  have notBackup : ¬ IsBackupPlace ⟨.root, ["p"]⟩ task.steps tokenFile.place := by
    rintro ⟨step, member, key, known, same⟩
    rw [keys step member key known] at same
    revert same
    decide
  have read : (spelledProject "d/../f" "/p/f").workspace.readBytes tokenFile =
      .ok (Text.encode "x y".toList) := rfl
  have readable : (spelledProject "d/../f" "/p/f").workspace.readText tokenFile = .ok "x y" :=
    Workspace.readText_eq_ok_iff.mpr ⟨_, "x y".toList, read, rfl, rfl⟩
  obtain ⟨_, _, stored⟩ := plain_spellings_share_edits rfl returned prepared fresh (by decide)
    plain (by decide) (by decide) notBackup readable
  have changed : editInOrder "x y".toList (appliedTo (spelledProject "d/../f" "/p/f").project
      tokenFile (task.steps.zip report.results)) = "1 2".toList := text
  rw [changed, if_neg (by decide)] at stored
  exact ⟨report, after, returned, stored⟩

/-- With an absolute name that has double dots, one of two applied steps on a file
is lost. -/
theorem aliased_edit_lost :
    ∃ task started report after,
      prepare { apply := true } smallLayout (spelledProject "f" "/p/../p/f") =
          .ok task started ∧
        run { apply := true } smallLayout .absent (spelledProject "f" "/p/../p/f") =
          .ok report after ∧
        report.results.map StepResult.status = [.applied, .applied] ∧
        (∀ step ∈ task.steps, denoted? ⟨.root, ["p"]⟩ step.file = some tokenFile) ∧
        editInOrder "x y".toList (appliedTo ⟨.root, ["p"]⟩ tokenFile
          (task.steps.zip report.results)) = "1 2".toList ∧
        after.workspace.readBytes tokenFile = .ok (Text.encode "x 2".toList) := by
  obtain ⟨task, started, report, after, prepared, returned, seen⟩ :=
    observe_eq_some aliased_observed
  simp only [spellingView, Prod.mk.injEq] at seen
  obtain ⟨files, statuses, text, stored⟩ := seen
  refine ⟨task, started, report, after, prepared, returned, statuses, ?_, text,
    readBytes_of_toOption stored⟩
  intro step member
  have listed := List.mem_map_of_mem (f := Step.file) member
  rw [files] at listed
  simp only [List.mem_cons, List.not_mem_nil, or_false] at listed
  rcases listed with file | file
  · rw [file]
    decide
  · rw [file]
    decide

end Migration

end Restyle
