import Restyle.Proofs.Migration.Records
import Restyle.Proofs.Migration.Running

/-!
# Projects with an errand

To work out what a run does in a given project, its plan need not be read from the
characters of the plan file, nor its digest be computed: a plan that its document gives is
stored wherever the document is written out, and a plan that can be written has a digest.
-/

namespace Restyle

namespace Migration

/-- The document of a step on a file. -/
def errandOn (file : String) (id : Json) (action : List (String × Json))
    (dependencies : List Json) : Json :=
  .object
    [("id", id), ("file", .text file), ("line", .integer 1), ("ruleId", .text "r"),
      ("severity", .text "error"), ("confidence", .integer 1),
      ("dependencies", .array dependencies), ("action", .object action)]

/-- The action that removes a class. -/
def removal (className : String) : List (String × Json) :=
  [("type", .text "remove"), ("className", .text className)]

/-- The document of a step that removes a class from a file. -/
def errand (id : Json) (className : String) (dependencies : List Json) : Json :=
  errandOn "f" id (removal className) dependencies

def errandFields (errands : List Json) : List (String × Json) :=
  [("version", .integer 1), ("steps", .array errands)]

/-- A project with a plan of errands and a file with three classes. -/
def errandProject (errands : List Json) : Session where
  workspace :=
    ⟨[(["p"], .directory),
      (["p", "plan"],
        .file (Text.encode (Json.pretty (.object (errandFields errands))).toList) 420),
      (["p", "f"], .file (Text.encode "x y z".toList) 420)]⟩
  project := ⟨.root, ["p"]⟩
  now := 0
  temporaryTag := "0"

theorem isTidy_errandOn (file : String) {id : Json} {action : List (String × Json)}
    {dependencies : List Json} (tidyId : Json.IsTidy id) (tidyAction : Json.IsTidy (.object action))
    (tidy : ∀ dependency ∈ dependencies, Json.IsTidy dependency) :
    Json.IsTidy (errandOn file id action dependencies) := by
  have one : Json.IsTidy (.integer 1) := Nat.one_lt_pow (by decide) (by decide)
  exact ⟨Json.areNames_plain (by simp [Text.spellingMark]), tidyId, trivial, one, trivial, trivial,
    one, Json.areTidy_iff.mpr tidy, tidyAction, trivial⟩

theorem isTidy_removal (className : String) : Json.IsTidy (.object (removal className)) :=
  ⟨Json.areNames_plain (by simp [removal, Text.spellingMark]), trivial, trivial, trivial⟩

theorem isTidy_errand {id : Json} (className : String) {dependencies : List Json}
    (tidyId : Json.IsTidy id) (tidy : ∀ dependency ∈ dependencies, Json.IsTidy dependency) :
    Json.IsTidy (errand id className dependencies) :=
  isTidy_errandOn "f" tidyId (isTidy_removal className) tidy

variable {errands : List Json} {plan : Plan} {steps : List Step} {options : MigrationOptions}
  {session : Session}

theorem errands_stored (tidy : ∀ errand ∈ errands, Json.IsTidy errand)
    (parsed : Plan.ofJson (.object (errandFields errands)) = .ok plan)
    (written : session.workspace.readBytes smallLayout.plan =
      .ok (Text.encode (Json.pretty (.object (errandFields errands))).toList)) :
    Plan.StoredAt session.workspace smallLayout.plan plan := by
  have one : Json.IsTidy (.integer 1) := Nat.one_lt_pow (by decide) (by decide)
  have tidyFields : Json.IsTidy (.object (errandFields errands)) :=
    ⟨Json.areNames_plain (by simp [errandFields, Text.spellingMark]), one,
      Json.areTidy_iff.mpr tidy, trivial⟩
  exact Plan.storedAt_pretty (by decide) tidyFields rfl parsed written

/-- A project with errands is prepared for a run from nothing. -/
theorem errand_prepares (tidy : ∀ errand ∈ errands, Json.IsTidy errand)
    (parsed : Plan.ofJson (.object (errandFields errands)) = .ok plan)
    (written : plan.digestInput.toOption.isSome = true)
    (scheduled : Schedule.ofSteps plan.steps = .ok ⟨steps, [], none⟩) :
    ∃ task, task.plan = plan ∧ task.checkpoint = none ∧ task.steps = steps ∧
      prepare { apply := true } smallLayout (errandProject errands) =
        .ok task (plan.noted smallLayout.plan (errandProject errands)) :=
  ⟨_, rfl, rfl, rfl,
    prepare_fresh rfl nofun rfl (errands_stored tidy parsed rfl) written scheduled⟩

/-! ## Errands on three files

The first file has a class that is to go and lacks another.  A step on the second file
depends on the one that fails for that, and a step after it moves a class into a token.
The third file cannot be written.
-/

def spreadErrands : List Json :=
  [errand (.text "a") "x" [], errand (.text "b") "q" [],
    errandOn "g" (.text "c") (removal "z") [.text "b"], errandOn "h" (.text "d") (removal "x") [],
    errandOn "g" (.text "e")
      [("type", .text "tokenize"), ("value", .text "y"), ("tokenName", .text "--t")] []]

def spreadPlan : Plan := (Plan.ofJson (.object (errandFields spreadErrands))).toOption.getD default

/-- The project with these files, given the text of the first one. -/
def spreadEntries (first : String) : List (Place × Entry) :=
  [(["p"], .directory),
    (["p", "plan"],
      .file (Text.encode (Json.pretty (.object (errandFields spreadErrands))).toList) 420),
    (["p", "f"], .file (Text.encode first.toList) 420),
    (["p", "g"], .file (Text.encode "x y z".toList) 420),
    (["p", "h"], .file (Text.encode "x y z".toList) 420)]

def spreadProject : Session where
  workspace := ⟨spreadEntries "x y z"⟩
  project := ⟨.root, ["p"]⟩
  now := 0
  temporaryTag := "0"
  trouble := fun path =>
    if path = ⟨.root, ["p", "h"]⟩ then some (.moving, { cause := .noSpace }) else none

def spreadFiles : List Path := [⟨.root, ["p", "f"]⟩, ⟨.root, ["p", "g"]⟩, ⟨.root, ["p", "h"]⟩]

theorem spreadPlan_read : Plan.ofJson (.object (errandFields spreadErrands)) = .ok spreadPlan := by
  decide +kernel

theorem isTidy_spreadErrands : ∀ errand ∈ spreadErrands, Json.IsTidy errand := by
  simp only [spreadErrands, List.forall_mem_cons]
  refine ⟨isTidy_errand _ trivial (by simp), isTidy_errand _ trivial (by simp),
    isTidy_errandOn _ trivial (isTidy_removal _) ?_,
    isTidy_errandOn _ trivial (isTidy_removal _) (by simp),
    isTidy_errandOn _ trivial ⟨Json.areNames_plain (by simp [Text.spellingMark]), trivial, trivial,
      trivial, trivial⟩ (by simp), by simp⟩
  exact List.forall_mem_singleton.mpr trivial

theorem spread_stored (written : session.workspace.readBytes smallLayout.plan =
    .ok (Text.encode (Json.pretty (.object (errandFields spreadErrands))).toList)) :
    Plan.StoredAt session.workspace smallLayout.plan spreadPlan :=
  errands_stored isTidy_spreadErrands spreadPlan_read written

/-- What a run from nothing prepares in that project. -/
def spreadTask : Task :=
  freshTask {} smallLayout spreadProject.project spreadPlan spreadPlan.steps

theorem spread_written : spreadPlan.digestInput.toOption.isSome = true := by
  decide +kernel

theorem spread_scheduled :
    Selection.filter {} spreadPlan.steps >>= Schedule.ofSteps =
      .ok ⟨spreadPlan.steps, [], none⟩ := by
  decide +kernel

theorem spread_prepares (apply : Bool) :
    prepare { apply } smallLayout spreadProject =
      .ok spreadTask (spreadPlan.noted smallLayout.plan spreadProject) :=
  prepare_fresh rfl nofun rfl (spread_stored rfl) spread_written spread_scheduled

theorem spread_key {step : Step} {key : Path} (member : step ∈ spreadPlan.steps)
    (known : fileKey? ⟨.root, ["p"]⟩ step.file = some key) : key ∈ spreadFiles := by
  have files : ∀ step ∈ spreadPlan.steps, ∃ key ∈ spreadFiles,
      fileKey? ⟨.root, ["p"]⟩ step.file = some key := by
    decide +kernel
  obtain ⟨other, listed, found⟩ := files step member
  exact Option.some.inj (known.symm.trans found) ▸ listed

end Migration

end Restyle
