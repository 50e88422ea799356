import Restyle.Proofs.Migration.Preparation

/-!
# Loading from characters

A plan file is read as a string, of which the reader takes the characters.  To work
out what a run does with a given project, the characters of the file serve as they
are; packing them into a string and unpacking them again is most of the work.
-/

namespace Restyle

namespace Json

def readCharacters (text : List Char) : Except ReadError Json :=
  match readDocument text with
  | .ok value => .ok value
  | .error stop => .error (stop.locate text)

theorem read_ofList (text : List Char) : read (String.ofList text) = readCharacters text := by
  unfold read readCharacters
  rewrite [String.toList_ofList]
  cases readDocument text with
  | ok value => rfl
  | error stop => rfl

end Json

namespace Plan

/-- Reads a plan from the document of a plan file. -/
def ofDocument (document : Json) : Except Failure Plan :=
  match document with
  | .object fields =>
      let version := Json.fieldOr "version" .null fields
      if Json.same version planVersion then
        match Plan.ofJson document with
        | .ok plan => .ok plan
        | .error fault => .error (fieldFailure fault)
      else .error (.planFormat (.wrongVersion version))
  | _ => .error (.planFormat .notObject)

/-- Reads a plan from the characters of a plan file. -/
def ofCharacters (text : List Char) : Except Failure Plan :=
  match Json.readCharacters text with
  | .ok document => ofDocument document
  | .error (.tooLong digits) => .error (.value (.integerTooLong digits))
  | .error error => .error (.planFormat (.unparsable error))

theorem ofText_ofList (text : List Char) : ofText (String.ofList text) = ofCharacters text := by
  unfold ofText readDocument ofCharacters
  rewrite [Json.read_ofList]
  cases Json.readCharacters text with
  | ok document => rfl
  | error error => cases error <;> rfl

/-- Loads the plan of a plan file from its characters. -/
def loadCharacters (path : Path) : Activity Plan := do
  Activity.requirePath path
  let unreadable (failure : ReadFailure) : Activity Plan :=
    if failure.isMissing then throw (.planMissing path)
    else throw (.planFormat (.unreadable failure))
  match (← get).workspace.readBytes path with
  | .error error => unreadable (.system error)
  | .ok bytes =>
      match Text.decode bytes with
      | .error fault => unreadable (.encoding fault)
      | .ok text =>
          let plan ← Activity.lift (ofCharacters (Text.unifyBreaks text))
          Activity.log .debug .records
            ("Loaded plan " ++ path.toString ++ " with " ++ toString plan.steps.length ++
              " step(s)")
          return plan

theorem load_eq (path : Path) : load path = loadCharacters path := by
  unfold load loadCharacters Activity.readText
  rw [bind_assoc]
  congr 1
  funext _
  rw [bind_assoc]
  congr 1
  funext session
  cases session.workspace.readBytes path with
  | error error => rfl
  | ok bytes =>
      dsimp only
      cases Text.decode bytes with
      | error fault => rfl
      | ok text =>
          dsimp only
          rewrite [pure_bind, ← ofText_ofList]
          rfl

/-- The plan that is loaded from the characters of a plan file, if one is. -/
def loaded? (path : Path) (session : Session) : Option Plan :=
  match loadCharacters path session with
  | .ok plan _ => some plan
  | .error _ _ => none

theorem storedAt_of_loaded? {path : Path} {session : Session} {plan : Plan}
    (loaded : loaded? path session = some plan) : StoredAt session.workspace path plan := by
  unfold loaded? at loaded
  rw [← load_eq] at loaded
  cases outcome : load path session with
  | error failure stopped =>
      rw [outcome] at loaded
      cases loaded
  | ok found after =>
      rw [outcome] at loaded
      obtain rfl : found = plan := Option.some.inj loaded
      exact (load_eq_ok outcome).1

end Plan

namespace Migration

/-- The part of a run before anything is done, given how a plan is loaded. -/
def prepareWith (load : Path → Activity Plan) (options : MigrationOptions) (layout : Layout) :
    Activity Task := do
  let planPath := (← options.planPath.mapM place).getD layout.plan
  let plan ← load planPath
  let digest ← Activity.value plan.digest
  let checkpoint ←
    if options.resume then resumeFrom layout.checkpoint digest else pure none
  let steps ← schedule (selectionOf options checkpoint) plan.steps
  return { planPath, plan, digest, checkpoint, steps }

theorem prepare_loads (options : MigrationOptions) (layout : Layout) :
    prepare options layout = prepareWith Plan.loadCharacters options layout := by
  have same : Plan.load = Plan.loadCharacters := funext Plan.load_eq
  rw [← same]
  rfl

end Migration

end Restyle
