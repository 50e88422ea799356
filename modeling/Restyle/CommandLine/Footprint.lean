import Restyle.CommandLine.Run

/-!
# Footprints

A command looks at few files of a project: the settings, the records of the
linter, and the files that its arguments and the steps of its plan name.  Its
footprint lists them as far as the files already known tell; with the files of
the footprint known, the footprint may grow.
-/

namespace Restyle.CommandLine

/-- The result of an activity, when it does not fail. -/
def resultIn (session : Session) (activity : Activity α) : Option α :=
  match activity session with
  | .ok result _ => some result
  | .error _ _ => none

/-- The file of a step and the copy that is made of it. -/
def stepPaths (session : Session) (step : Step) : List Path :=
  match resultIn session (Migration.pathOf step.file) with
  | some path => [path, path.withSuffix ".bak"]
  | none => []

/-- The path where a proposal finds its violations. -/
def sourcePaths (project : Path) (source : String) : List Path :=
  if source = "check" || source = "stdin" then [] else [project.join (Path.ofString source)]

/-- The paths that a command looks at in a layout. -/
def Command.pathsIn (session : Session) (layout : Layout) : Command → List Path
  | .propose request =>
      sourcePaths session.project request.source ++
        [(request.output.map fun output => session.project.join (Path.ofString output)).getD
          layout.plan]
  | .migrate request =>
      let plan :=
        (request.plan.map fun plan => session.project.resolve (Path.ofString plan)).getD
          layout.plan
      let steps := (resultIn session (Plan.load plan)).map (·.steps)
      [plan, layout.checkpoint, layout.stylesheet] ++
        (steps.getD []).flatMap (stepPaths session)
  | .promote _ => [layout.stylesheet]

def Command.footprint (session : Session) (command : Command) : List Path :=
  session.project.child Settings.fileName ::
    match resultIn session loadLayout with
    | some (_, layout) => command.pathsIn session layout
    | none => []

/-- How often a footprint can grow: the settings give the layout, and the plan
gives the files of its steps. -/
def footprintStages : Nat := 3

/-- The places that a path goes through from the root down. -/
def places (path : Path) : List Place :=
  (List.range path.names.length).map fun index => Path.follow [] (path.names.take (index + 1))

end Restyle.CommandLine
