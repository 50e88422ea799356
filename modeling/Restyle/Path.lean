/-!
# Paths

The paths of files, and those that a project keeps its own files at.
-/

namespace Restyle

/-! ## Paths

A path is an anchor and a list of names.  Empty names and single dots are
dropped when a path is read; double dots stay.  Joining an absolute path to
another gives the absolute path.
-/

/-- Where a path starts.  A path may start with exactly two slashes, which are
kept. -/
inductive Anchor where
  | relative | root | doubleRoot
  deriving DecidableEq, Repr, Inhabited

structure Path where
  anchor : Anchor
  names : List String
  deriving DecidableEq, Repr, Inhabited

namespace Path

/-- The anchor that a text starts with. -/
def anchorOf : List Char → Anchor
  | '/' :: '/' :: '/' :: _ => .root
  | '/' :: '/' :: _ => .doubleRoot
  | '/' :: _ => .root
  | _ => .relative

/-- Reads a path. -/
def ofString (text : String) : Path where
  anchor := anchorOf text.toList
  names :=
    ((text.toList.splitOn '/').filter fun name => name != [] && name != ['.']).map
      String.ofList

def Anchor.text : Anchor → String
  | .relative => ""
  | .root => "/"
  | .doubleRoot => "//"

/-- The text of a path; the empty relative path is a dot. -/
def toString (path : Path) : String :=
  if path.anchor = .relative ∧ path.names = [] then "."
  else Anchor.text path.anchor ++ "/".intercalate path.names

def isAbsolute (path : Path) : Bool := path.anchor != .relative

/-- The path of `other` seen from `base`. -/
def join (base other : Path) : Path :=
  if other.isAbsolute then other else { base with names := base.names ++ other.names }

/-- The path of a name below a path. -/
def child (base : Path) (name : String) : Path :=
  base.join (ofString name)

def parent (path : Path) : Path := { path with names := path.names.dropLast }

/-- The last name of a path. -/
def name (path : Path) : String := path.names.getLastD ""

/-- The path beside another with a suffix to its last name. -/
def withSuffix (path : Path) (suffix : String) : Path :=
  { path with names := path.names.dropLast ++ [path.name ++ suffix] }

/-- Follows names from a place, a double dot going one up. -/
def follow : (place names : List String) → List String
  | place, [] => place
  | place, name :: names =>
      if name = ".." then follow place.dropLast names else follow (place ++ [name]) names

/-- An absolute path without double dots. -/
def normalize (path : Path) : Path where
  anchor := .root
  names := follow [] path.names

/-- The place of a path seen from a directory: an absolute path stays as it is,
and a relative one is followed from there. -/
def resolve (base path : Path) : Path :=
  if path.isAbsolute then path else (base.join path).normalize

/-- Whether a path holds the null character. -/
def hasNull (path : Path) : Bool :=
  path.names.any fun name => name.toList.contains '\x00'

end Path

/-! ## The layout of a project

Where a project keeps its plan, its checkpoint and the shared stylesheet.
-/

structure Layout where
  plan : Path
  checkpoint : Path
  stylesheet : Path
  deriving DecidableEq, Repr, Inhabited

/-- The directory of the linter in a project, unless the settings say
otherwise. -/
def defaultDirectory : String := ".north"

/-- The layout below a directory of a project, with the stylesheet elsewhere if
one is given. -/
def Layout.below (project : Path) (directory : String) (stylesheet : Option String) : Layout :=
  let base := project.child directory
  { plan := (base.child "state").child "migration-plan.json"
    checkpoint := (base.child "state").child "migration-checkpoint.json"
    stylesheet :=
      match stylesheet with
      | some path => project.child path
      | none => (base.child "tokens").child "base.css" }

/-- The layout of a project without settings. -/
def Layout.default (project : Path) : Layout := .below project defaultDirectory none

end Restyle
