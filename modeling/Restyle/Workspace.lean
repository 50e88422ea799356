import Restyle.Path
import Restyle.Text.Quoted
import Restyle.Text.Utf8

/-!
# Workspaces

A workspace is a tree of directories and files, kept as a list of places with
what stands there.  Operations on it fail as those of a file system do.  There are no
links, and directories have no permissions: that a path cannot be looked at is for its
names only, when one on the way leads to no directory, or it is too long.
-/

namespace Restyle

/-- The names from the root down to a file or directory. -/
abbrev Place := List String

/-- What stands at a place. -/
inductive Entry where
  | file (bytes : List UInt8) (mode : Nat)
  | directory
  deriving DecidableEq, Repr, Inhabited

/-- Why an operation on a workspace fails. -/
inductive SystemCause where
  | notFound | alreadyExists | notDirectory | isDirectory | noSpace | busy | nameTooLong
  deriving DecidableEq, Repr, Inhabited

/-- A failed operation, with the path and the second path it was about. -/
structure SystemError where
  cause : SystemCause
  path : Option Path := none
  second : Option Path := none
  deriving DecidableEq, Repr, Inhabited

def SystemCause.message : SystemCause → String
  | .notFound => "[Errno 2] No such file or directory"
  | .alreadyExists => "[Errno 17] File exists"
  | .notDirectory => "[Errno 20] Not a directory"
  | .isDirectory => "[Errno 21] Is a directory"
  | .noSpace => "[Errno 28] No space left on device"
  | .busy => "[Errno 16] Device or resource busy"
  | .nameTooLong => "[Errno 36] File name too long"

def SystemError.message (error : SystemError) : String :=
  error.cause.message ++
    (match error.path with
      | some path => ": " ++ Text.quote path.toString
      | none => "") ++
    (match error.second with
      | some path => " -> " ++ Text.quote path.toString
      | none => "")

/-- A tree of directories and files, without links.  The root is always a directory. -/
structure Workspace where
  entries : List (Place × Entry) := []
  deriving DecidableEq, Repr, Inhabited

namespace Workspace

/-- What stands at a place. -/
def get? (workspace : Workspace) (place : Place) : Option Entry :=
  if place = [] then some .directory else workspace.entries.lookup place

/-- Puts something at a place: instead of what stands there, or new. -/
def putEntry (place : Place) (entry : Entry) : List (Place × Entry) → List (Place × Entry)
  | [] => [(place, entry)]
  | (other, old) :: entries =>
      if other = place then (other, entry) :: entries
      else (other, old) :: putEntry place entry entries

def put (workspace : Workspace) (place : Place) (entry : Entry) : Workspace :=
  ⟨putEntry place entry workspace.entries⟩

/-- Takes away what stands at a place. -/
def erase (workspace : Workspace) (place : Place) : Workspace :=
  ⟨workspace.entries.filter fun entry => entry.1 != place⟩

def nameLimit : Nat := 255

/-- A path has fewer bytes than this. -/
def pathLimit : Nat := 4096

/-- Follows names from a place.  Every place on the way must be a directory, and
no name that is looked up in one may be too long. -/
def locateFrom (workspace : Workspace) : Place → List String → Except SystemCause Place
  | place, [] => .ok place
  | place, name :: names =>
      match workspace.get? place with
      | none => .error .notFound
      | some (.file _ _) => .error .notDirectory
      | some .directory =>
          if nameLimit < name.utf8ByteSize then .error .nameTooLong
          else if name = ".." then locateFrom workspace place.dropLast names
          else locateFrom workspace (place ++ [name]) names

/-- The place of a path, whether or not anything stands there. -/
def locate (workspace : Workspace) (path : Path) : Except SystemCause Place :=
  if pathLimit ≤ path.toString.utf8ByteSize then .error .nameTooLong
  else locateFrom workspace [] path.names

/-- What stands at the place of a path. -/
def stat (workspace : Workspace) (path : Path) : Except SystemCause Entry :=
  match workspace.locate path with
  | .error cause => .error cause
  | .ok place =>
      match workspace.get? place with
      | some entry => .ok entry
      | none => .error .notFound

def isDirectory (workspace : Workspace) (path : Path) : Bool :=
  match workspace.stat path with
  | .ok .directory => true
  | _ => false

/-- Whether anything stands at the place of a path. -/
def pathExists (workspace : Workspace) (path : Path) : Bool :=
  match workspace.stat path with
  | .ok _ => true
  | .error _ => false

def readBytes (workspace : Workspace) (path : Path) : Except SystemError (List UInt8) :=
  match workspace.stat path with
  | .error cause => .error { cause, path := some path }
  | .ok .directory => .error { cause := .isDirectory, path := some path }
  | .ok (.file bytes _) => .ok bytes

/-- The permissions of what stands at a path, if anything does. -/
def mode? (workspace : Workspace) (path : Path) : Except SystemError (Option Nat) :=
  match workspace.stat path with
  | .ok (.file _ mode) => .ok (some mode)
  | .ok .directory => .ok (some 0o755)
  | .error .notFound => .ok none
  | .error cause => .error { cause, path := some path }

def newFileMode : Nat := 0o644

/-- Writes a file, keeping its permissions when it is there. -/
def writeBytes (workspace : Workspace) (path : Path) (bytes : List UInt8) :
    Except SystemError Workspace :=
  match workspace.locate path with
  | .error cause => .error { cause, path := some path }
  | .ok place =>
      match workspace.get? place with
      | some .directory => .error { cause := .isDirectory, path := some path }
      | some (.file _ mode) => .ok (workspace.put place (.file bytes mode))
      | none => .ok (workspace.put place (.file bytes newFileMode))

def makeDirectory (workspace : Workspace) (path : Path) : Except SystemCause Workspace :=
  match workspace.locate path with
  | .error cause => .error cause
  | .ok place =>
      if path.names.getLast? = some ".." then .error .alreadyExists
      else
        match workspace.get? place with
        | some _ => .error .alreadyExists
        | none => .ok (workspace.put place .directory)

/-- Makes a directory unless it is there. -/
def ensureDirectory (workspace : Workspace) (path : Path) : Except SystemError Workspace :=
  match workspace.makeDirectory path with
  | .ok made => .ok made
  | .error .notFound => .error { cause := .notFound, path := some path }
  | .error cause =>
      if workspace.isDirectory path then .ok workspace
      else .error { cause, path := some path }

/-- Makes a directory and those above it unless they are there.  The path is
given by its anchor and its names, last name first.  What was made stays when a
later part fails. -/
def ensureDirectories (workspace : Workspace) (anchor : Anchor) :
    (reversed : List String) → Workspace × Option SystemError
  | [] => (workspace, none)
  | name :: above =>
      let path : Path := ⟨anchor, (name :: above).reverse⟩
      match workspace.makeDirectory path with
      | .ok made => (made, none)
      | .error .notFound =>
          match workspace.ensureDirectories anchor above with
          | (made, some error) => (made, some error)
          | (made, none) =>
              match made.ensureDirectory path with
              | .ok whole => (whole, none)
              | .error error => (made, some error)
      | .error cause =>
          if workspace.isDirectory path then (workspace, none)
          else (workspace, some { cause, path := some path })

def setMode (workspace : Workspace) (path : Path) (mode : Nat) : Workspace :=
  match workspace.locate path with
  | .error _ => workspace
  | .ok place =>
      match workspace.get? place with
      | some (.file bytes _) => workspace.put place (.file bytes mode)
      | _ => workspace

/-- Takes away a file.  A directory stays. -/
def removeFile (workspace : Workspace) (path : Path) : Workspace :=
  match workspace.locate path with
  | .error _ => workspace
  | .ok place =>
      match workspace.get? place with
      | some (.file _ _) => workspace.erase place
      | _ => workspace

/-- Moves a file to the place of another path, over the file there.  A path
that names no entry of its directory is held by the system. -/
def moveOver (workspace : Workspace) (source target : Path) : Except SystemError Workspace :=
  let fail (cause : SystemCause) : Except SystemError Workspace :=
    .error { cause, path := some source, second := some target }
  match workspace.locate source, workspace.locate target with
  | .error cause, _ => fail cause
  | _, .error cause => fail cause
  | .ok sourcePlace, .ok targetPlace =>
      if target.names = [] || target.names.getLast? = some ".." then fail .busy
      else
        match workspace.get? sourcePlace, workspace.get? targetPlace with
        | none, _ => fail .notFound
        | _, some .directory => fail .isDirectory
        | some entry, _ => .ok ((workspace.erase sourcePlace).put targetPlace entry)

end Workspace

end Restyle
