import Restyle.CommandLine.Footprint
import Restyle.Display
import Std.Time.DateTime.Timestamp

/-!
# The program

The outermost layer.  It brings the footprint of a command into a workspace,
runs the command on that workspace, shows what the command shows, and writes
what it changed back to disk.  A command that asks a question is run again
with one more answer: it does the same up to the question and goes on from
there.
-/

namespace Restyle.Program

open Restyle.CommandLine

def placeText (place : Place) : String := "/" ++ "/".intercalate place

/-- Brings what stands at a place on disk into a workspace. -/
def loadPlace (workspace : Workspace) (place : Place) : IO Workspace := do
  let path := (← IO.currentDir) / placeText place
  if ← path.isDir then return workspace.put place .directory
  else if ← path.pathExists then
    let bytes ← IO.FS.readBinFile path
    return workspace.put place (.file bytes.toList Workspace.newFileMode)
  else return workspace.erase place

/-- Brings the paths of a footprint into the workspace of a session. -/
def loadPaths (session : Session) (paths : List Path) : IO Session := do
  let workspace ← (paths.flatMap places).eraseDups.foldlM loadPlace session.workspace
  return { session with workspace }

/-- Brings the footprint of a command into the workspace of a session. -/
def loadFootprint (command : Command) : (stages : Nat) → Session → IO Session
  | 0, session => return session
  | stages + 1, session => do
      loadFootprint command stages (← loadPaths session (command.footprint session))

/-- Writes the differences between two workspaces to disk.  A file that is there
is written in place and so keeps its permissions. -/
def storeChanges (before after : Workspace) : IO Unit := do
  for (place, entry) in after.entries do
    if before.get? place != some entry then
      match entry with
      | .directory => IO.FS.createDirAll (placeText place)
      | .file bytes _ => IO.FS.writeBinFile (placeText place) ⟨bytes.toArray⟩

/-- Writes a text to an outlet. -/
def emit : Outlet → String → IO Unit
  | .output, text => IO.print text
  | .errors, text => IO.eprint text

/-- Shows what a session logged and showed after the parts that are known. -/
def showNews (level : LogLevel) (known session : Session) : IO Unit := do
  for entry in session.log.drop known.log.length do
    if level.rank ≤ entry.level.rank then emit .errors (entry.line ++ "\n")
  for shown in session.shown.drop known.shown.length do
    emit shown.outlet shown.toText

/-- The question about a step. -/
def question : String := "Apply this change? [y]es / [n]o / [q]uit / [a]ll remaining: "

/-- A line of input without its end, unless the input is at its end. -/
def readAnswer : IO (Option String) := do
  let line ← (← IO.getStdin).getLine
  if line.isEmpty then return none
  else return some (String.ofList (Text.dropFinalFeed line.toList))

/-- Ends a command: writes what it changed, and its output. -/
def finish (start after : Session) : IO Unit := do
  storeChanges start.workspace after.workspace
  emit .output after.written

/-- Runs a command.  `known` is the session as far as it has been shown. -/
partial def converse (invocation : Invocation) (start known : Session) : IO UInt32 := do
  match invocation.run start with
  | .ok status after =>
      showNews invocation.logLevel known after
      finish start after
      return status.toUInt32
  | .error .noAnswer after =>
      showNews invocation.logLevel known after
      emit .output question
      match ← readAnswer with
      | some answer =>
          converse invocation { start with answers := start.answers ++ [answer] } after
      | none =>
          finish start after
          emit .errors "\nAborted!\n"
          return 1
  | .error failure after =>
      showNews invocation.logLevel known after
      finish start after
      emit .errors (failure.message?.getD "The command failed." ++ "\n")
      return 1

/-- All lines of standard input. -/
partial def readInput (stream : IO.FS.Stream) (text : String) : IO String := do
  let line ← stream.getLine
  if line.isEmpty then return text else readInput stream (text ++ line)

/-- The input that a command reads as a whole. -/
def inputFor : Invocation → IO String
  | .command _ (.propose request) => do
      if request.source = "stdin" then
        let text ← readInput (← IO.getStdin) ""
        return String.ofList (Text.unifyBreaks text.toList)
      else return ""
  | _ => return ""

/-- A session in the current directory with the files that a command needs. -/
def openSession (invocation : Invocation) : IO Session := do
  let project := Path.ofString (← IO.currentDir).toString
  let moment ← Std.Time.Timestamp.now
  let tag ← IO.rand 0 0xFFFFFFFFFFFFFFFF
  let session : Session :=
    { project
      now := moment.toNanosecondsSinceUnixEpoch.val / 1000
      temporaryTag := String.ofList (Text.hex 16 tag)
      input := ← inputFor invocation }
  let opened ← loadPaths session [project]
  match invocation with
  | .version => return opened
  | .command _ command => loadFootprint command footprintStages opened

end Restyle.Program

def main (arguments : List String) : IO UInt32 := do
  match Restyle.CommandLine.Invocation.read arguments with
  | .error error =>
      Restyle.Program.emit .errors ("Error: " ++ error.message ++ "\n")
      return error.status.toUInt32
  | .ok invocation =>
      let session ← Restyle.Program.openSession invocation
      Restyle.Program.converse invocation session session
