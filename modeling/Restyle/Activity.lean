import Restyle.Clock
import Restyle.Failure
import Restyle.Text.Parts

/-!
# Activities

An activity changes a session: the workspace, the log, what has been shown and
the answers still to come.  When it fails, what it did before stays done.
-/

namespace Restyle

inductive LogLevel where
  | debug | info | warning
  deriving DecidableEq, Repr

def LogLevel.name : LogLevel → String
  | .debug => "DEBUG"
  | .info => "INFO"
  | .warning => "WARNING"

/-- How urgent a level is. -/
def LogLevel.rank : LogLevel → Nat
  | .debug => 10
  | .info => 20
  | .warning => 30

/-- The parts of the program that write to the log. -/
inductive LogChannel where
  | planning | scheduling | running | records | promoting | writing
  deriving DecidableEq, Repr

/-- The names under which the parts appear in the log. -/
def LogChannel.name : LogChannel → String
  | .planning => "north.migrate.planner"
  | .scheduling => "north.migrate.scheduler"
  | .running => "north.migrate.executor"
  | .records => "north.migrate.state"
  | .promoting => "north.migrate.promote"
  | .writing => "north.core.file_writer"

structure LogEntry where
  level : LogLevel
  channel : LogChannel
  message : String
  deriving DecidableEq, Repr

def LogEntry.line (entry : LogEntry) : String :=
  entry.level.name ++ " " ++ entry.channel.name ++ ": " ++ entry.message

/-- Where text is shown. -/
inductive Outlet where
  | output | errors
  deriving DecidableEq, Repr

/-- Something shown: a framed panel, or plain text in which tags are read or
not. -/
inductive Shown where
  | panel (outlet : Outlet) (body title border : String)
  | text (outlet : Outlet) (body : String) (tags : Bool)
  deriving DecidableEq, Repr

inductive WriteStage where
  | makingDirectory
  /-- The temporary file, of which so many bytes get written. -/
  | writingTemporary (written : Nat)
  | settingMode
  | moving
  deriving DecidableEq, Repr

/-- What an activity works on. -/
structure Session where
  workspace : Workspace := {}
  /-- The project directory, an absolute path. -/
  project : Path
  /-- The moment, in microseconds since the start of 1970. -/
  now : Int
  /-- The end of the names of temporary files, which no other file has. -/
  temporaryTag : String
  /-- The stage at which writing a path fails, and how. -/
  trouble : Path → Option (WriteStage × SystemError) := fun _ => none
  /-- The answers still to come. -/
  answers : List String := []
  /-- The text on standard input. -/
  input : String := ""
  log : List LogEntry := []
  shown : List Shown := []
  /-- The text written to standard output. -/
  written : String := ""
  /-- How often the index was rebuilt. -/
  rebuilds : Nat := 0
  /-- For each conversation whether it is closed. -/
  conversations : List Bool := []

abbrev Activity := EStateM Failure Session

namespace Activity

def log (level : LogLevel) (channel : LogChannel) (message : String) : Activity Unit :=
  modify fun session => { session with log := session.log ++ [⟨level, channel, message⟩] }

def display (shown : Shown) : Activity Unit :=
  modify fun session => { session with shown := session.shown ++ [shown] }

def write (text : String) : Activity Unit :=
  modify fun session => { session with written := session.written ++ text }

/-- The result of a computation on values. -/
def value : Except Fault α → Activity α
  | .ok result => pure result
  | .error fault => throw (.value fault)

/-- The result of a computation that may fail. -/
def lift : Except Failure α → Activity α
  | .ok result => pure result
  | .error failure => throw failure

/-- The time stamp of the moment of the session. -/
def timestampNow : Activity String := do
  let now := (← get).now
  if hasDate now then return timestamp now else throw (.value .beyondCalendar)

/-- Refuses a path that holds the null character. -/
def requirePath (path : Path) : Activity Unit := do
  if path.hasNull then throw (.value .nullInPath)

/-- The text of a file, every line end made a line feed. -/
def readText (path : Path) : Activity (Except ReadFailure String) := do
  requirePath path
  match (← get).workspace.readBytes path with
  | .error error => return .error (.system error)
  | .ok bytes =>
      match Text.decode bytes with
      | .error fault => return .error (.encoding fault)
      | .ok text => return .ok (String.ofList (Text.unifyBreaks text))

/-- The temporary file beside a target. -/
def temporaryPath (target : Path) (tag : String) : Path :=
  target.parent.child (".north-tmp-" ++ tag)

/-- Fails with the trouble that a session has with a target at a stage. -/
def troubleAt (session : Session) (target : Path) (stage : WriteStage → Bool) :
    Option SystemError :=
  match session.trouble target with
  | some (found, error) => if stage found then some error else none
  | none => none

/-- Makes the directory of a target. -/
def makeParent (target : Path) : Activity Unit := do
  requirePath target.parent
  let session ← get
  match troubleAt session target (· == .makingDirectory) with
  | some error => throw (.write (.directory error))
  | none =>
      let parent := target.parent
      let (workspace, error) :=
        session.workspace.ensureDirectories parent.anchor parent.names.reverse
      set { session with workspace }
      match error with
      | some error => throw (.write (.directory error))
      | none => pure ()

/-- The permissions of a target, if it is there. -/
def modeOf (target : Path) : Activity (Option Nat) := do
  requirePath target
  match (← get).workspace.mode? target with
  | .ok mode => return mode
  | .error error => throw (.reading (.system error))

/-- Writes the temporary file of a target, gives it the permissions that the
target has, if it is there, and moves it over the target. -/
def writeThrough (session : Session) (temporary target : Path) (mode : Option Nat)
    (bytes : List UInt8) : Workspace × Option SystemError :=
  let before := session.workspace
  let partly :=
    match session.trouble target with
    | some (.writingTemporary count, error) => some (count, error)
    | _ => none
  match before.writeBytes temporary (bytes.take ((partly.map (·.1)).getD bytes.length)) with
  | .error error => (before, some error)
  | .ok written =>
      match partly with
      | some (_, error) => (written, some error)
      | none =>
          match troubleAt session target (· == .settingMode), mode with
          | some error, some _ => (written, some error)
          | _, _ =>
              let ready :=
                match mode with
                | some mode => written.setMode temporary mode
                | none => written
              match troubleAt session target (· == .moving) with
              | some error => (ready, some error)
              | none =>
                  match ready.moveOver temporary target with
                  | .error error => (ready, some error)
                  | .ok moved => (moved, none)

/-- Writes a file so that a reader sees the old content or the new one and
nothing between.  Missing directories are made; when writing fails, the target
stays as it was and the temporary file is taken away. -/
def writeFile (target : Path) (content : String) : Activity Unit := do
  makeParent target
  let mode ← modeOf target
  let session ← get
  let temporary := temporaryPath target session.temporaryTag
  match writeThrough session temporary target mode (Text.encode content.toList) with
  | (workspace, some error) =>
      set { session with workspace := workspace.removeFile temporary }
      throw (.write (.file error))
  | (workspace, none) =>
      set { session with workspace }
      log .debug .writing
        ("Wrote " ++ target.toString ++ " (" ++ toString content.length ++ " bytes)")

/-- Copies the bytes of a file to another. -/
def copyFile (source target : Path) : Activity (Except SystemError Unit) := do
  let session ← get
  match session.workspace.readBytes source with
  | .error error => return .error error
  | .ok bytes =>
      match session.workspace.writeBytes target bytes with
      | .error error => return .error error
      | .ok workspace =>
          set { session with workspace }
          return .ok ()

def nextAnswer : Activity String := do
  let session ← get
  match session.answers with
  | [] => throw .noAnswer
  | answer :: answers =>
      set { session with answers }
      return answer

def closeLast : List Bool → List Bool
  | [] => []
  | [_] => [true]
  | first :: rest => first :: closeLast rest

/-- Runs an activity inside a conversation, which is closed whether the activity
ends or fails. -/
def inConversation (body : Activity α) : Activity α := fun session =>
  match body { session with conversations := session.conversations ++ [false] } with
  | .ok result after =>
      .ok result { after with conversations := closeLast after.conversations }
  | .error failure after =>
      .error failure { after with conversations := closeLast after.conversations }

/-- Runs an activity and gives its failure as a result. -/
def attempt (body : Activity α) : Activity (Except Failure α) := fun session =>
  match body session with
  | .ok result after => .ok (.ok result) after
  | .error failure after => .ok (.error failure) after

end Activity

end Restyle
