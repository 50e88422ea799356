import Restyle.CommandLine.Arguments
import Restyle.Number.Reading
import Restyle.Strategy

/-!
# Invocations

What the arguments of the program ask for: its version, or one of its
commands.
-/

namespace Restyle.CommandLine

/-- The arguments of the command that makes a plan. -/
structure ProposeRequest where
  source : String := "check"
  output : Option String := none
  strategy : Option Strategy := none
  included : List String := []
  excluded : List String := []
  maxChanges : Option Nat := none
  dryRun : Bool := false
  json : Bool := false
  quiet : Bool := false
  deriving DecidableEq, Repr

/-- The arguments of the command that runs a plan. -/
structure MigrateRequest where
  plan : Option String := none
  only : List String := []
  skip : List String := []
  file : Option String := none
  interactive : Bool := false
  noBackup : Bool := false
  dryRun : Bool := false
  apply : Bool := false
  resume : Bool := false
  json : Bool := false
  quiet : Bool := false
  deriving DecidableEq, Repr

/-- The arguments of the command that promotes a pattern. -/
structure PromoteRequest where
  pattern : String
  name : String
  apply : Bool := false
  dryRun : Bool := false
  json : Bool := false
  deriving DecidableEq, Repr

inductive Command where
  | propose (request : ProposeRequest)
  | migrate (request : MigrateRequest)
  | promote (request : PromoteRequest)
  deriving DecidableEq, Repr

/-- What the program is asked for. -/
inductive Invocation where
  | version
  | command (verbose : Bool) (command : Command)
  deriving DecidableEq, Repr

/-- The options in front of a command. -/
def programForms : List OptionForm :=
  [{ name := "--version" }, { name := "--verbose", letter := some 'v' }]

def proposeForms : List OptionForm :=
  [{ name := "--from", takesValue := true },
    { name := "--output", letter := some 'o', takesValue := true },
    { name := "--strategy", takesValue := true }, { name := "--include", takesValue := true },
    { name := "--exclude", takesValue := true }, { name := "--max-changes", takesValue := true },
    { name := "--dry-run" }, { name := "--json" }, { name := "--quiet", letter := some 'q' }]

def migrateForms : List OptionForm :=
  [{ name := "--plan", takesValue := true }, { name := "--steps", takesValue := true },
    { name := "--skip", takesValue := true }, { name := "--file", takesValue := true },
    { name := "--interactive", letter := some 'i' }, { name := "--no-backup" },
    { name := "--dry-run" }, { name := "--apply" }, { name := "--continue" },
    { name := "--json" }, { name := "--quiet", letter := some 'q' }]

def promoteForms : List OptionForm :=
  [{ name := "--as", takesValue := true }, { name := "--apply" }, { name := "--dry-run" },
    { name := "--json" }]

/-- Refuses operands. -/
def requireNone : List String → Except UsageError Unit
  | [] => .ok ()
  | operand :: _ => .error (.unexpectedOperand operand)

/-- The only operand. -/
def requireOne (name : String) : List String → Except UsageError String
  | [] => .error (.missingOperand name)
  | [operand] => .ok operand
  | _ :: operand :: _ => .error (.unexpectedOperand operand)

def readStrategy (name : String) : Except UsageError Strategy :=
  match Strategy.all.find? fun strategy => strategy.name == name with
  | some strategy => .ok strategy
  | none => .error (.badValue "--strategy" name)

def readLimit (text : String) : Except UsageError Nat :=
  match readInteger text.toList with
  | .value (.ofNat limit) => .ok limit
  | _ => .error (.badValue "--max-changes" text)

/-- Refuses a path that holds the null character. -/
def checkPath (name path : String) : Except UsageError Unit :=
  if path.toList.contains '\x00' then .error (.nullInPath name) else .ok ()

/-- Checks the value of an option of the command that makes a plan. -/
def ProposeRequest.checkOption (name value : String) : Except UsageError Unit :=
  match name with
  | "--output" => checkPath name value
  | "--strategy" => do let _ ← readStrategy value
  | "--max-changes" => do let _ ← readLimit value
  | _ => .ok ()

/-- Checks the value of an option of the command that runs a plan. -/
def MigrateRequest.checkOption (name value : String) : Except UsageError Unit :=
  match name with
  | "--plan" => checkPath name value
  | _ => .ok ()

def ProposeRequest.read (given : List String) : Except UsageError ProposeRequest := do
  let arguments ← Arguments.read proposeForms true given
  arguments.check checkOption
  requireNone arguments.operands
  return {
    source := (arguments.value? "--from").getD "check"
    output := arguments.value? "--output"
    strategy := ← (arguments.value? "--strategy").mapM readStrategy
    included := arguments.values "--include"
    excluded := arguments.values "--exclude"
    maxChanges := ← (arguments.value? "--max-changes").mapM readLimit
    dryRun := arguments.has "--dry-run"
    json := arguments.has "--json"
    quiet := arguments.has "--quiet" }

def MigrateRequest.read (given : List String) : Except UsageError MigrateRequest := do
  let arguments ← Arguments.read migrateForms true given
  arguments.check checkOption
  requireNone arguments.operands
  return {
    plan := arguments.value? "--plan"
    only := arguments.values "--steps"
    skip := arguments.values "--skip"
    file := arguments.value? "--file"
    interactive := arguments.has "--interactive"
    noBackup := arguments.has "--no-backup"
    dryRun := arguments.has "--dry-run"
    apply := arguments.has "--apply"
    resume := arguments.has "--continue"
    json := arguments.has "--json"
    quiet := arguments.has "--quiet" }

def PromoteRequest.read (given : List String) : Except UsageError PromoteRequest := do
  let arguments ← Arguments.read promoteForms true given
  match arguments.value? "--as" with
  | none => throw (.missingOption "--as")
  | some name =>
      return {
        pattern := ← requireOne "PATTERN" arguments.operands
        name
        apply := arguments.has "--apply"
        dryRun := arguments.has "--dry-run"
        json := arguments.has "--json" }

/-- Reads the arguments after the name of a command. -/
def Command.read (name : String) (given : List String) : Except UsageError Command :=
  match name with
  | "propose" => (ProposeRequest.read given).map propose
  | "migrate" => (MigrateRequest.read given).map migrate
  | "promote" => (PromoteRequest.read given).map promote
  | _ => .error (.unknownCommand name)

/-- Whether arguments that stand where a command should are a question for the
version. -/
def asksVersion (given : List String) : Bool :=
  match Arguments.read programForms false given with
  | .ok arguments => arguments.has "--version"
  | .error _ => false

/-- Reads the arguments of the program. -/
def Invocation.read (given : List String) : Except UsageError Invocation := do
  let arguments ← Arguments.read programForms false given
  if arguments.has "--version" then return .version
  else
    match arguments.operands with
    | [] => throw .missingCommand
    | name :: rest =>
        if asksVersion (name :: rest) then return .version
        else return .command (arguments.has "--verbose") (← Command.read name rest)

end Restyle.CommandLine
