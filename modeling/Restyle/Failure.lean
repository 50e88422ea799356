import Restyle.Fault
import Restyle.Workspace

/-!
# Failures

Everything that ends a command before its work is done.  Each failure names
its cause; `message` words it.
-/

namespace Restyle

/-- Why a text file cannot be read. -/
inductive ReadFailure where
  | system (error : SystemError)
  | encoding (fault : Text.EncodingFault)
  deriving DecidableEq, Repr

def ReadFailure.message : ReadFailure → String
  | .system error => error.message
  | .encoding fault => fault.message

/-- Whether the file is simply not there. -/
def ReadFailure.isMissing : ReadFailure → Bool
  | .system error => error.cause == .notFound
  | .encoding _ => false

/-- Why the settings are refused. -/
inductive SettingsCause where
  | malformed
  | unknownStrategy (name : String)
  | badMaxChanges (shown : String)
  deriving DecidableEq, Repr

def SettingsCause.message : SettingsCause → String
  | .malformed => "Invalid north.toml"
  | .unknownStrategy name =>
      "Unknown strategy '" ++ name ++
        "'. Expected one of: conservative, balanced, aggressive"
  | .badMaxChanges shown =>
      "propose.max_changes must be a non-negative integer, got " ++ shown

/-- Why there are no violations to plan for. -/
inductive ViolationCause where
  | unparsable (error : Json.ReadError)
  | notContainer
  | notRecord (index : Nat)
  | badRecord (index : Nat) (fault : Fault)
  | unreadable (path : Path)
  | noEngine
  deriving DecidableEq, Repr

def ViolationCause.message : ViolationCause → String
  | .unparsable error => "Failed to parse violations as JSON: " ++ error.message
  | .notContainer => "Violation input must be a JSON object or array"
  | .notRecord index => "Violation #" ++ toString index ++ " is not an object"
  | .badRecord index fault =>
      "Violation #" ++ toString index ++ " is malformed: " ++ fault.message
  | .unreadable path => "Could not read violations from: " ++ path.toString
  | .noEngine =>
      "No lint engine is available to run a fresh check. " ++
        "Pipe check output instead: north check --json | north propose --from stdin"

/-- Why a plan file is refused. -/
inductive PlanCause where
  | unreadable (failure : ReadFailure)
  | unparsable (error : Json.ReadError)
  | notObject
  | wrongVersion (version : Json)
  | badField (fault : Fault)
  deriving DecidableEq, Repr

def PlanCause.message : PlanCause → String
  | .unreadable failure => "Failed to load plan: " ++ failure.message
  | .unparsable error => "Failed to load plan: " ++ error.message
  | .notObject => "Failed to load plan: expected a JSON object"
  | .wrongVersion version =>
      "Invalid plan format. Expected version 1, got " ++ version.shown
  | .badField fault => "Failed to load plan: invalid field " ++ fault.message

/-- Why a utility is not promoted. -/
inductive PromotionCause where
  | noPattern
  | noName
  | noStylesheet (path : Path)
  | unreadable (path : Path) (failure : ReadFailure)
  | alreadyDefined (name : String) (path : Path)
  deriving DecidableEq, Repr

def PromotionCause.message : PromotionCause → String
  | .noPattern => "Pattern is required."
  | .noName => "Promotion name is required."
  | .noStylesheet path =>
      "Stylesheet not found: " ++ path.toString ++
        ". Create it before promoting utilities."
  | .unreadable path failure =>
      "Could not read " ++ path.toString ++ ": " ++ failure.message
  | .alreadyDefined name path =>
      "Utility '" ++ name ++ "' already exists in " ++ path.toString ++ "."

/-- Why a file is not written. -/
inductive WriteCause where
  | directory (error : SystemError)
  | file (error : SystemError)
  | stylesheet (failure : ReadFailure)
  deriving DecidableEq, Repr

def WriteCause.message : WriteCause → String
  | .directory error => "Failed to create directory: " ++ error.message
  | .file error => "Failed to write file: " ++ error.message
  | .stylesheet failure => "Failed to read stylesheet: " ++ failure.message

inductive Failure where
  | settings (cause : SettingsCause)
  | violationSource (cause : ViolationCause)
  | planMissing (path : Path)
  | planFormat (cause : PlanCause)
  /-- The checkpoint was recorded against another plan. -/
  | planChanged
  | promotion (cause : PromotionCause)
  | write (cause : WriteCause)
  /-- A caller has no such name. -/
  | unknownCaller (name : Json)
  /-- A value of a document does not serve. -/
  | value (fault : Fault)
  /-- A file could not be read where that is not expected. -/
  | reading (failure : ReadFailure)
  /-- A question got no answer. -/
  | noAnswer
  deriving DecidableEq, Repr

namespace Failure

/-- The wording of a failure that is reported to the user.  The others have
none of their own. -/
def message? : Failure → Option String
  | .settings cause => some cause.message
  | .violationSource cause => some cause.message
  | .planMissing path =>
      some ("Plan not found: " ++ path.toString ++ ". Run 'north propose' first.")
  | .planFormat cause => some cause.message
  | .planChanged =>
      some "Plan has changed since checkpoint. Remove checkpoint to restart."
  | .promotion cause => some cause.message
  | .write cause => some cause.message
  | .unknownCaller name => some ("Unknown safe mode context: " ++ name.quoted)
  | .value (.unknownAction action) => some (Fault.unknownAction action).message
  | .value _ => none
  | .reading _ => none
  | .noAnswer => none

/-- Whether a command reports the failure in its own words and ends. -/
def isReported : Failure → Bool
  | .settings _ => true
  | .violationSource _ => true
  | .planMissing _ => true
  | .planFormat _ => true
  | .planChanged => true
  | .promotion _ => true
  | .write _ => true
  | _ => false

end Failure

end Restyle
