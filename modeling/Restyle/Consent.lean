import Restyle.Failure
import Restyle.Text.Classes

/-!
# Consent

A run writes changes only with consent: its caller asks for them to be written,
and a conversation asks about each change.
-/

namespace Restyle

/-! ## Safe mode

A run previews its changes unless it is told to write them.  Callers say so in
different ways, and here their ways become one answer.
-/

/-- Who asks for a run. -/
inductive Caller where
  | assistant | commandLine
  deriving DecidableEq, Repr, Inhabited

namespace Caller

def name : Caller → String
  | .assistant => "mcp"
  | .commandLine => "cli"

/-- The caller that a value names. -/
def named (name : Json) : Except Failure Caller :=
  match [assistant, commandLine].find? fun caller => name == .text caller.name with
  | some caller => .ok caller
  | none => .error (.unknownCaller name)

/-- Whether changes are written, where null stands for a value that is not
given.  An assistant must ask for it with the value true.  On the command line
the wish to apply counts when it is given, then the wish for a dry run, and
without either nothing is written. -/
def appliesChanges (apply dryRun : Json) : Caller → Json
  | .assistant => .boolean (apply == .boolean true)
  | .commandLine =>
      if apply != .null then apply
      else if dryRun != .null then .boolean !dryRun.isFilled
      else .boolean false

end Caller

/-! ## Decisions

The answers to the question whether a change shall be made.
-/

inductive Decision where
  | yes | no | quit | all
  deriving DecidableEq, Repr, Inhabited

namespace Decision

def name : Decision → String
  | .yes => "yes"
  | .no => "no"
  | .quit => "quit"
  | .all => "all"

/-- The decision that an answer stands for, without regard to case and to
blanks around; any other answer means no.  The words are ASCII, and no
character beyond ASCII has a lower case among their letters. -/
def ofAnswer (answer : String) : Decision :=
  match String.ofList ((Text.trim answer.toList).map Char.toLower) with
  | "y" => .yes
  | "yes" => .yes
  | "q" => .quit
  | "quit" => .quit
  | "a" => .all
  | "all" => .all
  | _ => .no

end Decision

end Restyle
