import Restyle.Json.Reader

/-!
# Faults in values

Documents may hold any value anywhere.  A field is examined only where its
content is used, and a value that does not serve there is a fault.  Each fault
names its cause; `Fault.message` words it.
-/

namespace Restyle

/-- Why a value does not serve. -/
inductive Fault where
  /-- A required field is not there. -/
  | missing (name : String)
  /-- Values of this kind do not support an operation. -/
  | noMember (kind : Json.Kind) (member : String)
  /-- Values of this kind hold no items. -/
  | notIterable (kind : Json.Kind)
  /-- Values of this kind stand for no integer. -/
  | notInteger (kind : Json.Kind)
  /-- Values of this kind stand for no number. -/
  | notReal (kind : Json.Kind)
  /-- The text is no integer. -/
  | integerText (text : Json)
  /-- The text is no number. -/
  | realText (text : Json)
  /-- The integer has too many digits to be read. -/
  | integerTooLong (digits : Nat)
  /-- An integer has too many digits to be written. -/
  | integerUnwritable
  /-- The value that is not a number has no integer. -/
  | noInteger
  /-- An infinite number has no integer. -/
  | infiniteInteger
  /-- An integer lies beyond the finite numbers. -/
  | beyondReals
  /-- A length is beyond what can be counted. -/
  | beyondCounting
  /-- A text is longer than there is room for. -/
  | beyondMemory
  /-- A moment is not in the years that have a date. -/
  | beyondCalendar
  | notSeverity (value : Json)
  | notStrategy (value : Json)
  | unknownAction (value : Json)
  /-- A row of a table has not two cells. -/
  | rowLength (index length : Nat)
  /-- A row of a table has no cells. -/
  | notRow (index : Nat)
  /-- Values of this kind cannot be keys. -/
  | notKey (kind : Json.Kind)
  /-- Values of this kind do not take part in an operation. -/
  | mismatch (kind : Json.Kind)
  /-- A path holds the null character. -/
  | nullInPath
  /-- A status has no such name. -/
  | notStatus (value : Json)
  /-- A document holds a lone surrogate, which has no bytes. -/
  | unencodable
  deriving DecidableEq, Repr

namespace Fault

/-- The classes of faults, by which callers decide which to report. -/
inductive Category where
  /-- A value is of the wrong kind. -/
  | kind
  /-- A value is of the right kind and has the wrong content. -/
  | content
  /-- A field is not there. -/
  | absence
  /-- An operation is not there. -/
  | operation
  /-- A number is out of range. -/
  | range
  /-- There is no room. -/
  | room
  deriving DecidableEq, Repr

def category : Fault → Category
  | .missing _ => .absence
  | .noMember _ _ => .operation
  | .notIterable _ => .kind
  | .notInteger _ => .kind
  | .notReal _ => .kind
  | .integerText _ => .content
  | .realText _ => .content
  | .integerTooLong _ => .content
  | .integerUnwritable => .content
  | .noInteger => .content
  | .infiniteInteger => .range
  | .beyondReals => .range
  | .beyondCounting => .range
  | .beyondMemory => .room
  | .beyondCalendar => .range
  | .notSeverity _ => .content
  | .notStrategy _ => .content
  | .unknownAction _ => .content
  | .rowLength _ _ => .content
  | .notRow _ => .kind
  | .notKey _ => .kind
  | .mismatch _ => .kind
  | .nullInPath => .content
  | .notStatus _ => .content
  | .unencodable => .content

/-- The wording of a fault.  Long text that is no integer is cut. -/
def message : Fault → String
  | .missing name => Text.quote name
  | .noMember kind member =>
      "'" ++ kind.name ++ "' object has no attribute '" ++ member ++ "'"
  | .notIterable kind => "'" ++ kind.name ++ "' object is not iterable"
  | .notInteger kind =>
      "int() argument must be a string, a bytes-like object or a real number, not '" ++
        kind.name ++ "'"
  | .notReal kind =>
      "float() argument must be a string or a real number, not '" ++ kind.name ++ "'"
  | .integerText text =>
      "invalid literal for int() with base 10: " ++
        String.ofList (text.quoted.toList.take 200)
  | .realText text => "could not convert string to float: " ++ text.quoted
  | .integerTooLong digits => tooLongMessage digits
  | .integerUnwritable =>
      "Exceeds the limit (" ++ toString digitLimit ++
        " digits) for integer string conversion; " ++
        "use sys.set_int_max_str_digits() to increase the limit"
  | .noInteger => "cannot convert float NaN to integer"
  | .infiniteInteger => "cannot convert float infinity to integer"
  | .beyondReals => "int too large to convert to float"
  | .beyondCounting => "cannot fit 'int' into an index-sized integer"
  | .beyondMemory => ""
  | .beyondCalendar => "date value out of range"
  | .notSeverity value => value.quoted ++ " is not a valid Severity"
  | .notStrategy value => value.quoted ++ " is not a valid Strategy"
  | .unknownAction value => "Unknown action type: " ++ value.quoted
  | .rowLength index length =>
      "dictionary update sequence element #" ++ toString index ++ " has length " ++
        toString length ++ "; 2 is required"
  | .notRow index =>
      "cannot convert dictionary update sequence element #" ++ toString index ++
        " to a sequence"
  | .notKey kind => "unhashable type: '" ++ kind.name ++ "'"
  | .mismatch kind => "unsupported operand: '" ++ kind.name ++ "'"
  | .nullInPath => "embedded null byte"
  | .notStatus value => value.quoted ++ " is not a valid StepStatus"
  | .unencodable => "surrogates not allowed"

end Fault

end Restyle
