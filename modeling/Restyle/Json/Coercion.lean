import Restyle.Fault
import Restyle.Text.Parts

/-!
# Using values

The ways in which a value of a document is used, each with the faults that
values of other kinds give.
-/

namespace Restyle

namespace Json

/-- The integer that a value stands for: reals are cut, and text is read. -/
def toInteger : Json → Except Fault Int
  | .boolean value => .ok (if value then 1 else 0)
  | .integer value => .ok value
  | .real .notANumber => .error .noInteger
  | .real value =>
      match value.truncate? with
      | some whole => .ok whole
      | none => .error .infiniteInteger
  | .text value =>
      match readInteger value.toList with
      | .value number => .ok number
      | .malformed => .error (.integerText (.text value))
      | .tooLong digits => .error (.integerTooLong digits)
  | .torn codes =>
      match readInteger (codes.map Text.Code.shown) with
      | .tooLong digits => .error (.integerTooLong digits)
      | _ => .error (.integerText (.torn codes))
  | other => .error (.notInteger other.kind)

/-- The real nearest to an integer, which must be finite. -/
def realOfInteger (value : Int) : Except Fault Binary64 :=
  match Binary64.ofInt value with
  | .infinite _ => .error .beyondReals
  | number => .ok number

/-- The number that a value stands for. -/
def toReal : Json → Except Fault Binary64
  | .boolean value => .ok (Binary64.ofInt (if value then 1 else 0))
  | .integer value => realOfInteger value
  | .real value => .ok value
  | .text value =>
      match readReal? value.toList with
      | some number => .ok number
      | none => .error (.realText (.text value))
  | .torn codes => .error (.realText (.torn codes))
  | other => .error (.notReal other.kind)

/-- The items of a value: those of an array, the characters of a text and the
names of an object. -/
def items : Json → Except Fault (List Json)
  | .text value => .ok (value.toList.map fun character => .text character.toString)
  | .torn codes => .ok (codes.map fun code => ofCodes [code])
  | .array values => .ok values
  | .object fields => .ok (fields.map fun field => nameText field.1)
  | other => .error (.notIterable other.kind)

/-- The field of an object; other values have none to ask for. -/
def field? (name : String) : Json → Except Fault (Option Json)
  | .object fields => .ok (lookup name fields)
  | other => .error (.noMember other.kind "get")

/-- A field of an object, or a default. -/
def fieldOr (name : String) (default : Json) (fields : List (String × Json)) : Json :=
  (lookup name fields).getD default

/-- A field that has to be there. -/
def required (name : String) (fields : List (String × Json)) : Except Fault Json :=
  match lookup name fields with
  | some value => .ok value
  | none => .error (.missing name)

def fields : Json → Except Fault (List (String × Json))
  | .object values => .ok values
  | other => .error (.noMember other.kind "get")

def asText : Json → Except Fault String
  | .text value => .ok value
  | other => .error (.mismatch other.kind)

/-- The content of a text on which an operation is called, with replacement characters
in the place of lone surrogates. -/
def asTextFor (member : String) : Json → Except Fault String
  | .text value => .ok value
  | .torn codes => .ok (Json.torn codes).shown
  | other => .error (.noMember other.kind member)

/-- The value, if it can be a key. -/
def asKey (value : Json) : Except Fault Json :=
  if value.isKey then .ok value else .error (.notKey value.kind)

/-- The value, if it is no integer that is too long to be written. -/
def asWritable : Json → Except Fault Json
  | .integer value =>
      if isWritable value then .ok (.integer value) else .error .integerUnwritable
  | value => .ok value

/-- Whether a text occurs in a value: in a text as a part, in an array as an
item, and in an object as a name. -/
def holds (needle : String) : Json → Except Fault Bool
  | .text value => .ok (Text.occursIn needle.toList value.toList)
  | .torn codes => .ok (Text.codesOccurIn (Text.codes needle.toList) codes)
  | .array values => .ok (isAmong (.text needle) values)
  | .object fields => .ok (lookup (nameOf (Text.codes needle.toList)) fields).isSome
  | other => .error (.mismatch other.kind)

end Json

end Restyle
