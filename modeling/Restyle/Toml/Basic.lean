import Restyle.Json.Coercion
import Restyle.Toml.Moment

/-!
# Values of settings

A settings file is a table of named values.  Beside the values of documents it
may hold moments.
-/

namespace Restyle

/-- A value of a settings file. -/
inductive Toml where
  | text (value : String)
  | integer (value : Int)
  | real (value : Binary64)
  | boolean (value : Bool)
  | moment (value : Moment)
  | array (items : List Toml)
  | table (fields : List (String × Toml))
  deriving Repr, Inhabited

namespace Toml

/-- The value with a name. -/
def lookup (name : String) : List (String × Toml) → Option Toml
  | [] => none
  | (key, value) :: fields => if key = name then some value else lookup name fields

/-- Whether a value holds anything. -/
def isFilled : Toml → Bool
  | .text value => value != ""
  | .integer value => value != 0
  | .real value => !value.isZero
  | .boolean value => value
  | .moment _ => true
  | .array items => !items.isEmpty
  | .table fields => !fields.isEmpty

mutual

/-- Whether messages can show a value: none of its integers is too long to be
written. -/
def isShowable : Toml → Bool
  | .integer value => isWritable value
  | .array items => areShowable items
  | .table fields => areShowableFields fields
  | _ => true

def areShowable : List Toml → Bool
  | [] => true
  | item :: items => isShowable item && areShowable items

def areShowableFields : List (String × Toml) → Bool
  | [] => true
  | (_, value) :: fields => isShowable value && areShowableFields fields

end

mutual

/-- A value as messages show it. -/
def quoted : Toml → String
  | .text value => Text.quote value
  | .integer value => toString value
  | .real value => value.text
  | .boolean value => if value then "True" else "False"
  | .moment value => value.quoted
  | .array items => "[" ++ ", ".intercalate (quotedItems items) ++ "]"
  | .table fields => "\x7b" ++ ", ".intercalate (quotedFields fields) ++ "\x7d"

def quotedItems : List Toml → List String
  | [] => []
  | item :: items => quoted item :: quotedItems items

def quotedFields : List (String × Toml) → List String
  | [] => []
  | (name, value) :: fields =>
      (Text.quote name ++ ": " ++ quoted value) :: quotedFields fields

end

/-- A value inside a sentence. -/
def shown : Toml → String
  | .text value => value
  | .moment value => value.shown
  | value => value.quoted

mutual

/-- The value in a document; moments have none. -/
def toJson? : Toml → Option Json
  | .text value => some (.text value)
  | .integer value => some (.integer value)
  | .real value => some (.real value)
  | .boolean value => some (.boolean value)
  | .moment _ => none
  | .array items => (toJsonItems? items).map Json.array
  | .table fields => (toJsonFields? fields).map Json.object

def toJsonItems? : List Toml → Option (List Json)
  | [] => some []
  | item :: items =>
      match toJson? item, toJsonItems? items with
      | some value, some values => some (value :: values)
      | _, _ => none

def toJsonFields? : List (String × Toml) → Option (List (String × Json))
  | [] => some []
  | (name, item) :: fields =>
      match toJson? item, toJsonFields? fields with
      | some value, some values => some ((name, value) :: values)
      | _, _ => none

end

/-- The value in a document. -/
def toJson (value : Toml) : Except Fault Json :=
  match value.toJson? with
  | some document => .ok document
  | none => .error (.mismatch .object)

end Toml

end Restyle
