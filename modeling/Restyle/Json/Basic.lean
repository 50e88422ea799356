import Restyle.Number.Decimal
import Restyle.Text.Codes

/-!
# Values of documents

Plans, checkpoints and violation reports are documents of nested values.  The
fields of an object keep the order in which they were written, and integers
are kept apart from reals.  A text that holds a lone surrogate is no string, and is
kept apart from those that are; in the names of fields such surrogates are spelled.
-/

namespace Restyle

/-- A value of a document. -/
inductive Json where
  | null
  | boolean (value : Bool)
  | integer (value : Int)
  | real (value : Binary64)
  | text (value : String)
  /-- A text with a lone surrogate. -/
  | torn (codes : List Text.Code)
  | array (items : List Json)
  | object (fields : List (String × Json))
  deriving Repr, Inhabited

namespace Json

mutual

/-- Whether two values are built alike. -/
def alike : Json → Json → Bool
  | .null, .null => true
  | .boolean left, .boolean right => left == right
  | .integer left, .integer right => left == right
  | .real left, .real right => left == right
  | .text left, .text right => left == right
  | .torn left, .torn right => left == right
  | .array left, .array right => alikeItems left right
  | .object left, .object right => alikeFields left right
  | _, _ => false

def alikeItems : List Json → List Json → Bool
  | [], [] => true
  | left :: lefts, right :: rights => alike left right && alikeItems lefts rights
  | _, _ => false

def alikeFields : List (String × Json) → List (String × Json) → Bool
  | [], [] => true
  | (leftName, left) :: lefts, (rightName, right) :: rights =>
      leftName == rightName && alike left right && alikeFields lefts rights
  | _, _ => false

end

mutual

theorem eq_of_alike : ∀ {left right : Json}, alike left right = true → left = right
  | .null, right, same => by cases right <;> simp_all [alike]
  | .boolean _, right, same => by cases right <;> simp_all [alike]
  | .integer _, right, same => by cases right <;> simp_all [alike]
  | .real _, right, same => by cases right <;> simp_all [alike]
  | .text _, right, same => by cases right <;> simp_all [alike]
  | .torn _, right, same => by cases right <;> simp_all [alike]
  | .array items, right, same => by
      cases right with
      | array others =>
          rw [alike] at same
          rw [eq_of_alikeItems same]
      | _ => simp [alike] at same
  | .object fields, right, same => by
      cases right with
      | object others =>
          rw [alike] at same
          rw [eq_of_alikeFields same]
      | _ => simp [alike] at same

theorem eq_of_alikeItems :
    ∀ {left right : List Json}, alikeItems left right = true → left = right
  | [], right, same => by cases right <;> simp_all [alikeItems]
  | item :: items, right, same => by
      cases right with
      | nil => simp [alikeItems] at same
      | cons other others =>
          simp only [alikeItems, Bool.and_eq_true] at same
          rw [eq_of_alike same.1, eq_of_alikeItems same.2]

theorem eq_of_alikeFields :
    ∀ {left right : List (String × Json)}, alikeFields left right = true → left = right
  | [], right, same => by cases right <;> simp_all [alikeFields]
  | (name, value) :: fields, right, same => by
      cases right with
      | nil => simp [alikeFields] at same
      | cons other others =>
          obtain ⟨otherName, otherValue⟩ := other
          simp only [alikeFields, Bool.and_eq_true, beq_iff_eq] at same
          rw [same.1.1, eq_of_alike same.1.2, eq_of_alikeFields same.2]

end

mutual

theorem alike_self : ∀ value : Json, alike value value = true
  | .null => by simp [alike]
  | .boolean _ => by simp [alike]
  | .integer _ => by simp [alike]
  | .real _ => by simp [alike]
  | .text _ => by simp [alike]
  | .torn _ => by simp [alike]
  | .array items => by rw [alike]; exact alikeItems_self items
  | .object fields => by rw [alike]; exact alikeFields_self fields

theorem alikeItems_self : ∀ items : List Json, alikeItems items items = true
  | [] => by simp [alikeItems]
  | item :: items => by simp [alikeItems, alike_self item, alikeItems_self items]

theorem alikeFields_self : ∀ fields : List (String × Json), alikeFields fields fields = true
  | [] => by simp [alikeFields]
  | (_, value) :: fields => by
      simp [alikeFields, alike_self value, alikeFields_self fields]

end

instance : DecidableEq Json := fun left right =>
  if same : alike left right then isTrue (eq_of_alike same)
  else isFalse fun equal => same (equal ▸ alike_self left)

inductive Kind where
  | null | boolean | integer | real | text | array | object
  deriving DecidableEq, Repr

def kind : Json → Kind
  | .null => .null
  | .boolean _ => .boolean
  | .integer _ => .integer
  | .real _ => .real
  | .text _ => .text
  | .torn _ => .text
  | .array _ => .array
  | .object _ => .object

/-- What messages call a kind of value. -/
def Kind.name : Kind → String
  | .null => "NoneType"
  | .boolean => "bool"
  | .integer => "int"
  | .real => "float"
  | .text => "str"
  | .array => "list"
  | .object => "dict"

/-- Whether a value holds anything: it is not null, false, zero or empty. -/
def isFilled : Json → Bool
  | .null => false
  | .boolean value => value
  | .integer value => value != 0
  | .real value => !value.isZero
  | .text value => value != ""
  | .torn codes => !codes.isEmpty
  | .array items => !items.isEmpty
  | .object fields => !fields.isEmpty

/-- The value itself when it holds anything, and else the default. -/
def orElse (value other : Json) : Json :=
  if value.isFilled then value else other

/-- The first field with a name. -/
def lookup (name : String) : List (String × Json) → Option Json
  | [] => none
  | (key, value) :: fields => if key = name then some value else lookup name fields

/-- Sets a field: in its place when the name is there, and else at the end. -/
def setField (name : String) (value : Json) : List (String × Json) → List (String × Json)
  | [] => [(name, value)]
  | (key, old) :: fields =>
      if key = name then (key, value) :: fields
      else (key, old) :: setField name value fields

/-- The integer that a whole value stands for; the truth values stand for one
and zero. -/
def whole? : Json → Option Int
  | .boolean value => some (if value then 1 else 0)
  | .integer value => some value
  | _ => none

mutual

/-- Whether two values are interchangeable as keys and members: integers,
reals and truth values compare by number, and the fields of objects in any
order. -/
def same : Json → Json → Bool
  | .null, .null => true
  | .text left, .text right => left == right
  | .torn left, .torn right => left == right
  | .real .notANumber, .real .notANumber => true
  | .real left, .real right => left.eq right
  | .real left, .boolean right => left.eqInt (if right then 1 else 0)
  | .real left, .integer right => left.eqInt right
  | .boolean left, .real right => right.eqInt (if left then 1 else 0)
  | .integer left, .real right => right.eqInt left
  | .array left, .array right => sameItems left right
  | .object left, .object right => left.length == right.length && sameFields left right
  | left, right =>
      match left.whole?, right.whole? with
      | some number, some other => number == other
      | _, _ => false

def sameItems : List Json → List Json → Bool
  | [], [] => true
  | left :: lefts, right :: rights => same left right && sameItems lefts rights
  | _, _ => false

/-- Whether every field on the left is a field on the right with the same
value. -/
def sameFields : List (String × Json) → List (String × Json) → Bool
  | [], _ => true
  | (name, value) :: fields, others =>
      (match lookup name others with
        | some other => same value other
        | none => false) && sameFields fields others

end

/-- Whether a list holds a value interchangeable with the given one. -/
def isAmong (value : Json) (values : List Json) : Bool :=
  values.any (same value)

/-- The values of a list, each once. -/
def distinct : List Json → List Json
  | [] => []
  | value :: values =>
      let later := distinct values
      if value.isAmong later then later else value :: later

/-- Removes the first value interchangeable with the given one. -/
def removeFirst (value : Json) : List Json → List Json
  | [] => []
  | first :: rest => if same value first then rest else first :: removeFirst value rest

/-- Only values without members can be keys. -/
def isKey : Json → Bool
  | .array _ => false
  | .object _ => false
  | _ => true

mutual

/-- A value as messages show it: text stands between quotation marks. -/
def quoted : Json → String
  | .null => "None"
  | .boolean value => if value then "True" else "False"
  | .integer value => toString value
  | .real value => value.text
  | .text value => Text.quote value
  | .torn codes => String.ofList (Text.quotedCodes codes)
  | .array items => "[" ++ ", ".intercalate (quotedItems items) ++ "]"
  | .object fields => "\x7b" ++ ", ".intercalate (quotedFields fields) ++ "\x7d"

def quotedItems : List Json → List String
  | [] => []
  | item :: items => quoted item :: quotedItems items

def quotedFields : List (String × Json) → List String
  | [] => []
  | (name, value) :: fields =>
      (String.ofList (Text.quotedCodes (Text.codesOf name.toList)) ++ ": " ++ quoted value) ::
        quotedFields fields

end

/-- A value inside a sentence: text stands as it is. -/
def shown : Json → String
  | .text value => value
  | .torn codes => String.ofList (codes.map Text.Code.shown)
  | value => value.quoted

/-! ## Texts with surrogates -/

/-- The value of a text. -/
def ofCodes (codes : List Text.Code) : Json :=
  match Text.characters? codes with
  | some characters => .text (String.ofList characters)
  | none => .torn codes

/-- The name that spells a text. -/
def nameOf (codes : List Text.Code) : String := String.ofList (Text.spelling codes)

/-- The text that a name spells. -/
def nameText (name : String) : Json := ofCodes (Text.codesOf name.toList)

/-- The value with replacement characters in the place of lone surrogates. -/
def settled : Json → Json
  | .torn codes => .text (Json.torn codes).shown
  | value => value

mutual

/-- Whether a value can be written in bytes: it holds no lone surrogate. -/
def isEncodable : Json → Bool
  | .torn codes => (Text.characters? codes).isSome
  | .array items => areEncodable items
  | .object fields => haveEncodable fields
  | _ => true

def areEncodable : List Json → Bool
  | [] => true
  | item :: items => isEncodable item && areEncodable items

def haveEncodable : List (String × Json) → Bool
  | [] => true
  | (name, value) :: fields =>
      (Text.characters? (Text.codesOf name.toList)).isSome && isEncodable value &&
        haveEncodable fields

end

end Json

end Restyle
