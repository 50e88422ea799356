import Restyle.Toml.Basic
import Restyle.Violation

/-!
# Filters

Filters choose the violations that a plan is built for: those of some rules,
those not of some rules, and at most so many of each file.  A plan records the
filters it was built with.  They are carried as they were given and looked at
where they are used, so that a plan keeps what it cannot read.
-/

namespace Restyle

/-- An item of a list of rules.  Settings may hold a moment there, or a value
that is not a number, and these are the rule of no violation. -/
inductive RuleItem where
  | value (value : Json)
  | moment (moment : Moment)
  | notANumber
  deriving DecidableEq, Repr

namespace RuleItem

/-- The item, if it can be a key. -/
def asKey : RuleItem → Except Fault RuleItem
  | .value item => return .value (← item.asKey)
  | other => return other

/-- Whether an item is the rule with a key. -/
def isRule (key : Json) : RuleItem → Bool
  | .value item => Json.same key item
  | _ => false

/-- The item in a document.  Moments have no place there, and integers only as
far as they can be written. -/
def toJson : RuleItem → Except Fault Json
  | .value item => item.asWritable
  | .moment _ => .error (.mismatch .object)
  | .notANumber => return .real .notANumber

/-- The item that a value of the settings is.  A list or a table is no key
whatever it holds. -/
def ofToml : Toml → RuleItem
  | .text content => .value (.text content)
  | .integer number => .value (.integer number)
  | .real .notANumber => .notANumber
  | .real number => .value (.real number)
  | .boolean truth => .value (.boolean truth)
  | .moment found => .moment found
  | .array _ => .value (.array [])
  | .table _ => .value (.object [])

end RuleItem

/-- The rules that a filter names. -/
inductive RuleList where
  /-- Rules as a caller or a document gives them, null for none. -/
  | given (value : Json)
  /-- Rules as settings list them. -/
  | listed (items : List RuleItem)
  deriving DecidableEq, Repr

instance : Inhabited RuleList := ⟨.given .null⟩

namespace RuleList

/-- The rules, which must all be keys.  A value that holds nothing names none. -/
def members : RuleList → Except Fault (List RuleItem)
  | .given value => do
      if value.isFilled then
        (← value.items).mapM fun item => (RuleItem.value item).asKey
      else return []
  | .listed items => items.mapM RuleItem.asKey

/-- The items as they are written, if rules were given. -/
def toJson? : RuleList → Except Fault (Option Json)
  | .given value => do
      if value = .null then return none
      else return some (.array (← (← value.items).mapM Json.asWritable))
  | .listed items => do return some (.array (← items.mapM RuleItem.toJson))

/-- The field of a document with the rules, if they were given. -/
def toField (name : String) (rules : RuleList) : Except Fault (List (String × Json)) := do
  return ((← rules.toJson?).map fun items => (name, items)).toList

end RuleList

structure Filters where
  /-- The rules whose violations are chosen; none of them chooses all. -/
  included : RuleList := .given .null
  /-- The rules whose violations are left out. -/
  excluded : RuleList := .given .null
  /-- The most violations of one file; null or not positive for no limit. -/
  maxChanges : Json := .null
  deriving DecidableEq, Repr, Inhabited

namespace Filters

/-- Reads the filters of a plan. -/
def ofJson (document : Json) : Except Fault Filters := do
  let fields ← document.fields
  return {
    included := .given (Json.fieldOr "include" .null fields)
    excluded := .given (Json.fieldOr "exclude" .null fields)
    maxChanges := Json.fieldOr "maxChanges" .null fields }

/-- The document of the filters. -/
def toJson (filters : Filters) : Except Fault Json := do
  let included ← filters.included.toField "include"
  let excluded ← filters.excluded.toField "exclude"
  let maxChanges ← filters.maxChanges.asWritable
  return .object (included ++ excluded ++ optionalField "maxChanges" maxChanges)

/-- The limit on the violations of one file, if there is one.  It must be a
number, and a positive one must be whole where there is something to cut. -/
def limit? (filters : Filters) (nothingToCut : Bool) : Except Fault (Option Nat) :=
  match filters.maxChanges with
  | .null => .ok none
  | .real value =>
      if (Binary64.ofInt 0).lt value && !nothingToCut then .error (.mismatch .real)
      else .ok none
  | value =>
      match value.whole? with
      | some most => .ok (if 0 < most then some most.toNat else none)
      | none => .error (.mismatch value.kind)

end Filters

end Restyle
