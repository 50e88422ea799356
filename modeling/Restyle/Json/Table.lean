import Restyle.Json.Coercion
import Restyle.Json.Printer

/-!
# Tables

A table keeps its rows in the order in which their keys first came.  Setting a
key that is there replaces the value only.
-/

namespace Restyle

/-- Rows of a key and a value. -/
abbrev Table := List (Json × Json)

namespace Table

/-- The value of a key. -/
def get? (key : Json) : Table → Option Json
  | [] => none
  | (other, value) :: rows => if Json.same key other then some value else get? key rows

/-- Sets the value of a key. -/
def set (key value : Json) : Table → Table
  | [] => [(key, value)]
  | (other, old) :: rows =>
      if Json.same key other then (other, value) :: rows
      else (other, old) :: set key value rows

def cells (index : Nat) (row : Json) : Except Fault (Json × Json) :=
  match row.items with
  | .error _ => .error (.notRow index)
  | .ok [key, value] =>
      if key.isKey then .ok (key, value) else .error (.notKey key.kind)
  | .ok others => .error (.rowLength index others.length)

/-- Sets the rows of a list, counted from `index`. -/
def setRows (table : Table) (index : Nat) : List Json → Except Fault Table
  | [] => .ok table
  | row :: rows => do
      let (key, value) ← cells index row
      setRows (set key value table) (index + 1) rows

/-- Sets the rows that a value gives: the fields of an object, or the items of
another value, each of two cells. -/
def update (table : Table) : Json → Except Fault Table
  | .object fields =>
      .ok (fields.foldl (fun rows field => set (Json.nameText field.1) field.2 rows) table)
  | other => do setRows table 0 (← other.items)

/-- The name that a key is written as. -/
def keyName : Json → String
  | .text value => Json.nameOf (Text.codes value.toList)
  | .torn codes => Json.nameOf codes
  | key => String.ofList (Json.scalarText Json.escapedAscii key)

/-- The object of a document with the rows of a table. -/
def toJson (table : Table) : Json :=
  .object (table.map fun row => (keyName row.1, row.2))

end Table

end Restyle
