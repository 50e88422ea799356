import Restyle.Json.Basic

/-!
# Writing documents

A document is written in one of two forms: in lines, with an indentation of two
spaces a level and every character beyond ASCII escaped, or compact, with no
gaps and only control characters escaped.  Lone surrogates are escaped in both; a
document that holds one in the compact form has no bytes.
-/

namespace Restyle

namespace Json

open Text

/-- A character that is written with a backslash in both forms. -/
def shortEscape? (character : Char) : Option (List Char) :=
  if character == '"' then some ['\\', '"']
  else if character == '\\' then some ['\\', '\\']
  else if character == '\n' then some ['\\', 'n']
  else if character == '\r' then some ['\\', 'r']
  else if character == '\t' then some ['\\', 't']
  else if character == '\x0c' then some ['\\', 'f']
  else if character == '\x08' then some ['\\', 'b']
  else none

def unitEscape (unit : Nat) : List Char := '\\' :: 'u' :: hex 4 unit

/-- A character by its code units. -/
def codeEscapes (character : Char) : List Char :=
  let code := character.toNat
  if code < 0x10000 then unitEscape code
  else
    let offset := code - 0x10000
    unitEscape (0xD800 + offset / 0x400) ++ unitEscape (0xDC00 + offset % 0x400)

/-- A character of a text in the form written in lines. -/
def escapedAscii (character : Char) : List Char :=
  match shortEscape? character with
  | some escape => escape
  | none =>
      if 0x20 ≤ character.toNat && character.toNat < 0x7f then [character]
      else codeEscapes character

/-- A character of a text in the compact form. -/
def escapedControl (character : Char) : List Char :=
  match shortEscape? character with
  | some escape => escape
  | none => if 0x20 ≤ character.toNat then [character] else codeEscapes character

/-- A code of a text, whose characters are written by `escape`. -/
def codeText (escape : Char → List Char) : Code → List Char
  | .character value => escape value
  | .surrogate offset => unitEscape (Code.unit offset)

def codesText (escape : Char → List Char) (text : List Code) : List Char :=
  '"' :: text.flatMap (codeText escape) ++ ['"']

def quotedText (escape : Char → List Char) (text : String) : List Char :=
  codesText escape (codes text.toList)

def quotedName (escape : Char → List Char) (name : String) : List Char :=
  codesText escape (codesOf name.toList)

def realText : Binary64 → List Char
  | .notANumber => "NaN".toList
  | .infinite negative => if negative then "-Infinity".toList else "Infinity".toList
  | value => value.text.toList

/-- A value without members. -/
def scalarText (escape : Char → List Char) : Json → List Char
  | .null => "null".toList
  | .boolean value => if value then "true".toList else "false".toList
  | .integer value => (toString value).toList
  | .real value => realText value
  | .text value => quotedText escape value
  | .torn codes => codesText escape codes
  | .array _ => []
  | .object _ => []

mutual

def compactText : Json → List Char
  | .array items => '[' :: compactItems items ++ [']']
  | .object fields => '\x7b' :: compactFields fields ++ ['\x7d']
  | scalar => scalarText escapedControl scalar

def compactItems : List Json → List Char
  | [] => []
  | [item] => compactText item
  | item :: items => compactText item ++ ',' :: compactItems items

def compactFields : List (String × Json) → List Char
  | [] => []
  | [(name, value)] => quotedName escapedControl name ++ ':' :: compactText value
  | (name, value) :: fields =>
      quotedName escapedControl name ++ ':' :: compactText value ++ ',' :: compactFields fields

end

/-- A line end and the indentation of a level. -/
def newline (level : Nat) : List Char := '\n' :: List.replicate (2 * level) ' '

mutual

/-- The form in lines, at a level of nesting. -/
def linesText (level : Nat) : Json → List Char
  | .array [] => ['[', ']']
  | .array items =>
      '[' :: newline (level + 1) ++ linesItems (level + 1) items ++ newline level ++ [']']
  | .object [] => ['\x7b', '\x7d']
  | .object fields =>
      '\x7b' :: newline (level + 1) ++ linesFields (level + 1) fields ++ newline level ++
        ['\x7d']
  | scalar => scalarText escapedAscii scalar

def linesItems (level : Nat) : List Json → List Char
  | [] => []
  | [item] => linesText level item
  | item :: items => linesText level item ++ ',' :: newline level ++ linesItems level items

def linesFields (level : Nat) : List (String × Json) → List Char
  | [] => []
  | [(name, value)] =>
      quotedName escapedAscii name ++ ':' :: ' ' :: linesText level value
  | (name, value) :: fields =>
      quotedName escapedAscii name ++ ':' :: ' ' :: linesText level value ++
        ',' :: newline level ++ linesFields level fields

end

/-- A document with no gaps. -/
def compact (value : Json) : String := String.ofList (compactText value)

/-- A document in lines. -/
def pretty (value : Json) : String := String.ofList (linesText 0 value)

end Json

end Restyle
