import Restyle.Text.Printable

/-!
# Escaped and quoted text

Characters that are not written as they are stand as escapes.
-/

namespace Restyle.Text

/-! ## Hexadecimal text

Lowercase digits, padded with zeros to a given width.
-/

/-- The lowercase hexadecimal digit of a value below sixteen. -/
def hexDigit (value : Nat) : Char :=
  if value < 10 then Char.ofNat (0x30 + value) else Char.ofNat (0x57 + value)

/-- The last `width` hexadecimal digits of a value, most significant first. -/
def hex : (width value : Nat) → List Char
  | 0, _ => []
  | width + 1, value => hex width (value / 16) ++ [hexDigit (value % 16)]

/-- The value of a hexadecimal digit of either case. -/
def hexValue? (character : Char) : Option Nat :=
  let code := character.toNat
  if 0x30 ≤ code && code ≤ 0x39 then some (code - 0x30)
  else if 0x61 ≤ code && code ≤ 0x66 then some (code - 0x57)
  else if 0x41 ≤ code && code ≤ 0x46 then some (code - 0x37)
  else none

/-- The bytes written as pairs of hexadecimal digits. -/
def bytesOfHex? : List Char → Option (List UInt8)
  | [] => some []
  | [_] => none
  | high :: low :: rest => do
      let upper ← hexValue? high
      let lower ← hexValue? low
      let later ← bytesOfHex? rest
      some (UInt8.ofNat (16 * upper + lower) :: later)

/-! ## Quoted text

Messages show a text between quotation marks so that every character in it is
visible.  Single marks are used unless the text has a single mark and no
double one.  The mark in use and the backslash are preceded by a backslash,
and a character that is not printable is written by its code point.
-/

def quotationMark (text : List Char) : Char :=
  if text.contains '\'' && !text.contains '"' then '"' else '\''

/-- A character that is not printable, by its code point. -/
def escapedCode (code : Nat) : List Char :=
  if code < 0x100 then '\\' :: 'x' :: hex 2 code
  else if code < 0x10000 then '\\' :: 'u' :: hex 4 code
  else '\\' :: 'U' :: hex 8 code

/-- One character as it stands between the marks. -/
def quotedCharacter (mark character : Char) : List Char :=
  if character == mark || character == '\\' then ['\\', character]
  else if character == '\n' then ['\\', 'n']
  else if character == '\r' then ['\\', 'r']
  else if character == '\t' then ['\\', 't']
  else if isPrintable character then [character]
  else escapedCode character.toNat

/-- A text between quotation marks. -/
def quoted (text : List Char) : List Char :=
  let mark := quotationMark text
  mark :: text.flatMap (quotedCharacter mark) ++ [mark]

/-- A text between quotation marks, as a string. -/
def quote (text : String) : String :=
  String.ofList (quoted text.toList)

end Restyle.Text
