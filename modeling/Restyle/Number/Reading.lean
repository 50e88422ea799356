import Restyle.Number.Decimal
import Restyle.Text.Classes

/-!
# Numbers written as text

Numbers in text may use the decimal digits of any script, single underscores
between digits, a sign, and blanks around.
-/

namespace Restyle

open Text

/-- Whether a character is an ASCII space or spacing control. -/
def isPlainBlank (character : Char) : Bool :=
  character == ' ' || (0x09 ≤ character.toNat && character.toNat ≤ 0x0D)

/-- The ASCII form of a character of a number: a digit of any script becomes an
ASCII digit and a blank beyond ASCII a space. -/
def plainNumeral (character : Char) : Char :=
  if character.toNat < 0x7F then character
  else if isBlank character then ' '
  else
    match digitValue? character with
    | some value => Char.ofNat (0x30 + value)
    | none => '?'

/-- The ASCII form of a number without the blanks around it. -/
def plainNumber (text : List Char) : List Char :=
  let plain := (text.map plainNumeral).dropWhile isPlainBlank
  (plain.reverse.dropWhile isPlainBlank).reverse

def digitsValue (digits : List Char) : Nat :=
  digits.foldl (fun value digit => value * 10 + (digit.toNat - 0x30)) 0

/-- A sign, and the rest of the text. -/
def takeSign : List Char → Bool × List Char
  | '-' :: rest => (true, rest)
  | '+' :: rest => (false, rest)
  | text => (false, text)

/-- The digits of a text in which every character is a digit or a single
underscore between two digits. -/
def ungroupedDigits? : List Char → Option (List Char)
  | [] => none
  | [digit] => if digit.isDigit then some [digit] else none
  | digit :: '_' :: rest =>
      if digit.isDigit then (ungroupedDigits? rest).map (digit :: ·) else none
  | digit :: rest =>
      if digit.isDigit then (ungroupedDigits? rest).map (digit :: ·) else none

/-- The most digits of an integer that is read from text or written as text. -/
def digitLimit : Nat := 4300

/-- The least size that an integer cannot have to be written as text. -/
def leastUnwritable : Nat := Nat.pow 10 digitLimit

/-- Whether an integer can be written as text. -/
def isWritable (value : Int) : Bool := value.natAbs < leastUnwritable

/-- What a text is as an integer. -/
inductive IntegerReading where
  | value (number : Int)
  /-- The text is no integer. -/
  | malformed
  /-- The text is an integer with more digits than the limit. -/
  | tooLong (digits : Nat)
  deriving DecidableEq, Repr

def readInteger (text : List Char) : IntegerReading :=
  let (negative, rest) := takeSign (plainNumber text)
  match ungroupedDigits? rest with
  | none => .malformed
  | some digits =>
      if digitLimit < digits.length then .tooLong digits.length
      else .value (Binary64.signed negative (digitsValue digits))

/-- Removes the underscores of a number, each of which must stand between two
digits.  `previous` is the character before. -/
def ungrouped? (previous : Char) : List Char → Option (List Char)
  | [] => if previous == '_' then none else some []
  | '_' :: rest => if previous.isDigit then ungrouped? '_' rest else none
  | character :: rest =>
      if previous == '_' && !character.isDigit then none
      else (ungrouped? character rest).map (character :: ·)

/-- The exponent at the end of a decimal. -/
def readExponent? : List Char → Option Int
  | [] => some 0
  | mark :: rest =>
      if mark == 'e' || mark == 'E' then
        let (negative, digits) := takeSign rest
        if digits.isEmpty || !digits.all Char.isDigit then none
        else some (Binary64.signed negative (digitsValue digits))
      else none

/-- Reads an unsigned decimal: digits, a point among them, an exponent. -/
def readDecimal? (negative : Bool) (text : List Char) : Option Binary64 :=
  let whole := text.takeWhile Char.isDigit
  let afterWhole := text.dropWhile Char.isDigit
  let (part, afterPart) :=
    match afterWhole with
    | '.' :: rest => (rest.takeWhile Char.isDigit, rest.dropWhile Char.isDigit)
    | _ => ([], afterWhole)
  if whole.isEmpty && part.isEmpty then none
  else
    (readExponent? afterPart).map fun exponent =>
      Binary64.ofDecimal negative (digitsValue (whole ++ part)) (exponent - part.length)

/-- The names of the numbers that have no digits, in lower case. -/
def readNamed? (negative : Bool) (text : List Char) : Option Binary64 :=
  match String.ofList (text.map Char.toLower) with
  | "inf" => some (.infinite negative)
  | "infinity" => some (.infinite negative)
  | "nan" => some .notANumber
  | _ => none

def readReal? (text : List Char) : Option Binary64 :=
  match ungrouped? ' ' (plainNumber text) with
  | none => none
  | some plain =>
      let (negative, rest) := takeSign plain
      match readNamed? negative rest with
      | some value => some value
      | none => readDecimal? negative rest

end Restyle
