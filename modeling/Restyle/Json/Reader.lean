import Restyle.Json.Basic
import Restyle.Number.Reading
import Restyle.Text.Parts

/-!
# Reading documents

The reader follows the text from left to right and stops at the first place
that no document continues.  A place is known by the characters that are left
from it on; the error gives it as a line, a column and an offset.  Of two
fields with one name the later value stands, in the place of the earlier.
-/

namespace Restyle

namespace Json

open Text

/-- Why a text is no document. -/
inductive Cause where
  | valueExpected
  | nameExpected
  | colonExpected
  | commaExpected
  | extraData
  | unterminatedText
  | controlCharacter
  | unknownEscape
  | badCodeEscape
  | byteOrderMark
  deriving DecidableEq, Repr

def Cause.message : Cause → String
  | .valueExpected => "Expecting value"
  | .nameExpected => "Expecting property name enclosed in double quotes"
  | .colonExpected => "Expecting ':' delimiter"
  | .commaExpected => "Expecting ',' delimiter"
  | .extraData => "Extra data"
  | .unterminatedText => "Unterminated string starting at"
  | .controlCharacter => "Invalid control character at"
  | .unknownEscape => "Invalid \\escape"
  | .badCodeEscape => "Invalid \\uXXXX escape"
  | .byteOrderMark => "Unexpected UTF-8 BOM (decode using utf-8-sig)"

/-- A fault met while reading. -/
inductive Stop where
  /-- The text is no document; `remaining` is what is left of it from the place
  of the fault on. -/
  | malformed (cause : Cause) (remaining : List Char)
  /-- An integer has more digits than the limit. -/
  | tooLong (digits : Nat)
  deriving DecidableEq, Repr

/-- Whether a character may stand between the parts of a document. -/
def isGap (character : Char) : Bool :=
  character == ' ' || character == '\t' || character == '\n' || character == '\r'

def skipGaps (input : List Char) : List Char := input.dropWhile isGap

/-- The value of four hexadecimal digits. -/
def codeUnit? (a b c d : Char) : Option Nat := do
  let first ← hexValue? a
  let second ← hexValue? b
  let third ← hexValue? c
  let fourth ← hexValue? d
  some (((first * 16 + second) * 16 + third) * 16 + fourth)

def isHighSurrogate (unit : Nat) : Bool := 0xD800 ≤ unit && unit ≤ 0xDBFF

def isLowSurrogate (unit : Nat) : Bool := 0xDC00 ≤ unit && unit ≤ 0xDFFF

def pairCode (high low : Nat) : Code :=
  .character (Char.ofNat (0x10000 + (high - 0xD800) * 0x400 + (low - 0xDC00)))

/-- Reads four hexadecimal digits, after which at least one character must
follow.  The fault is at the letter before the digits. -/
def codeEscape (input : List Char) : Except Stop (Nat × List Char) :=
  match input with
  | a :: b :: c :: d :: next :: rest =>
      match codeUnit? a b c d with
      | some unit => .ok (unit, next :: rest)
      | none => .error (.malformed .badCodeEscape ('u' :: input))
  | _ => .error (.malformed .badCodeEscape ('u' :: input))

/-- Reads the low half of a surrogate pair after its high half, if it is
there. -/
def unitCode (unit : Nat) (rest : List Char) : Except Stop (Code × List Char) :=
  match rest with
  | '\\' :: 'u' :: later =>
      if isHighSurrogate unit && !(later.drop 4).isEmpty then
        match codeEscape later with
        | .error stop => .error stop
        | .ok (low, last) =>
            if isLowSurrogate low then .ok (pairCode unit low, last)
            else .ok (Code.ofUnit unit, rest)
      else .ok (Code.ofUnit unit, rest)
  | _ => .ok (Code.ofUnit unit, rest)

/-- The character that a letter stands for after a backslash. -/
def simpleEscape? (letter : Char) : Option Char :=
  match letter with
  | '"' => some '"'
  | '\\' => some '\\'
  | '/' => some '/'
  | 'b' => some '\x08'
  | 'f' => some '\x0c'
  | 'n' => some '\n'
  | 'r' => some '\r'
  | 't' => some '\t'
  | _ => none

/-- Reads one code of a text, or its closing quote.  `start` is what is left from
the opening quote on. -/
def textPiece (start : List Char) : List Char → Except Stop (Option Code × List Char)
  | [] => .error (.malformed .unterminatedText start)
  | '"' :: rest => .ok (none, rest)
  | ['\\'] => .error (.malformed .unterminatedText start)
  | '\\' :: 'u' :: rest =>
      match codeEscape rest with
      | .error stop => .error stop
      | .ok (unit, later) =>
          match unitCode unit later with
          | .error stop => .error stop
          | .ok (code, last) => .ok (some code, last)
  | '\\' :: letter :: rest =>
      match simpleEscape? letter with
      | some character => .ok (some (.character character), rest)
      | none => .error (.malformed .unknownEscape ('\\' :: letter :: rest))
  | character :: rest =>
      if character.toNat ≤ 0x1F then
        .error (.malformed .controlCharacter (character :: rest))
      else .ok (some (.character character), rest)

/-- Reads a text up to its closing quote, after the codes already read, last
first.  Every piece uses a character, so a `fuel` of more than the length of the
input suffices. -/
def textBody (start : List Char) :
    (fuel : Nat) → List Code → List Char → Except Stop (List Code × List Char)
  | 0, _, _ => .error (.malformed .unterminatedText start)
  | fuel + 1, known, input =>
      match textPiece start input with
      | .error stop => .error stop
      | .ok (none, rest) => .ok (known.reverse, rest)
      | .ok (some code, rest) => textBody start fuel (code :: known) rest

/-- Reads a text from after its opening quote. -/
def readText (fuel : Nat) (input : List Char) : Except Stop (List Code × List Char) :=
  textBody ('"' :: input) fuel [] input

/-- The digits of the integer part: a single zero, or digits that start with
none. -/
def wholeDigits : List Char → List Char × List Char
  | '0' :: rest => (['0'], rest)
  | input => (input.takeWhile Char.isDigit, input.dropWhile Char.isDigit)

/-- The point and the digits after it, if there are any digits. -/
def fractionDigits (input : List Char) : List Char × List Char :=
  match input with
  | '.' :: rest =>
      let digits := rest.takeWhile Char.isDigit
      if digits.isEmpty then ([], input) else (digits, rest.dropWhile Char.isDigit)
  | _ => ([], input)

/-- The exponent, if it has digits. -/
def exponentPart (input : List Char) : Option Int × List Char :=
  match input with
  | mark :: rest =>
      if mark == 'e' || mark == 'E' then
        let (negative, later) := takeSign rest
        let digits := later.takeWhile Char.isDigit
        if digits.isEmpty then (none, input)
        else
          (some (Binary64.signed negative (digitsValue digits)),
            later.dropWhile Char.isDigit)
      else (none, input)
  | [] => (none, input)

/-- A minus, and the rest of the text. -/
def takeMinus : List Char → Bool × List Char
  | '-' :: rest => (true, rest)
  | input => (false, input)

/-- Reads the longest number at the start of a text.  With no point and no
exponent it is an integer. -/
def readNumber (input : List Char) : Except Stop (Json × List Char) :=
  let (negative, unsigned) := takeMinus input
  let (digits, afterWhole) := wholeDigits unsigned
  if digits.isEmpty then .error (.malformed .valueExpected input)
  else
    let (fraction, afterFraction) := fractionDigits afterWhole
    let (exponent, rest) := exponentPart afterFraction
    if fraction.isEmpty && exponent.isNone then
      if digitLimit < digits.length then .error (.tooLong digits.length)
      else .ok (.integer (Binary64.signed negative (digitsValue digits)), rest)
    else
      .ok (.real (Binary64.ofDecimal negative (digitsValue (digits ++ fraction))
        (exponent.getD 0 - fraction.length)), rest)

def wordValues : List (String × Json) :=
  [("null", .null), ("true", .boolean true), ("false", .boolean false),
    ("NaN", .real .notANumber), ("Infinity", .real (.infinite false)),
    ("-Infinity", .real (.infinite true))]

/-- The word value at the start of a text. -/
def readWord? (input : List Char) : List (String × Json) → Option (Json × List Char)
  | [] => none
  | (word, value) :: words =>
      match dropLead? word.toList input with
      | some rest => some (value, rest)
      | none => readWord? input words

mutual

/-- Reads the value at the start of a text.  Every two calls use a character, so
a `fuel` of more than twice the length of the input suffices. -/
def readValue : (fuel : Nat) → List Char → Except Stop (Json × List Char)
  | 0, input => .error (.malformed .valueExpected input)
  | fuel + 1, input =>
      match input with
      | '"' :: rest =>
          match readText fuel rest with
          | .error stop => .error stop
          | .ok (codes, last) => .ok (ofCodes codes, last)
      | '[' :: rest =>
          match skipGaps rest with
          | ']' :: last => .ok (.array [], last)
          | items =>
              match readItems fuel [] items with
              | .error stop => .error stop
              | .ok (values, last) => .ok (.array values, last)
      | '\x7b' :: rest =>
          match skipGaps rest with
          | '\x7d' :: last => .ok (.object [], last)
          | members =>
              match readFields fuel [] members with
              | .error stop => .error stop
              | .ok (fields, last) => .ok (.object fields, last)
      | _ =>
          match readWord? input wordValues with
          | some (value, rest) => .ok (value, rest)
          | none => readNumber input

/-- Reads the items of an array up to its closing bracket, after those already
read, last first. -/
def readItems : (fuel : Nat) → List Json → List Char → Except Stop (List Json × List Char)
  | 0, _, input => .error (.malformed .valueExpected input)
  | fuel + 1, known, input =>
      match readValue fuel input with
      | .error stop => .error stop
      | .ok (value, rest) =>
          match skipGaps rest with
          | ']' :: last => .ok ((value :: known).reverse, last)
          | ',' :: later => readItems fuel (value :: known) (skipGaps later)
          | other => .error (.malformed .commaExpected other)

/-- Reads the fields of an object up to its closing brace, after those already
read. -/
def readFields : (fuel : Nat) → List (String × Json) → List Char →
    Except Stop (List (String × Json) × List Char)
  | 0, _, input => .error (.malformed .nameExpected input)
  | fuel + 1, fields, input =>
      match input with
      | '"' :: rest =>
          match readText fuel rest with
          | .error stop => .error stop
          | .ok (name, afterName) =>
              match skipGaps afterName with
              | ':' :: afterColon =>
                  match readValue fuel (skipGaps afterColon) with
                  | .error stop => .error stop
                  | .ok (value, afterValue) =>
                      let known := setField (nameOf name) value fields
                      match skipGaps afterValue with
                      | '\x7d' :: last => .ok (known, last)
                      | ',' :: later => readFields fuel known (skipGaps later)
                      | other => .error (.malformed .commaExpected other)
              | other => .error (.malformed .colonExpected other)
      | _ => .error (.malformed .nameExpected input)

end

/-- Reads a text that holds one value and nothing else. -/
def readDocument (input : List Char) : Except Stop Json :=
  if input.head? = some '\uFEFF' then .error (.malformed .byteOrderMark input)
  else
    match readValue (2 * input.length + 2) (skipGaps input) with
    | .error stop => .error stop
    | .ok (value, rest) =>
        match skipGaps rest with
        | [] => .ok value
        | extra => .error (.malformed .extraData extra)

/-- Why reading a document failed. -/
inductive ReadError where
  | malformed (cause : Cause) (line column offset : Nat)
  | tooLong (digits : Nat)
  deriving DecidableEq, Repr

/-- The fault with its place in the text: lines and columns count from one. -/
def Stop.locate (input : List Char) : Stop → ReadError
  | .tooLong digits => .tooLong digits
  | .malformed cause remaining =>
      let offset := input.length - remaining.length
      let before := input.take offset
      let line := before.count '\n' + 1
      let column := (before.reverse.takeWhile (· != '\n')).length + 1
      .malformed cause line column offset

def read (input : String) : Except ReadError Json :=
  match readDocument input.toList with
  | .ok value => .ok value
  | .error stop => .error (stop.locate input.toList)

end Json

/-- The message about an integer with too many digits. -/
def tooLongMessage (digits : Nat) : String :=
  "Exceeds the limit (" ++ toString digitLimit ++
    " digits) for integer string conversion: value has " ++ toString digits ++
    " digits; use sys.set_int_max_str_digits() to increase the limit"

def Json.ReadError.message : Json.ReadError → String
  | .malformed cause line column offset =>
      cause.message ++ ": line " ++ toString line ++ " column " ++ toString column ++
        " (char " ++ toString offset ++ ")"
  | .tooLong digits => tooLongMessage digits

end Restyle
