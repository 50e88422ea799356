/-!
# Classes of characters

A class is given as a list of inclusive ranges of code points, and membership
stops at the first range that reaches the character.
-/

namespace Restyle.Text

/-! ## Sorted ranges of code points

A property of characters is given as a list of inclusive ranges, in increasing
order and without overlap.  Membership stops at the first range that reaches
the code point.
-/

/-- Whether a code point lies in one of the ranges, which are in increasing order. -/
def inRanges (code : Nat) : List (Nat × Nat) → Bool
  | [] => false
  | (first, last) :: later =>
      if code ≤ last then first ≤ code else inRanges code later

/-! ## Decimal digits of every script

Unicode 14 assigns decimal digits in runs of ten, from zero to nine.  A digit
is therefore known by the zero of its run.
-/

/-- The code points of the digit zero, in increasing order. -/
def digitZeros : List Nat :=
  [0x30, 0x660, 0x6F0, 0x7C0, 0x966, 0x9E6, 0xA66, 0xAE6, 0xB66, 0xBE6, 0xC66, 0xCE6, 0xD66,
  0xDE6, 0xE50, 0xED0, 0xF20, 0x1040, 0x1090, 0x17E0, 0x1810, 0x1946, 0x19D0, 0x1A80, 0x1A90,
  0x1B50, 0x1BB0, 0x1C40, 0x1C50, 0xA620, 0xA8D0, 0xA900, 0xA9D0, 0xA9F0, 0xAA50, 0xABF0,
  0xFF10, 0x104A0, 0x10D30, 0x11066, 0x110F0, 0x11136, 0x111D0, 0x112F0, 0x11450, 0x114D0,
  0x11650, 0x116C0, 0x11730, 0x118E0, 0x11950, 0x11C50, 0x11D50, 0x11DA0, 0x16A60, 0x16AC0,
  0x16B50, 0x1D7CE, 0x1D7D8, 0x1D7E2, 0x1D7EC, 0x1D7F6, 0x1E140, 0x1E2F0, 0x1E950, 0x1FBF0]

def digitValue? (character : Char) : Option Nat :=
  if character.toNat < 0x80 then
    if character.isDigit then some (character.toNat - 0x30) else none
  else
    (digitZeros.find? fun start =>
        start ≤ character.toNat && character.toNat < start + 10).map
      fun start => character.toNat - start

/-- Whether a character is a decimal digit of any script. -/
def isDecimal (character : Char) : Bool := (digitValue? character).isSome

/-! ## Blank characters

The blanks are the ASCII spacing controls, the four information separators,
the next-line control and the Unicode spaces.  Zero-width characters are not
blank.
-/

def blankRanges : List (Nat × Nat) :=
  [(0x09, 0x0D), (0x1C, 0x20), (0x85, 0x85), (0xA0, 0xA0), (0x1680, 0x1680),
    (0x2000, 0x200A), (0x2028, 0x2029), (0x202F, 0x202F), (0x205F, 0x205F),
    (0x3000, 0x3000)]

def isBlank (character : Char) : Bool :=
  inRanges character.toNat blankRanges

/-- A text without its leading blanks. -/
def trimLeft (text : List Char) : List Char :=
  text.dropWhile isBlank

/-- A text without its trailing blanks. -/
def trimRight (text : List Char) : List Char :=
  (text.reverse.dropWhile isBlank).reverse

/-- A text without its leading and trailing blanks. -/
def trim (text : List Char) : List Char :=
  trimRight (trimLeft text)

/-- The words still to come, where `current` is the word being read, last
character first. -/
def wordsFrom (current : List Char) : List Char → List (List Char)
  | [] => if current.isEmpty then [] else [current.reverse]
  | character :: rest =>
      if isBlank character then
        if current.isEmpty then wordsFrom [] rest
        else current.reverse :: wordsFrom [] rest
      else wordsFrom (character :: current) rest

/-- The maximal runs of characters that are not blank. -/
def words (text : List Char) : List (List Char) :=
  wordsFrom [] text

end Restyle.Text
