import Restyle.Text.Classes
import Restyle.Text.Parts
import Restyle.Text.Word

/-!
# Colours

Raw colours stand in palette classes and in the notes about inline styles.
-/

namespace Restyle.Suggestion

open Text

/-! ## Palette colours

A palette class names a raw colour, as in `bg-blue-500/50`: what is coloured, a
colour, a shade, and an optional opacity.  The suggestion refers to a semantic
token instead, as in `bg-(--primary)/50`.  One final line feed is ignored.
-/

/-- What a class can colour. -/
def colouredParts : List String := ["bg", "text", "border", "ring", "fill", "stroke"]

/-- The semantic names of palette colours. -/
def semanticColours : List (String × String) :=
  [("blue-500", "primary"), ("blue-600", "primary-dark"), ("gray-100", "muted"),
    ("gray-500", "muted-foreground"), ("red-500", "destructive"), ("green-500", "success"),
    ("yellow-500", "warning")]

structure PaletteClass where
  part : List Char
  colour : List Char
  shade : List Char
  opacity : Option (List Char)
  deriving DecidableEq, Repr

namespace PaletteClass

/-- The class with the given parts. -/
def written (palette : PaletteClass) : List Char :=
  palette.part ++ '-' :: palette.colour ++ '-' :: palette.shade ++
    match palette.opacity with
    | some opacity => '/' :: opacity
    | none => []

/-- The colour and shade. -/
def hue (palette : PaletteClass) : List Char :=
  palette.colour ++ '-' :: palette.shade

end PaletteClass

/-- Digits that fill a text. -/
def allDecimal (text : List Char) : Bool :=
  !text.isEmpty && text.all isDecimal

/-- The shade and opacity at the end of a palette class. -/
def readShade? (part colour text : List Char) : Option PaletteClass :=
  let shade := text.takeWhile isDecimal
  if shade.isEmpty then none
  else
    match text.dropWhile isDecimal with
    | [] => some ⟨part, colour, shade, none⟩
    | '/' :: opacity =>
        if allDecimal opacity then some ⟨part, colour, shade, some opacity⟩ else none
    | _ => none

def readPalette? (className : List Char) : Option PaletteClass :=
  let text := dropFinalFeed className
  let part := text.takeWhile (· != '-')
  if colouredParts.contains (String.ofList part) then
    match text.dropWhile (· != '-') with
    | '-' :: afterPart =>
        let colour := afterPart.takeWhile isWord
        if colour.isEmpty then none
        else
          match afterPart.dropWhile isWord with
          | '-' :: afterColour => readShade? part colour afterColour
          | _ => none
    | _ => none
  else none

/-- Whether a character counts as a letter from A to Z without regard to case:
the Kelvin sign, the long s and the Turkish forms of i do. -/
def isLatinLetter (character : Char) : Bool :=
  character.isAlpha || character == '\u212A' || character == '\u017F' ||
    character == '\u0130' || character == '\u0131'

def staysInName (character : Char) : Bool :=
  isLatinLetter character || character.isDigit || character == '-'

/-- A class as a variable name: every other character becomes a dash. -/
def variableName (className : List Char) : List Char :=
  className.map fun character => if staysInName character then character else '-'

/-- The semantic name of a hue, or the hue itself. -/
def semanticName (hue : List Char) : List Char :=
  match semanticColours.lookup (String.ofList hue) with
  | some name => name.toList
  | none => hue

/-- The class that refers to the semantic token of a palette class. -/
def PaletteClass.semantic (palette : PaletteClass) : List Char :=
  palette.part ++ "-(--".toList ++ semanticName palette.hue ++ ')' ::
    match palette.opacity with
    | some opacity => '/' :: opacity
    | none => []

/-- The suggestion for a raw colour.  A class of another form becomes a
variable. -/
def semanticToken (className : List Char) : List Char :=
  match readPalette? className with
  | some palette => palette.semantic
  | none => "var(--".toList ++ variableName className ++ [')']

/-! ## Inline colours

A note of the form `Found: color: #fff` gives the value of an inline style.
-/

/-- What follows `Found:`, a property name and its colon. -/
def afterProperty? (note : List Char) : Option (List Char) :=
  match dropLead? "Found:".toList note with
  | none => none
  | some rest =>
      let named := trimLeft rest
      if (named.takeWhile isWordOrDash).isEmpty then none
      else
        match named.dropWhile isWordOrDash with
        | ':' :: value => some value
        | _ => none

/-- The value that a note gives: the rest of the line on which it starts,
without blanks around.  A note with blanks only, not all of them line feeds,
gives the empty value. -/
def inlineColour? (note : List Char) : Option (List Char) :=
  match afterProperty? note with
  | none => none
  | some rest =>
      match trimLeft rest with
      | [] => if rest.all (· == '\n') then none else some []
      | value => some (trim (value.takeWhile (· != '\n')))

end Restyle.Suggestion
