/-!
# Parts of texts

Where one text stands in another, and the lines of a text.
-/

namespace Restyle.Text

/-! ## Occurrences of one text in another

Offsets count characters from the start of the text.
-/

/-- The offset of the first occurrence of `needle`. -/
def indexOf? (needle : List Char) : List Char → Option Nat
  | [] => if needle.isEmpty then some 0 else none
  | character :: rest =>
      if needle.isPrefixOf (character :: rest) then some 0
      else (indexOf? needle rest).map (· + 1)

def occursIn (needle text : List Char) : Bool :=
  (indexOf? needle text).isSome

/-- What follows `lead`, when the text starts with it. -/
def dropLead? : (lead text : List Char) → Option (List Char)
  | [], text => some text
  | _ :: _, [] => none
  | expected :: lead, character :: text =>
      if expected == character then dropLead? lead text else none

/-- The text without `lead`, when it starts with it, and else unchanged. -/
def dropLead (lead text : List Char) : List Char :=
  (dropLead? lead text).getD text

/-- The text without one final line feed. -/
def dropFinalFeed (text : List Char) : List Char :=
  if text.getLast? = some '\n' then text.dropLast else text

/-! ## Line breaks

Source files are read with every kind of line end turned into a line feed.
Shown text is cut at a wider set of breaks.
-/

/-- Turns each carriage return, with the line feed after it if there is one,
into a line feed. -/
def unifyBreaks : List Char → List Char
  | [] => []
  | '\r' :: '\n' :: rest => '\n' :: unifyBreaks rest
  | '\r' :: rest => '\n' :: unifyBreaks rest
  | character :: rest => character :: unifyBreaks rest

/-- The lines of a text, as cut at its line feeds. -/
def splitFeeds (text : List Char) : List (List Char) :=
  text.splitOn '\n'

/-- The text whose lines, as cut at line feeds, are the given ones. -/
def joinFeeds (lines : List (List Char)) : List Char :=
  ['\n'].intercalate lines

def isLineEnd (character : Char) : Bool :=
  let code := character.toNat
  (0x0A ≤ code && code ≤ 0x0D) || (0x1C ≤ code && code ≤ 0x1E) ||
    code == 0x85 || code == 0x2028 || code == 0x2029

/-- The shown lines still to come, where `current` is the line being read,
last character first. -/
def shownLinesFrom (current : List Char) : List Char → List (List Char)
  | [] => if current.isEmpty then [] else [current.reverse]
  | '\r' :: '\n' :: rest => current.reverse :: shownLinesFrom [] rest
  | character :: rest =>
      if isLineEnd character then current.reverse :: shownLinesFrom [] rest
      else shownLinesFrom (character :: current) rest

/-- The shown lines of a text, without their ends.  A final line end starts
no further line. -/
def shownLines (text : List Char) : List (List Char) :=
  shownLinesFrom [] text

end Restyle.Text
