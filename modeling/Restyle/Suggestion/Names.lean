import Restyle.Suggestion.Colours

/-!
# Names of tokens and utilities

What a fix adds to the stylesheet is named after what it stands for.
-/

namespace Restyle.Suggestion

open Text

/-! ## Names of tokens

The name of a new token is made of a family and a slug of the value: the text
in the first brackets, or else the whole value, in lower case and with every
run of other characters made one dash.
-/

/-- The text between the first opening bracket that is followed by some text
and its closing bracket. -/
def bracketed? : List Char → Option (List Char)
  | [] => none
  | '[' :: rest =>
      let inside := rest.takeWhile (· != ']')
      if !inside.isEmpty && inside.length < rest.length then some inside
      else bracketed? rest
  | _ :: rest => bracketed? rest

/-- The text in brackets, or else the whole value. -/
def literalValue (value : List Char) : List Char :=
  (bracketed? value).getD value

def staysInSlug (character : Char) : Bool :=
  isLatinLetter character || character.isDigit

/-- Makes every run of dashes one dash. -/
def collapseDashes : List Char → List Char
  | [] => []
  | character :: rest =>
      let later := collapseDashes rest
      if character == '-' && later.head? == some '-' then later else character :: later

/-- A text without the dashes at its ends. -/
def stripDashes (text : List Char) : List Char :=
  ((text.dropWhile (· == '-')).reverse.dropWhile (· == '-')).reverse

/-- The lower case of a character that stays in a slug.  Of those beyond ASCII
the Kelvin sign becomes a k, and the dotted capital I an i with a dot above;
the others have no other lower case. -/
def lowerCase (character : Char) : List Char :=
  if character == '\u212A' then ['k']
  else if character == '\u0130' then ['i', '\u0307']
  else [character.toLower]

/-- The slug of a value; it may be empty. -/
def slug (value : List Char) : List Char :=
  let bare := dropLead ['#'] (literalValue value)
  let dashed := bare.map fun character => if staysInSlug character then character else '-'
  (stripDashes (collapseDashes dashed)).flatMap lowerCase

/-- The name of the token for a value, as in `--color-ff0000`. -/
def tokenName (family value : List Char) : List Char :=
  let name := slug value
  "--".toList ++ family ++ '-' :: (if name.isEmpty then "custom".toList else name)

/-! ## Names of utilities

A repeated pattern is named after the kinds of classes it holds.
-/

/-- The kinds of classes, each with the texts that its classes start with. -/
def utilityKinds : List (String × List String) :=
  [("layout", ["flex", "grid", "block", "inline"]), ("text", ["text-", "font-"]),
    ("spacing", ["p-", "m-", "gap-"]), ("surface", ["bg-"]),
    ("bordered", ["border", "rounded"])]

/-- Whether some class of a pattern starts with one of the texts. -/
def hasKind (classes : List (List Char)) (leads : List String) : Bool :=
  classes.any fun className => leads.any fun lead => lead.toList.isPrefixOf className

def utilityName (pattern : List Char) : String :=
  let classes := words pattern
  let kinds := (utilityKinds.filter fun kind => hasKind classes kind.2).map (·.1)
  "@apply-" ++ "-".intercalate (if kinds.isEmpty then ["utility"] else kinds)

end Restyle.Suggestion
