/-!
# Markup in shown text

Shown text may hold tags in square brackets.  Text that comes from outside is
escaped first, so that no part of it reads as a tag: a tag gets a backslash in
front, the backslashes that stood there are doubled, and a single final
backslash is doubled so that it cannot escape what follows.  Where tags cannot
be shown, they are left out.
-/

namespace Restyle.Text

/-- Whether a character may follow the bracket that opens a tag. -/
def opensTag (character : Char) : Bool :=
  ('a' ≤ character && character ≤ 'z') || character == '#' || character == '/' ||
    character == '@'

/-- The text up to and including the first closing bracket, when no opening
bracket comes before it, and what follows. -/
def tagEnd? : List Char → Option (List Char × List Char)
  | [] => none
  | ']' :: rest => some ([']'], rest)
  | '[' :: _ => none
  | character :: rest =>
      (tagEnd? rest).map fun (tag, later) => (character :: tag, later)

/-- The tag at the start of a text, and what follows it. -/
def tag? : List Char → Option (List Char × List Char)
  | '[' :: first :: rest =>
      if opensTag first then
        (tagEnd? rest).map fun (tag, later) => ('[' :: first :: tag, later)
      else none
  | _ => none

/-- Escapes the tags of a text.  `slashes` counts the backslashes just read;
`fuel` bounds the characters still to be read. -/
def escapeTagsFrom (slashes : Nat) : (fuel : Nat) → List Char → List Char
  | 0, text => List.replicate slashes '\\' ++ text
  | _ + 1, [] => List.replicate slashes '\\'
  | fuel + 1, '\\' :: rest => escapeTagsFrom (slashes + 1) fuel rest
  | fuel + 1, character :: rest =>
      match tag? (character :: rest) with
      | some (tag, later) =>
          List.replicate (2 * slashes + 1) '\\' ++ tag ++ escapeTagsFrom 0 fuel later
      | none =>
          List.replicate slashes '\\' ++ character :: escapeTagsFrom 0 fuel rest

/-- Doubles a single final backslash. -/
def closeFinalSlash (text : List Char) : List Char :=
  match text.reverse with
  | '\\' :: '\\' :: _ => text
  | '\\' :: _ => text ++ ['\\']
  | _ => text

/-- A text in which nothing reads as a tag. -/
def escape (text : List Char) : List Char :=
  closeFinalSlash (escapeTagsFrom 0 text.length text)

/-- The backslashes that show before a character: one in front of an opening
bracket does not. -/
def slashesBefore (character : Char) (slashes : Nat) : List Char :=
  List.replicate (if character == '[' then slashes - 1 else slashes) '\\'

/-- Leaves out the tags of a text that are not escaped.  `slashes` counts the
backslashes just read; `fuel` bounds the characters still to be read. -/
def omitTagsFrom (slashes : Nat) : (fuel : Nat) → List Char → List Char
  | 0, text => List.replicate slashes '\\' ++ text
  | _ + 1, [] => List.replicate slashes '\\'
  | fuel + 1, '\\' :: rest => omitTagsFrom (slashes + 1) fuel rest
  | fuel + 1, character :: rest =>
      match tag? (character :: rest) with
      | some (tag, later) =>
          List.replicate (slashes / 2) '\\' ++ (if slashes % 2 = 1 then tag else []) ++
            omitTagsFrom 0 fuel later
      | none => slashesBefore character slashes ++ character :: omitTagsFrom 0 fuel rest

/-- A text as it reads without tags. -/
def omitTags (text : List Char) : List Char :=
  omitTagsFrom 0 text.length text

end Restyle.Text
