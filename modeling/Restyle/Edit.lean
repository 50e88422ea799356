import Restyle.Step
import Restyle.Text.Parts

/-!
# Edits

A step edits one line of a text.  It looks for its target on that line; when
the line or the target is not there any more, there is no edit.  Positions
count characters.
-/

namespace Restyle

open Text

/-- A declaration that an edit adds to the stylesheet. -/
inductive SideEffect where
  | utility (block : String)
  | token (declaration : String)
  deriving DecidableEq, Repr

/-- The text after an edit, the numbers of characters removed and added, and
the declaration that goes with it. -/
structure Edit where
  content : List Char
  removed : Nat
  added : Nat
  sideEffect : Option SideEffect := none
  deriving DecidableEq, Repr

/-- How far before the reported column the search starts. -/
def windowBefore : Int := 5

/-- How far past the end of the target the search reaches. -/
def windowAfter : Int := 50

/-- The part of a line from `start` up to `stop`.  A negative end counts back
from the end of the line. -/
def slice (line : List Char) (start : Nat) (stop : Int) : List Char :=
  let last := if stop < 0 then (line.length + stop).toNat else stop.toNat
  (line.take last).drop start

/-- Where a target stands near a column: in the window around the column if it
occurs there, and else at its first occurrence on the line. -/
def indexNear? (target : List Char) (column : Int) (line : List Char) : Option Nat :=
  let start := (column - windowBefore).toNat
  let stop := min (line.length : Int) (column + target.length + windowAfter)
  match indexOf? target (slice line start stop) with
  | some index => some (start + index)
  | none => indexOf? target line

/-- The line with a number counted from one. -/
def lineAt? (lines : List (List Char)) (number : Int) : Option (List Char) :=
  if number < 1 then none else lines[(number - 1).toNat]?

/-- The text with the characters of a line from `start` up to `stop` replaced. -/
def splice (lines : List (List Char)) (number : Int) (line : List Char)
    (start stop : Nat) (inserted : List Char) : List Char :=
  joinFeeds
    (lines.set (number - 1).toNat (line.take start ++ inserted ++ line.drop stop))

/-- The `@utility` block that applies a pattern under a name. -/
def utilityBlock (name pattern : String) : String :=
  "@utility " ++ name ++ " \x7b\n  @apply " ++ pattern ++ ";\n\x7d"

/-- What a reference to a token colours, when its value says nothing else. -/
def defaultPart : List Char := "bg".toList

/-- The class that refers to a token in place of a value, as in
`bg-(--color-fff)`. -/
def tokenReference (value token : List Char) : List Char :=
  let part := value.takeWhile (· != '-')
  let known :=
    Suggestion.colouredParts.contains (String.ofList part) && part.length < value.length
  (if known then part else defaultPart) ++ '-' :: '(' :: token ++ [')']

/-- The lines of a text and its line with a number, when there is something to
look for and that line is not empty. -/
def openLine? (content : List Char) (number : Int) (target : Json) :
    Option (List (List Char) × List Char) :=
  if !target.isFilled then none
  else
    let lines := splitFeeds content
    match lineAt? lines number with
    | none => none
    | some [] => none
    | some line => some (lines, line)

/-- Swaps a class for another. -/
def replaceClass (content : List Char) (number column : Int) (source replacement : Json) :
    Except Fault (Option Edit) := do
  match openLine? content number source with
  | none => return none
  | some (lines, line) =>
      let target := (← source.asText).toList
      match indexNear? target column line with
      | none => return none
      | some start =>
          let inserted := (← replacement.asText).toList
          return some {
            content := splice lines number line start (start + target.length) inserted
            removed := target.length
            added := inserted.length }

/-- Swaps a pattern for a utility. -/
def extractPattern (content : List Char) (number : Int) (pattern utility : Json) :
    Except Fault (Option Edit) := do
  match openLine? content number pattern with
  | none => return none
  | some (lines, line) =>
      let text ← pattern.asText
      let target := text.toList
      match indexOf? target line with
      | none => return none
      | some start =>
          let name ← utility.asText
          let inserted := name.toList
          return some {
            content := splice lines number line start (start + target.length) inserted
            removed := target.length
            added := inserted.length
            sideEffect := some (.utility (utilityBlock name text)) }

def tokenDeclaration (value : List Char) (token : String) : String :=
  token ++ ": " ++ String.ofList (Suggestion.literalValue value) ++ ";"

def tokenizeValue (content : List Char) (number : Int) (value token : Json) :
    Except Fault (Option Edit) := do
  match openLine? content number value with
  | none => return none
  | some (lines, line) =>
      let target := (← value.asText).toList
      match indexOf? target line with
      | none => return none
      | some start =>
          let inserted := tokenReference target token.shown.toList
          return some {
            content := splice lines number line start (start + target.length) inserted
            removed := target.length
            added := inserted.length
            sideEffect := some (.token (tokenDeclaration target token.shown)) }

/-- The ends of a class that is removed, with one space beside it: the one
after it, or else the one before it. -/
def removalSpan (line : List Char) (start length : Nat) : Nat × Nat :=
  let stop := start + length
  if (line.drop stop).head? = some ' ' then (start, stop + 1)
  else if (line.take start).getLast? = some ' ' then (start - 1, stop)
  else (start, stop)

def removeClass (content : List Char) (number : Int) (className : Json) :
    Except Fault (Option Edit) := do
  match openLine? content number className with
  | none => return none
  | some (lines, line) =>
      let target := (← className.asText).toList
      match indexOf? target line with
      | none => return none
      | some found =>
          let (start, stop) := removalSpan line found target.length
          return some {
            content := splice lines number line start stop []
            removed := stop - start
            added := 0 }

/-- The edit that a step makes of a text, if it can be made. -/
def Step.edit (step : Step) (content : List Char) : Except Fault (Option Edit) :=
  match step.action with
  | .replace source replacement =>
      replaceClass content step.line step.column source replacement
  | .extract pattern utility => extractPattern content step.line pattern utility
  | .tokenize value token => tokenizeValue content step.line value token
  | .remove className => removeClass content step.line className

end Restyle
