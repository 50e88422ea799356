import Restyle.Activity
import Restyle.Edit
import Restyle.Text.Word

/-!
# Promotions

A repeated pattern of classes is promoted to a named utility by adding its
block to the shared stylesheet.  A name can be promoted once.
-/

namespace Restyle

open Text

structure Promotion where
  name : String
  pattern : String
  block : String
  stylesheet : String
  applied : Bool := false
  classes : List String := []
  deriving DecidableEq, Repr, Inhabited

/-- How many square and round brackets are open. -/
structure Depth where
  square : Nat := 0
  round : Nat := 0
  deriving DecidableEq, Repr

namespace Depth

/-- The depth after a character.  A closing bracket that closes nothing counts
for nothing. -/
def after (depth : Depth) (character : Char) : Depth :=
  match character with
  | '[' => { depth with square := depth.square + 1 }
  | '(' => { depth with round := depth.round + 1 }
  | ']' => { depth with square := depth.square - 1 }
  | ')' => { depth with round := depth.round - 1 }
  | _ => depth

def isOutside (depth : Depth) : Bool := depth.square == 0 && depth.round == 0

end Depth

/-- The classes still to come, where `current` is the class being read, last
character first. -/
def splitPatternFrom (depth : Depth) (current : List Char) : List Char → List (List Char)
  | [] => if current.isEmpty then [] else [current.reverse]
  | character :: rest =>
      let inner := depth.after character
      if isBlank character && inner.isOutside then
        if current.isEmpty then splitPatternFrom inner [] rest
        else current.reverse :: splitPatternFrom inner [] rest
      else splitPatternFrom inner (character :: current) rest

/-- The classes of a pattern: it is cut at blanks outside all brackets. -/
def splitPattern (pattern : List Char) : List (List Char) :=
  splitPatternFrom {} [] pattern

/-- Removes equal neighbours from a list. -/
def dropRepeats : List String → List String
  | [] => []
  | [name] => [name]
  | first :: second :: rest =>
      if first = second then dropRepeats (second :: rest)
      else first :: dropRepeats (second :: rest)

/-- Classes in order of their characters, each once, none of them empty. -/
def normalizeClasses (classes : List String) : List String :=
  dropRepeats ((classes.filter (· != "")).mergeSort fun left right => !(right < left))

namespace Promotion

/-- Whether a text goes on as the end of a name does: where a name ends in a
word character no further one follows, and else one follows. -/
def endsName (name rest : List Char) : Bool :=
  let lastIsWord := (name.getLast?.map isWord).getD false
  let nextIsWord := (rest.head?.map isWord).getD false
  lastIsWord != nextIsWord

/-- Whether a text starts with the definition of a utility. -/
def definesHere (name text : List Char) : Bool :=
  match dropLead? "@utility".toList text with
  | none => false
  | some rest =>
      let gap := rest.takeWhile isBlank
      !gap.isEmpty &&
        (match dropLead? name (rest.dropWhile isBlank) with
          | some later => endsName name later
          | none => false)

/-- Whether a stylesheet defines a utility. -/
def defines (name : List Char) : List Char → Bool
  | [] => false
  | character :: rest => definesHere name (character :: rest) || defines name rest

/-- A stylesheet with a promoted utility at its end. -/
def appended (stylesheet name block : String) : String :=
  String.ofList (trimRight stylesheet.toList) ++ "\n\n/* north promote: " ++ name ++ " */\n" ++
    block ++ "\n"

/-- The promotion before the stylesheet is looked at. -/
def propose (stylesheet : Path) (name pattern : String) : Except Failure Promotion :=
  let pattern := String.ofList (trim pattern.toList)
  let name := String.ofList (trim name.toList)
  if pattern = "" then .error (.promotion .noPattern)
  else if name = "" then .error (.promotion .noName)
  else
    .ok {
      name, pattern
      block := utilityBlock name pattern
      stylesheet := stylesheet.toString
      classes := normalizeClasses ((splitPattern pattern.toList).map String.ofList) }

/-- Promotes a pattern.  The stylesheet is written only with `apply`. -/
def run (stylesheet : Path) (name pattern : String) (apply : Bool) : Activity Promotion := do
  let promotion ← Activity.lift (propose stylesheet name pattern)
  if !apply then return promotion
  else
    match ← Activity.readText stylesheet with
    | .error failure =>
        if failure.isMissing then throw (.promotion (.noStylesheet stylesheet))
        else throw (.promotion (.unreadable stylesheet failure))
    | .ok content =>
        if defines promotion.name.toList content.toList then
          throw (.promotion (.alreadyDefined promotion.name stylesheet))
        Activity.writeFile stylesheet (appended content promotion.name promotion.block)
        Activity.log .info .promoting
          ("Promoted '" ++ promotion.pattern ++ "' to @utility " ++ promotion.name ++ " in " ++
            stylesheet.toString)
        return { promotion with applied := true }

/-- The document of a promotion. -/
def toJson (promotion : Promotion) : Json :=
  .object
    [("kind", .text "promote"), ("applied", .boolean promotion.applied),
      ("name", .text promotion.name), ("pattern", .text promotion.pattern),
      ("normalizedClasses", .array (promotion.classes.map Json.text)),
      ("utilityBlock", .text promotion.block), ("cssPath", .text promotion.stylesheet)]

end Promotion

end Restyle
