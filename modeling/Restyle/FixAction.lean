import Restyle.Json.Coercion

/-!
# Fix actions

A fix replaces a class by another, extracts a repeated pattern into a utility,
moves a value into a token, or removes a class.
-/

namespace Restyle

inductive FixAction where
  /-- Swap one class for another in place. -/
  | replace (source replacement : Json)
  /-- Collapse a repeated pattern into a named utility. -/
  | extract (pattern utility : Json)
  /-- Move a value into a token and refer to it. -/
  | tokenize (value token : Json)
  /-- Delete a class. -/
  | remove (className : Json)
  deriving DecidableEq, Repr, Inhabited

namespace FixAction

/-- The text that the fix looks for in the source. -/
def target : FixAction → Json
  | .replace source _ => source
  | .extract pattern _ => pattern
  | .tokenize value _ => value
  | .remove className => className

/-- One line about the fix. -/
def description : FixAction → String
  | .replace source replacement =>
      "replace " ++ source.shown ++ " -> " ++ replacement.shown
  | .extract _ utility => "extract to " ++ utility.shown
  | .tokenize value token => "tokenize " ++ value.shown ++ " as " ++ token.shown
  | .remove className => "remove " ++ className.shown

/-- The document of a fix. -/
def toJson : FixAction → Json
  | .replace source replacement =>
      .object [("type", .text "replace"), ("from", source), ("to", replacement)]
  | .extract pattern utility =>
      .object [("type", .text "extract"), ("pattern", pattern), ("utilityName", utility)]
  | .tokenize value token =>
      .object [("type", .text "tokenize"), ("value", value), ("tokenName", token)]
  | .remove className =>
      .object [("type", .text "remove"), ("className", className)]

/-- Reads a fix. -/
def ofJson (document : Json) : Except Fault FixAction := do
  let fields ← document.fields
  match Json.fieldOr "type" .null fields with
  | .text "replace" =>
      return .replace (← Json.required "from" fields) (← Json.required "to" fields)
  | .text "extract" =>
      return .extract (← Json.required "pattern" fields) (← Json.required "utilityName" fields)
  | .text "tokenize" =>
      return .tokenize (← Json.required "value" fields) (← Json.required "tokenName" fields)
  | .text "remove" => return .remove (← Json.required "className" fields)
  | other => throw (.unknownAction other)

end FixAction

end Restyle
