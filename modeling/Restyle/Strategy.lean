import Restyle.Json.Coercion

/-!
# Severities and strategies

Findings differ in how serious they are, and a strategy says which of their
fixes a plan takes up.
-/

namespace Restyle

/-! ## Severities

How serious a finding is.
-/

inductive Severity where
  | error | warn | info
  deriving DecidableEq, Repr, Inhabited

namespace Severity

/-- The severities, the most serious first. -/
def all : List Severity := [.error, .warn, .info]

def name : Severity → String
  | .error => "error"
  | .warn => "warn"
  | .info => "info"

/-- The place of a severity among all: errors come first. -/
def rank : Severity → Nat
  | .error => 0
  | .warn => 1
  | .info => 2

/-- The severity that a value names. -/
def ofJson (value : Json) : Except Fault Severity :=
  match all.find? fun severity => value == .text severity.name with
  | some severity => .ok severity
  | none => .error (.notSeverity value)

end Severity

/-! ## Strategies

A strategy decides which fixes a plan takes up: those with enough confidence,
for findings that are serious enough.
-/

inductive Strategy where
  | conservative | balanced | aggressive
  deriving DecidableEq, Repr, Inhabited

namespace Strategy

/-- The strategies, the strictest first. -/
def all : List Strategy := [.conservative, .balanced, .aggressive]

def name : Strategy → String
  | .conservative => "conservative"
  | .balanced => "balanced"
  | .aggressive => "aggressive"

/-- The strategy that a value names. -/
def ofJson? (value : Json) : Option Strategy :=
  all.find? fun strategy => value == .text strategy.name

/-- The least confidence that a strategy asks for. -/
def leastConfidence : Strategy → Binary64
  | .conservative => .ofDecimal false 9 (-1)
  | .balanced => .ofDecimal false 7 (-1)
  | .aggressive => .ofDecimal false 5 (-1)

/-- Whether a strategy takes up findings of a severity. -/
def covers : Strategy → Severity → Bool
  | .conservative, severity => severity == .error
  | .balanced, severity => severity == .error || severity == .warn
  | .aggressive, _ => true

/-- Whether a strategy takes up a fix. -/
def accepts (strategy : Strategy) (confidence : Binary64) (severity : Severity) : Bool :=
  strategy.leastConfidence.le confidence && strategy.covers severity

end Strategy

end Restyle
