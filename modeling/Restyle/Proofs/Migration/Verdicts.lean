import Restyle.Proofs.Migration.Questions
import Restyle.Proofs.Migration.Views

/-!
# Verdicts

A run takes its steps one at a time.  Whether it asks about a step depends on what
happened before, and so does which of the answers that step meets.  `interview` is a
run that also notes these decisions; it does nothing else that a run does not do.
-/

namespace Restyle

namespace Migration

open Activity

variable {state next final : RunState} {session after : Session} {step : Step}
  {steps : List Step} {backup ask : Bool} {decision : Option Decision} {verdicts : List Verdict}
  {failure : Failure}

end Migration

end Restyle
