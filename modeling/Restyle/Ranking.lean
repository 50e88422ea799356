import Restyle.Ranking.Merge
import Restyle.Ranking.Run

/-!
# Rankings

A ranking puts items in order by a comparison; items of equal rank stay as they
came.  The list is cut into runs, and neighbouring runs are merged as soon as
the runs after them show that it is their turn.

The comparison need not be an order.  A value that is not a number comes before
nothing and after nothing, and then the comparisons that are made decide.
-/

namespace Restyle

namespace Ranking

/-- A run that waits to be merged. -/
structure Pending (α : Type) where
  /-- The place of its first item in the list. -/
  start : Nat
  run : List α
  /-- The power of its border with the run after it. -/
  power : Nat := 0

/-- The runs that wait, the last one first, and the patience of merging. -/
structure Progress (α : Type) where
  pending : List (Pending α) := []
  patience : Nat := worthwhile

/-- The first binary place in which two fractions of `whole` differ, the smaller
one first; `fuel` bounds the places. -/
def firstDifference (whole : Nat) : (fuel small great : Nat) → Nat
  | 0, _, _ => 1
  | fuel + 1, small, great =>
      if whole ≤ small then
        firstDifference whole fuel (2 * (small - whole)) (2 * (great - whole)) + 1
      else if whole ≤ great then 1
      else firstDifference whole fuel (2 * small) (2 * great) + 1

/-- The power of the border between a run and the next one, by where the middles
of both lie in the whole list.  Borders of greater power are merged first. -/
def borderPower (whole start count next : Nat) : Nat :=
  firstDifference whole whole (2 * start + count) (2 * start + 2 * count + next)

/-- Merges the two last runs while the border before the last one has more than
the given power. -/
def collapse (before : α → α → Bool) (power patience : Nat) :
    (last : Pending α) → List (Pending α) → Progress α
  | last, [] => ⟨[last], patience⟩
  | last, above :: pending =>
      if power < above.power then
        let (run, after) := merge before patience above.run last.run
        collapse before power after { above with run } pending
      else ⟨last :: above :: pending, patience⟩

/-- Gives the last run its power. -/
def setPower (power : Nat) : List (Pending α) → List (Pending α)
  | [] => []
  | last :: pending => { last with power } :: pending

/-- Adds a run of a list of `whole` items. -/
def Progress.add (before : α → α → Bool) (whole start : Nat) (run : List α)
    (progress : Progress α) : Progress α :=
  match progress.pending with
  | [] => { progress with pending := [{ start, run }] }
  | last :: pending =>
      let power := borderPower whole last.start last.run.length run.length
      let settled := collapse before power progress.patience last pending
      { settled with pending := { start, run } :: setPower power settled.pending }

/-- Adds the runs of the rest of a list, which starts at a place. -/
def addRuns (before : α → α → Bool) (whole least : Nat) :
    (fuel start : Nat) → List α → Progress α → Progress α
  | 0, _, _, progress => progress
  | fuel + 1, start, items, progress =>
      if items.isEmpty then progress
      else
        let (run, rest) := firstRun before least items
        addRuns before whole least fuel (start + run.length) rest
          (progress.add before whole start run)

/-- Merges all runs, the last two first unless the run before them is shorter
than the last. -/
def mergeAll (before : α → α → Bool) (patience : Nat) : (fuel : Nat) → List (Pending α) → List α
  | _, [] => []
  | _, [only] => only.run
  | 0, _ => []
  | fuel + 1, [last, above] =>
      let (run, after) := merge before patience above.run last.run
      mergeAll before after fuel [{ above with run }]
  | fuel + 1, last :: middle :: above :: pending =>
      if above.run.length < last.run.length then
        let (run, after) := merge before patience above.run middle.run
        mergeAll before after fuel (last :: { above with run } :: pending)
      else
        let (run, after) := merge before patience middle.run last.run
        mergeAll before after fuel ({ middle with run } :: above :: pending)

end Ranking

/-- The items in order. -/
def rank (before : α → α → Bool) (items : List α) : List α :=
  let count := items.length
  let progress :=
    Ranking.addRuns before count (Ranking.leastRun false count) count 0 items {}
  Ranking.mergeAll before progress.patience progress.pending.length progress.pending

end Restyle
