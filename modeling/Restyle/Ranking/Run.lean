import Restyle.Ranking.Search

/-!
# Runs

A run is a stretch of a list that is put in order before it is merged with
others.  It starts with the longest ordered stretch, a strictly falling one
turned round, and takes in further items one by one while it is short.
-/

namespace Restyle.Ranking

/-- The longest start of a list in which each item continues the one before it,
where `last` is the item before the list, and the rest. -/
def takeRun (continues : α → α → Bool) (last : α) : List α → List α × List α
  | [] => ([], [])
  | item :: items =>
      if continues last item then
        let (run, rest) := takeRun continues item items
        (item :: run, rest)
      else ([], item :: items)

def orderedStart (before : α → α → Bool) : List α → List α × List α
  | first :: second :: items =>
      if before second first then
        let (run, rest) := takeRun (fun last item => before item last) second items
        ((first :: second :: run).reverse, rest)
      else
        let (run, rest) := takeRun (fun last item => !before item last) second items
        (first :: second :: run, rest)
  | items => (items, [])

/-- Puts an item in its place: after the items that it does not come before. -/
def insert (before : α → α → Bool) (run : List α) (item : α) : List α :=
  let place := bisect .front (fun other => !before item other) run 0 run.length
  run.take place ++ item :: run.drop place

/-- Halves a number until it is less than sixty-four.  If a half had to be
dropped on the way, which `odd` says, the result is one more. -/
def leastRun (odd : Bool) (count : Nat) : Nat :=
  if count < 64 then count + odd.toNat
  else leastRun (odd || count % 2 == 1) (count / 2)
termination_by count

/-- The first run of a list, with at least `least` items if there are so many,
and the rest. -/
def firstRun (before : α → α → Bool) (least : Nat) (items : List α) : List α × List α :=
  let (start, rest) := orderedStart before items
  let missing := least - start.length
  ((rest.take missing).foldl (insert before) start, rest.drop missing)

end Restyle.Ranking
