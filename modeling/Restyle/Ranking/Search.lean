/-!
# Searches in runs

A search counts the items from an end of a run on that pass a test, where no
item passes after one that does not.  It looks at few items: at ever greater
distances from that end, and then by bisection.  In a run that is not ordered
so, the items that it looks at decide.
-/

namespace Restyle.Ranking

/-- The end of a run where a search starts.  From the back the items are given
last first. -/
inductive Side where
  | front | back
  deriving DecidableEq, Repr

/-- The place between two places that halves them; of two such places the one
that is later in the run. -/
def Side.middle (low high : Nat) : Side → Nat
  | .front => low + (high - low) / 2
  | .back => high - 1 - (high - low) / 2

theorem Side.low_le_middle {low high : Nat} (ordered : low < high) (side : Side) :
    low ≤ side.middle low high := by
  cases side <;> simp only [Side.middle] <;> omega

theorem Side.middle_lt_high {low high : Nat} (ordered : low < high) (side : Side) :
    side.middle low high < high := by
  cases side <;> simp only [Side.middle] <;> omega

/-- How many items pass, found by bisection: the `low` first ones pass, and from
`high` on none does. -/
def bisect (side : Side) (passes : α → Bool) (items : List α) (low high : Nat) : Nat :=
  if low < high then
    let middle := side.middle low high
    match items[middle]? with
    | none => low
    | some item =>
        if passes item then bisect side passes items (middle + 1) high
        else bisect side passes items low middle
  else low
termination_by high - low
decreasing_by
  · have reached := side.low_le_middle ‹low < high›
    omega
  · have bounded := side.middle_lt_high ‹low < high›
    omega

/-- Looks at places at ever greater distances, where the item at `near` passes
and `far` is the next place to look at.  Gives the last place known to pass and
a place from which on none does. -/
def stride (passes : α → Bool) (items : List α) : (fuel near far : Nat) → Nat × Nat
  | 0, near, _ => (near, items.length)
  | fuel + 1, near, far =>
      match items[far]? with
      | none => (near, items.length)
      | some item =>
          if passes item then stride passes items fuel far (2 * far + 1) else (near, far)

/-- How many items pass from the end of the run on. -/
def reach (side : Side) (passes : α → Bool) : List α → Nat
  | [] => 0
  | first :: items =>
      if passes first then
        let (near, far) := stride passes (first :: items) items.length 0 1
        bisect side passes (first :: items) (near + 1) far
      else 0

end Restyle.Ranking
