import Restyle.Ranking.Search

/-!
# Merging runs

Two neighbouring runs are merged from the end at which the longer one starts:
item by item at first, and in stretches when one run keeps winning.  How many
wins in a row that takes is the patience, which sinks while stretches are long
and grows when they are not.  Of items that do not come before each other those
of the left run come first.
-/

namespace Restyle.Ranking

/-- The least length of a stretch that is worth searching for. -/
def worthwhile : Nat := 7

/-- A merge under way.  Both runs are given from the end on at which merging
goes on. -/
structure Merging (α : Type) where
  short : List α
  long : List α
  /-- What is merged already, last item first. -/
  merged : List α := []
  patience : Nat

namespace Merging

/-- Whether the rest needs no comparison: one run is used up, or the last item
of the short one goes to the end. -/
def isOver (merging : Merging α) : Bool :=
  merging.long.isEmpty || (merging.short.drop 1).isEmpty

/-- All items, once a merge is over. -/
def items (merging : Merging α) : List α :=
  merging.merged.reverse ++ merging.long ++ merging.short

def takeShort (count : Nat) (merging : Merging α) : Merging α :=
  { merging with
    short := merging.short.drop count
    merged := (merging.short.take count).reverse ++ merging.merged }

def takeLong (count : Nat) (merging : Merging α) : Merging α :=
  { merging with
    long := merging.long.drop count
    merged := (merging.long.take count).reverse ++ merging.merged }

/-- Merges item by item until a run has won as often in a row as the patience
says.  `longFirst` tells of an item of the short run and one of the long run
whether the latter comes first; the wins in a row are counted for both. -/
def walk (longFirst : α → α → Bool) :
    (fuel shortWins longWins : Nat) → Merging α → Merging α
  | 0, _, _, merging => merging
  | fuel + 1, shortWins, longWins, merging =>
      match merging.short, merging.long with
      | short :: _, long :: _ =>
          if longFirst short long then
            let next := merging.takeLong 1
            if next.isOver || next.patience ≤ longWins + 1 then next
            else walk longFirst fuel 0 (longWins + 1) next
          else
            let next := merging.takeShort 1
            if next.isOver || next.patience ≤ shortWins + 1 then next
            else walk longFirst fuel (shortWins + 1) 0 next
      | _, _ => merging

/-- How many items of the short run come before the next one of the long run. -/
def shortStretch (side : Side) (longFirst : α → α → Bool) (merging : Merging α) : Nat :=
  match merging.long with
  | [] => 0
  | long :: _ => reach side (fun short => !longFirst short long) merging.short

/-- How many items of the long run come before the next one of the short run. -/
def longStretch (side : Side) (longFirst : α → α → Bool) (merging : Merging α) : Nat :=
  match merging.short with
  | [] => 0
  | short :: _ => reach side (fun long => longFirst short long) merging.long

/-- Goes on with a merge unless it is over. -/
def andThen (merging : Merging α) (next : Merging α → Merging α) : Merging α :=
  if merging.isOver then merging else next merging

/-- Takes a stretch of the short run and an item of the long one, then a stretch
of the long run and an item of the short one.  Tells whether a stretch was
worthwhile. -/
def leapShortFirst (side : Side) (longFirst : α → α → Bool) (merging : Merging α) :
    Merging α × Bool :=
  let first := merging.shortStretch side longFirst
  let between := (merging.takeShort first).andThen (·.takeLong 1)
  let second := between.longStretch side longFirst
  (between.andThen fun middle => (middle.takeLong second).andThen (·.takeShort 1),
    worthwhile ≤ first || worthwhile ≤ second)

/-- Takes a stretch of the long run and an item of the short one, then a stretch
of the short run and an item of the long one.  Tells whether a stretch was
worthwhile. -/
def leapLongFirst (side : Side) (longFirst : α → α → Bool) (merging : Merging α) :
    Merging α × Bool :=
  let first := merging.longStretch side longFirst
  let between := (merging.takeLong first).andThen (·.takeShort 1)
  let second := between.shortStretch side longFirst
  (between.andThen fun middle => (middle.takeShort second).andThen (·.takeLong 1),
    worthwhile ≤ first || worthwhile ≤ second)

/-- Takes stretches of both runs, those of the left run first. -/
def leap (side : Side) (longFirst : α → α → Bool) (merging : Merging α) : Merging α × Bool :=
  match side with
  | .front => merging.leapShortFirst side longFirst
  | .back => merging.leapLongFirst side longFirst

/-- Takes stretches as long as they are worthwhile. -/
def leaps (side : Side) (longFirst : α → α → Bool) : (fuel : Nat) → Merging α → Merging α
  | 0, merging => merging
  | fuel + 1, merging =>
      let (next, worth) := merging.leap side longFirst
      if next.isOver then next
      else if worth then
        leaps side longFirst fuel { next with patience := max 1 (next.patience - 1) }
      else { next with patience := next.patience + 1 }

/-- Merges item by item and in stretches by turns until the merge is over. -/
def complete (side : Side) (longFirst : α → α → Bool) : (fuel : Nat) → Merging α → Merging α
  | 0, merging => merging
  | fuel + 1, merging =>
      let walked :=
        merging.walk longFirst (merging.short.length + merging.long.length) 0 0
      if walked.isOver then walked
      else
        let leapt :=
          walked.leaps side longFirst (walked.short.length + walked.long.length)
        if leapt.isOver then leapt else complete side longFirst fuel leapt

/-- Runs a merge, which starts with an item of the long run. -/
def run (side : Side) (longFirst : α → α → Bool) (merging : Merging α) : Merging α :=
  (merging.takeLong 1).andThen
    (complete side longFirst (merging.short.length + merging.long.length))

end Merging

/-- Merges two runs of which no item is in its place yet, from the front if the
left one is not the longer and else from the back.  Gives the new patience. -/
def mergeCores (before : α → α → Bool) (patience : Nat) (left right : List α) :
    List α × Nat :=
  if left.length ≤ right.length then
    let done :=
      Merging.run .front (fun short long => before long short)
        { short := left, long := right, patience }
    (done.items, done.patience)
  else
    let done :=
      Merging.run .back (fun short long => before short long)
        { short := right.reverse, long := left.reverse, patience }
    (done.items.reverse, done.patience)

/-- Merges two neighbouring runs.  The items at the start of the left one and at
the end of the right one that are in their places stay there. -/
def merge (before : α → α → Bool) (patience : Nat) (left right : List α) : List α × Nat :=
  match right with
  | [] => (left, patience)
  | first :: _ =>
      let lead := reach .front (fun item => !before first item) left
      match (left.drop lead).getLast? with
      | none => (left ++ right, patience)
      | some last =>
          let trail := reach .back (fun item => !before item last) right.reverse
          let kept := right.length - trail
          if kept = 0 then (left ++ right, patience)
          else
            let (core, after) :=
              mergeCores before patience (left.drop lead) (right.take kept)
            (left.take lead ++ core ++ right.drop kept, after)

end Restyle.Ranking
