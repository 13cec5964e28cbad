/-!
# Sorting by a strict comparison

`Sorting.sortBy lt xs` sorts a list using only a strict comparison `lt` ("comes before"). When
`lt` is a strict weak order the result is the stable sort of the list. Comparisons that are not
(doubles with NaN among them, where every comparison with a NaN is false) still give one fixed
answer, the one of this procedure:

1. the longest run at the front is taken: strictly descending from its first two items (and then
   reversed), or else never descending;
2. every later item is inserted into the sorted part by binary search, after all items it does
   not come before.

With a NaN treated as "neither before nor after" anything, a NaN never ends a run and stops
binary searches wherever they stand, which is what places it.
-/

namespace Exploration

namespace Sorting

variable {α : Type} {m : Type → Type} [Monad m]

/-- The number of items after `prev` that continue a strictly descending run. -/
def descendingLength (lt : α → α → m Bool) (prev : α) : List α → m Nat
  | [] => pure 0
  | x :: xs => do
    if ← lt x prev then return 1 + (← descendingLength lt x xs) else return 0

/-- The number of items after `prev` that continue a run that never descends. -/
def ascendingLength (lt : α → α → m Bool) (prev : α) : List α → m Nat
  | [] => pure 0
  | x :: xs => do
    if ← lt x prev then return 0 else return 1 + (← ascendingLength lt x xs)

/-- The run at the front of a list, put in order, and the items after it. -/
def frontRun (lt : α → α → m Bool) : List α → m (List α × List α)
  | [] => pure ([], [])
  | [a] => pure ([a], [])
  | a :: b :: rest => do
    if ← lt b a then
      let n := 2 + (← descendingLength lt b rest)
      return (((a :: b :: rest).take n).reverse, (a :: b :: rest).drop n)
    else
      let n := 2 + (← ascendingLength lt b rest)
      return ((a :: b :: rest).take n, (a :: b :: rest).drop n)

/-- The place of `pivot` among the sorted items between `lo` and `hi`: binary search for the
first item that `pivot` comes before. -/
def insertPosition (lt : α → α → m Bool) (sorted : Array α) (pivot : α) (lo hi : Nat) : m Nat :=
  if lo < hi then do
    let mid := (lo + hi) / 2
    if ← lt pivot (sorted.getD mid pivot) then insertPosition lt sorted pivot lo mid
    else insertPosition lt sorted pivot (mid + 1) hi
  else pure lo
termination_by hi - lo

/-- Inserts one item into the sorted part at its binary-search place. -/
def insertSorted (lt : α → α → m Bool) (sorted : Array α) (pivot : α) : m (Array α) := do
  return sorted.insertIdxIfInBounds (← insertPosition lt sorted pivot 0 sorted.size) pivot

/-- The list sorted by a comparison that may fail, failing at its first failure (see the module
comment for the order of comparisons). -/
def sortByM (lt : α → α → m Bool) (xs : List α) : m (List α) := do
  let (run, rest) ← frontRun lt xs
  return (← rest.foldlM (insertSorted lt) run.toArray).toList

/-- The list sorted by `lt` (see the module comment). -/
def sortBy (lt : α → α → Bool) (xs : List α) : List α :=
  Id.run (sortByM (fun a b => pure (lt a b)) xs)

end Sorting

end Exploration
