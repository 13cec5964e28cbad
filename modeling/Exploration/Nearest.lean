/-!
# Nearest points: sums and the bounded heap

The nearest-point searches of this library compute squared distances in two fixed orders and
collect the nearest points with a bounded heap; both decide the last bits of the distances
answered and the order of points at equal distance.

* `Nearest.laneSum` adds a list in four lanes: items `4j + r` into lane `r` while whole groups
  of four remain, the lanes added left to right, then the remaining items one by one. The
  searched point sets use it for squared distances (`Nearest.blockDistance`).
* `Nearest.pairwiseSum` adds short lists (under eight items) left to right from their first
  item (an empty list sums to `+0.0`), lists of up to 128
  items in eight lanes combined as `((l0 + l1) + (l2 + l3)) + ((l4 + l5) + (l6 + l7))` followed
  by the rest, and longer lists as the sum of two halves (the first a multiple of eight long).
  Distances to a batch of points use it.
* `Nearest.scan` walks squared distances in order and keeps the `k` nearest in a binary heap
  whose root is the farthest kept: a point enters while the heap has room or when it is strictly
  nearer than the root, which it then replaces. The kept points come out farthest first, each
  taken from the root, and are answered nearest first. Points at equal distance come out in the
  order the heap's sifting leaves them.
-/

namespace Exploration

namespace Nearest

/-- Adds the items of a list into running sums of `width` lanes while a whole group of `width`
items remains; answers the lanes and the items after the last whole group. -/
def lanes (width : Nat) (acc : List Float) (xs : List Float) : List Float × List Float :=
  if 0 < width ∧ width ≤ xs.length then
    lanes width (List.zipWith (· + ·) acc (xs.take width)) (xs.drop width)
  else (acc, xs)
termination_by xs.length
decreasing_by
  simp only [List.length_drop]
  omega

/-- The four-lane sum (see the module comment). -/
def laneSum (xs : List Float) : Float :=
  let (acc, rest) := lanes 4 [0.0, 0.0, 0.0, 0.0] xs
  let g := fun (i : Nat) => acc.getD i 0.0
  rest.foldl (· + ·) (((g 0 + g 1) + g 2) + g 3)

/-- The pairwise sum (see the module comment). -/
def pairwiseSum (xs : List Float) : Float :=
  if xs.length < 8 then
    match xs with
    | [] => 0.0
    | x :: rest => rest.foldl (· + ·) x
  else if xs.length ≤ 128 then
    let (r, rest) := lanes 8 (xs.take 8) (xs.drop 8)
    let g := fun (i : Nat) => r.getD i 0.0
    rest.foldl (· + ·) (((g 0 + g 1) + (g 2 + g 3)) + ((g 4 + g 5) + (g 6 + g 7)))
  else
    let half := xs.length / 2 - (xs.length / 2) % 8
    pairwiseSum (xs.take half) + pairwiseSum (xs.drop half)
termination_by xs.length
decreasing_by
  all_goals simp only [List.length_take, List.length_drop]
  all_goals omega

/-- The squared differences of two points, coordinate by coordinate. -/
def squares (p q : List Float) : List Float := List.zipWith (fun a b => (a - b) * (a - b)) p q

/-- The squared distance of two points of a searched set, by the four-lane sum. -/
def blockDistance (p q : List Float) : Float := laneSum (squares p q)

/-- An item of the heap: the negated squared distance and the position of the point. -/
abbrev HeapItem := Float × Nat

/-- Moves the item at `i` up while it is below its parent. -/
def siftUp (h : Array HeapItem) (i : Nat) : Array HeapItem :=
  if i = 0 then h
  else
    let p := (i - 1) / 2
    if (h.getD i (0.0, 0)).1 < (h.getD p (0.0, 0)).1 then siftUp (h.swapIfInBounds i p) p else h
termination_by i
decreasing_by omega

/-- The priority of the item at `n`. -/
def priorityAt (h : Array HeapItem) (n : Nat) : Float := (h.getD n (0.0, 0)).1

/-- The child of `i` an item sinks to: the right one only when it is strictly below the left
one. -/
def lowerChild (h : Array HeapItem) (i : Nat) : Nat :=
  if 2 * i + 2 < h.size ∧ priorityAt h (2 * i + 1) > priorityAt h (2 * i + 2) then 2 * i + 2
  else 2 * i + 1

/-- Moves the item at `i` down while a child is below it (see `lowerChild`). -/
def siftDown (h : Array HeapItem) (i : Nat) : Array HeapItem :=
  let j := 2 * i + 1
  let k := 2 * i + 2
  if _hl : i < lowerChild h i ∧ lowerChild h i < h.size then
    if (j < h.size ∧ priorityAt h i > priorityAt h j) ∨
        (k < h.size ∧ priorityAt h i > priorityAt h k) then
      siftDown (h.swapIfInBounds (lowerChild h i) i) (lowerChild h i)
    else h
  else h
termination_by h.size - i
decreasing_by
  simp only [Array.size_swapIfInBounds]
  omega

/-- Adds an item at the end and sifts it up. -/
def push (h : Array HeapItem) (x : HeapItem) : Array HeapItem := siftUp (h.push x) h.size

/-- Removes the root: the last item takes its place and sifts down. -/
def removeRoot (h : Array HeapItem) : Array HeapItem :=
  match h.back? with
  | none => h
  | some last => siftDown (h.pop.setIfInBounds 0 last) 0

/-- The kept items taken from the root one by one, answered in reverse order of removal. -/
def drain (h : Array HeapItem) : Nat → List HeapItem → List HeapItem
  | 0, out => out
  | fuel + 1, out =>
    match h[0]? with
    | none => out
    | some top => drain (removeRoot h) fuel (top :: out)

/-- One step of the scan keeping the `k` nearest, with the heap and the bound an item must be
strictly nearer than: the item enters, the root leaving first when the heap is full, and once
the heap is full the bound is the distance of its root. -/
def scanStep (k : Nat) (state : Array HeapItem × Float) (item : Float × Nat) :
    Array HeapItem × Float :=
  let (h, bound) := state
  let (d, i) := item
  if d < bound then
    let h := if h.size = k then removeRoot h else h
    let h := push h (-d, i)
    (h, if h.size = k then -(h.getD 0 (0.0, 0)).1 else bound)
  else state

/-- The `k` nearest of the squared distances, by the bounded heap: pairs of a squared distance
and a position, nearest first. -/
def scan (squared : List Float) (k : Nat) : List (Float × Nat) :=
  if k = 0 then [] else
  let (h, _) := squared.zipIdx.foldl (scanStep k) (#[], (1.0 : Float) / 0.0)
  (drain h h.size []).map fun (p, i) => (-p, i)

end Nearest

end Exploration
