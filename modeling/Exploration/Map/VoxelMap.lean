import Exploration.Map.Distance
import Exploration.Settings
import Exploration.Error
import Exploration.Json.Key

/-!
# The voxel map

`VoxelMap` holds what is known of every cell of a grid, the distance field derived from it, and
the regions frozen so far.

* The distance field gives, for every cell, the length to the nearest occupied cell
  (`GridFrame.obstacleDistance`). It is a cache: every change of the cells drops it, and
  `withField` computes it again; a map whose cache is absent answers from a fresh computation,
  so the cache never changes an answer.
* A cell is traversable for the active region when it is seen and its obstacle distance is above
  the traversability radius, or, when it is unseen, when it lies within the clearing radius of the
  robot (strictly) and a robot position is known.
* A frozen region keeps, for the cells whose centres lie in its box, whether each was seen and
  its obstacle distance at the time of freezing. A cell is traversable in the global map when it
  is on the grid, not occupied now, seen by at least one region holding the point, and farther
  than the traversability radius from obstacles in every region that saw it.
* A segment is traversable when each of its sample points is: `n = ⌊|b - a| / edge⌋ + 1` points
  at `a + (i / n) (b - a)` for `i = 1 … n`.
-/

namespace Exploration

/-- A region of the map kept as it was seen when it was frozen. -/
structure FrozenRegion where
  id : Value
  /-- The box as given. -/
  lower : Vec3
  upper : Vec3
  /-- The first cell of the kept block and the cell past its last, per axis. -/
  start : Nat × Nat × Nat
  stop : Nat × Nat × Nat
  /-- Whether each cell of the block was seen, the last axis running fastest. -/
  observed : Array Bool
  /-- The obstacle distance of each cell of the block. -/
  distance : FloatArray
  deriving Inhabited

namespace FrozenRegion

/-- Whether the box holds the point, ends included. -/
def contains (r : FrozenRegion) (p : Vec3) : Bool := r.lower.le p && p.le r.upper

/-- The position in the block of a grid cell, if the block has it. -/
def local? (r : FrozenRegion) (c : Cell) : Option Nat :=
  let (i0, j0, k0) := r.start
  let (i1, j1, k1) := r.stop
  if i0 ≤ c.i ∧ c.i < i1 ∧ j0 ≤ c.j ∧ c.j < j1 ∧ k0 ≤ c.k ∧ c.k < k1 then
    some (((c.i - i0) * (j1 - j0) + (c.j - j0)) * (k1 - k0) + (c.k - k0))
  else none

/-- The kept obstacle distance at a point of a grid cell, when the region holds the point and
saw the cell. -/
def seenDistance? (r : FrozenRegion) (p : Vec3) (c : Cell) : Option Float :=
  if !r.contains p then none
  else match r.local? c with
    | none => none
    | some n => if r.observed.getD n false then some (r.distance[n]?.getD 0.0) else none

end FrozenRegion

/-- A voxel map: a grid of cell states, the cached distance field, and the frozen regions in the
order they were frozen. -/
structure VoxelMap where
  frame : GridFrame
  cells : ByteArray
  field : Option FloatArray := none
  regions : List FrozenRegion := []
  traversability : Float
  /-- The clearing radius as given; it is compared with a distance only when an unseen cell is
  judged, and a value that cannot be compared fails there. -/
  clearing : Value
  deriving Inhabited

namespace VoxelMap

/-- A map of unknown cells placed and tuned by the map settings. -/
def ofSettings (s : Settings) : Except Error VoxelMap := do
  let size ← s.real "voxel_size"
  let corner ← (← Settings.walk (s.get "origin")).mapM Value.toReal
  let dims ← (← Settings.walk (s.get "dimensions")).mapM Value.toInteger
  let traversability ← s.real "traversability_radius"
  let clearing := s.get "clearing_radius"
  match corner, dims with
  | [x, y, z], [a, b, c] =>
    let frame : GridFrame := ⟨⟨x, y, z⟩, size, a.toNat, b.toNat, c.toNat⟩
    .ok { frame, cells := ⟨Array.replicate frame.count 0⟩, traversability, clearing }
  | _, _ => .error .notThreeAxes

/-- The state of a cell. -/
def state (m : VoxelMap) (c : Cell) : CellState :=
  CellState.ofCode (m.cells[m.frame.flat c]?.getD 0)

/-- The state of the cell holding a point; unknown off the grid. -/
def stateAt (m : VoxelMap) (p : Vec3) : CellState :=
  match m.frame.cellOf? p with
  | some c => m.state c
  | none => .unknown

/-- Every cell set to one state. -/
def fill (m : VoxelMap) (s : CellState) : VoxelMap :=
  { m with cells := ⟨Array.replicate m.frame.count s.code⟩, field := none }

/-- The cells of a box of index ranges set to a state, with their number. -/
def setCells (m : VoxelMap) (b : (Nat × Nat) × (Nat × Nat) × (Nat × Nat)) (s : CellState) :
    VoxelMap × Nat :=
  let cells := (GridFrame.boxCells b).foldl (fun cs c => cs.set! (m.frame.flat c) s.code) m.cells
  ({ m with cells, field := none }, GridFrame.boxCount b)

/-- The cells whose centres lie in the box `[lo, hi]` set to a state, with their number. -/
def setBox (m : VoxelMap) (lo hi : Vec3) (s : CellState) : VoxelMap × Nat :=
  m.setCells (m.frame.box lo hi) s

/-- The distance field of the current cells. -/
def computeField (m : VoxelMap) : FloatArray :=
  m.frame.obstacleDistance fun n => m.cells[n]?.getD 0 == CellState.occupied.code

/-- The distance field, from the cache when it is there. -/
def distances (m : VoxelMap) : FloatArray := m.field.getD m.computeField

/-- The map with its distance field cached. -/
def withField (m : VoxelMap) : VoxelMap :=
  match m.field with
  | some _ => m
  | none => { m with field := some m.computeField }

/-- The obstacle distance of a seen cell holding a point; none off the grid or for an unseen
cell. -/
def distanceAt? (m : VoxelMap) (p : Vec3) : Option Float :=
  match m.frame.cellOf? p with
  | none => none
  | some c =>
    if m.state c == .unknown then none
    else some (m.distances[m.frame.flat c]?.getD 0.0)

/-- Whether a point is traversable in the active region, the robot at `robot` if its position is
known. -/
def traversableActive (m : VoxelMap) (robot : Option Vec3) (p : Vec3) : Except Error Bool :=
  match m.frame.cellOf? p with
  | none => .ok false
  | some _ =>
    match m.distanceAt? p with
    | some d => .ok (d > m.traversability)
    | none =>
      match robot with
      | none => .ok false
      | some r => Value.lessThan (.num (p - r).norm) m.clearing

/-- Whether a point is traversable in the union of the frozen regions, occupied cells of the
current map blocking it. -/
def traversableGlobal (m : VoxelMap) (p : Vec3) : Bool :=
  match m.frame.cellOf? p with
  | none => false
  | some c =>
    if m.state c == .occupied then false
    else
      let seen := m.regions.filterMap fun r => r.seenDistance? p c
      !seen.isEmpty && seen.all fun d => !(d ≤ m.traversability)

/-- The number of sample points of the segment from `a` to `b`: one more than the whole number
of cell edges in its length. A NaN length has none and an infinite one is too large. -/
def sampleCount (m : VoxelMap) (a b : Vec3) : Except Error Nat := do
  let n ← Value.truncate (Binary.floor ((b - a).norm / m.frame.size))
  .ok (n + 1).toNat

/-- The `i`-th of `n` sample points of the segment from `a` to `b`. -/
def samplePoint (a b : Vec3) (n i : Nat) : Vec3 :=
  let t := i.toFloat / n.toFloat
  let d := b - a
  ⟨a.x + t * d.x, a.y + t * d.y, a.z + t * d.z⟩

/-- Whether every sample point of a segment passes a test of points, tried from the first
sample on and stopping at the first that fails. -/
def segmentClear (m : VoxelMap) (ok : Vec3 → Except Error Bool) (a b : Vec3) : Except Error Bool := do
  let n ← m.sampleCount a b
  (List.range' 1 n).allM fun i => ok (samplePoint a b n i)

/-- Whether a segment is traversable in the active region. -/
def segmentActive (m : VoxelMap) (robot : Option Vec3) (a b : Vec3) : Except Error Bool :=
  m.segmentClear (m.traversableActive robot) a b

/-- Whether a segment is traversable in the global map. -/
def segmentGlobal (m : VoxelMap) (a b : Vec3) : Except Error Bool :=
  m.segmentClear (fun p => .ok (m.traversableGlobal p)) a b

/-- The ids of the frozen regions whose boxes hold a point. -/
def regionIdsAt (m : VoxelMap) (p : Vec3) : List Value :=
  (m.regions.filter (·.contains p)).map (·.id)

/-- The ids of the frozen regions, in the order they were frozen. -/
def frozenIds (m : VoxelMap) : List Value := m.regions.map (·.id)

/-- Whether a region is frozen under an id equal to this one; a list or an object is no id. -/
def isFrozen (m : VoxelMap) (id : Value) : Except Error Bool := do
  let id ← id.toKey
  .ok (m.regions.any (·.id.same id))

/-- The cells whose centres lie in the box `[lo, hi]` as they are now, kept as a region under an
id: whether each was seen and its obstacle distance, in row-major order. -/
def snapshot (m : VoxelMap) (id : Value) (lo hi : Vec3) : FrozenRegion :=
  let b := m.frame.box lo hi
  let block := GridFrame.boxCells b
  { id, lower := lo, upper := hi, start := (b.1.1, b.2.1.1, b.2.2.1),
    stop := (b.1.2, b.2.1.2, b.2.2.2),
    observed := (block.map fun c => m.cells[m.frame.flat c]?.getD 0 != CellState.unknown.code).toArray,
    distance := ⟨(block.map fun c => m.distances[m.frame.flat c]?.getD 0.0).toArray⟩ }

/-- Freezes the cells whose centres lie in the box `[lo, hi]` under an id (`snapshot`); an id
already frozen is refused. The map comes back with its distance field cached. -/
def freeze (m : VoxelMap) (id : Value) (lo hi : Vec3) : Except Error VoxelMap := do
  let id ← id.toKey
  if m.regions.any (·.id.same id) then .error (.regionFrozen id.describe)
  else
    let m := m.withField
    .ok { m with regions := m.regions ++ [m.snapshot id lo hi] }

end VoxelMap

end Exploration
