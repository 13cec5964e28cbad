import Exploration.Geometry.Vec3
import Exploration.Number.Binary

/-!
# Cells of a voxel grid

A voxel grid cuts a box of space into cubes of one edge length, `nx × ny × nz` of them, the
corner of cell `(0, 0, 0)` at the grid's origin. `GridFrame` is that placement; it turns
points into cells (`cellOf?`, the cell whose half-open cube holds the point), cells into their
centres, boxes into index ranges (`box`: the cells whose centres lie in the box), and cells
into positions of a flat array in row-major order (`flat`). The index ranges are read off the
corners by whole-number rounding, written once for any kind of number (`Rounding.box`) and run on
doubles (`Float.rounding`).

What is known of a cell is a `CellState`: never seen, seen free, or seen occupied.
-/

namespace Exploration

/-- What is known of a cell. -/
inductive CellState where
  | unknown
  | free
  | occupied
  deriving DecidableEq, Inhabited, Repr

namespace CellState

/-- The code of a state in a grid's byte array. -/
def code : CellState → UInt8
  | unknown => 0
  | free => 1
  | occupied => 2

/-- The state of a code; codes above two do not occur in a grid. -/
def ofCode (b : UInt8) : CellState :=
  if b == 1 then free else if b == 2 then occupied else unknown

/-- The name of a state. -/
def name : CellState → String
  | unknown => "UNKNOWN"
  | free => "FREE"
  | occupied => "OCCUPIED"

/-- The state of a name. -/
def ofName? : String → Option CellState
  | "UNKNOWN" => some unknown
  | "FREE" => some free
  | "OCCUPIED" => some occupied
  | _ => none

/-- The state of a number, `0`, `1` or `2`. -/
def ofNumber? (n : Int) : Option CellState :=
  if n == 0 then some unknown else if n == 1 then some free else if n == 2 then some occupied
  else none

theorem ofCode_code (s : CellState) : ofCode s.code = s := by
  cases s <;> rfl

theorem ofName?_name (s : CellState) : ofName? s.name = some s := by
  cases s <;> rfl

end CellState

/-- The integer a double holds when it is stored in a signed 64-bit word: the value cut toward
zero, and the least word `-2 ^ 63` for a NaN, an infinity or a value out of the word's range. -/
def Float.toWord (x : Float) : Int :=
  match Binary.ofFloat? x with
  | none => -Int.pow 2 63
  | some b =>
    let n := if b.exp ≥ 0 then b.mant * Int.pow 2 b.exp.toNat else b.mant.tdiv (Int.pow 2 (-b.exp).toNat)
    if -Int.pow 2 63 ≤ n ∧ n < Int.pow 2 63 then n else -Int.pow 2 63

/-- A cell of a grid, by its three indices. -/
structure Cell where
  i : Nat
  j : Nat
  k : Nat
  deriving DecidableEq, Inhabited, Repr, Ord

namespace Cell

/-- The three indices. -/
def toList (c : Cell) : List Nat := [c.i, c.j, c.k]

/-- Lexicographic order on the indices. -/
def lt (a b : Cell) : Bool := compare a b == .lt

end Cell

/-- The placement of a grid: the corner of cell `(0, 0, 0)`, the edge of a cell and the number
of cells along each axis. -/
structure GridFrame where
  origin : Vec3
  size : Float
  nx : Nat
  ny : Nat
  nz : Nat
  deriving Inhabited, Repr

namespace GridFrame

/-- The number of cells. -/
def count (g : GridFrame) : Nat := g.nx * g.ny * g.nz

/-- The number of cells along an axis. -/
def extent (g : GridFrame) : Nat → Nat
  | 0 => g.nx
  | 1 => g.ny
  | _ => g.nz

/-- The position of a cell in a flat array of the grid, the last index running fastest. -/
def flat (g : GridFrame) (c : Cell) : Nat := (c.i * g.ny + c.j) * g.nz + c.k

/-- The far corner of the grid. -/
def farCorner (g : GridFrame) : Vec3 :=
  ⟨g.origin.x + g.nx.toFloat * g.size, g.origin.y + g.ny.toFloat * g.size,
   g.origin.z + g.nz.toFloat * g.size⟩

/-- The index of the slab of cells holding a coordinate, as a word (see `Float.toWord`). -/
def slab (g : GridFrame) (x o : Float) : Int := Float.toWord (Binary.floor ((x - o) / g.size))

/-- The three slab indices of a point. -/
def slabs (g : GridFrame) (p : Vec3) : Int × Int × Int :=
  (g.slab p.x g.origin.x, g.slab p.y g.origin.y, g.slab p.z g.origin.z)

/-- An index on an axis of `n` cells, if it lies on the grid. -/
def onAxis (v : Int) (n : Nat) : Option Nat :=
  if 0 ≤ v ∧ v < n then some v.toNat else none

/-- The cell whose cube holds a point, if the point is on the grid. -/
def cellOf? (g : GridFrame) (p : Vec3) : Option Cell :=
  let (a, b, c) := g.slabs p
  match onAxis a g.nx, onAxis b g.ny, onAxis c g.nz with
  | some i, some j, some k => some ⟨i, j, k⟩
  | _, _, _ => none

/-- The centre of a cell given by three integers. -/
def centreOf (g : GridFrame) (i j k : Int) : Vec3 :=
  let at_ := fun (o : Float) (n : Int) => o + (Float.ofInt n + 0.5) * g.size
  ⟨at_ g.origin.x i, at_ g.origin.y j, at_ g.origin.z k⟩

/-- The centre of a cell. -/
def centre (g : GridFrame) (c : Cell) : Vec3 := g.centreOf c.i c.j c.k

/-- An end of a slice of a sequence of `n` items: a negative end counts from the back, and the
end is then kept within `[0, n]`. -/
def sliceEnd (v : Int) (n : Nat) : Nat :=
  if v < 0 then (n + v).toNat else min v.toNat n

end GridFrame

/-- What a grid needs of a kind of number to read the cells of a box off its corners: the half
and the one, the whole numbers below and above a number, the numbers of cells, and the integer a
whole number is stored as. Doubles provide it by `Float.rounding`. -/
structure Rounding (K : Type) where
  half : K
  one : K
  floor : K → K
  ceil : K → K
  ofNat : Nat → K
  toWord : K → Int

/-- Doubles round by `Binary.floor` and `Binary.ceil` and store a whole number as a word
(`Float.toWord`, under which a NaN is the least word). -/
def Float.rounding : Rounding Float := ⟨0.5, 1.0, Binary.floor, Binary.ceil, Nat.toFloat, Float.toWord⟩

namespace Rounding

variable {K : Type} [Sub K] [Div K] [Add K] [LE K] [DecidableLE K] (r : Rounding K)

/-- A bound clamped to `[0, n]` and stored as a word. A bound that compares with neither end,
a NaN, is stored as it is. -/
def clamp (x : K) (n : Nat) : Int :=
  if x ≤ r.ofNat 0 then 0
  else if r.ofNat n ≤ x then n
  else r.toWord x

/-- The cells of an axis of `n` cells from `o`, each of edge `size`, whose centres lie in
`[lo, hi]`, as a half-open range `[start, stop)`: from the first centre at or above `lo` to the
last at or below `hi`, cut to the grid. A stop below the start is raised to it. -/
def span (size lo hi o : K) (n : Nat) : Nat × Nat :=
  let a := r.clamp (r.ceil ((lo - o) / size - r.half)) n
  let b := r.clamp (r.floor ((hi - o) / size - r.half) + r.one) n
  (GridFrame.sliceEnd a n, GridFrame.sliceEnd (max b a) n)

/-- The box of cells whose centres lie in the box `[lo, hi]`, per axis, for a grid of corner `o`,
edge `size` and `n` cells along the axes. -/
def box (size : K) (o lo hi : K × K × K) (n : Nat × Nat × Nat) :
    (Nat × Nat) × (Nat × Nat) × (Nat × Nat) :=
  (r.span size lo.1 hi.1 o.1 n.1, r.span size lo.2.1 hi.2.1 o.2.1 n.2.1,
   r.span size lo.2.2 hi.2.2 o.2.2 n.2.2)

end Rounding

namespace GridFrame

/-- The box of cells whose centres lie in the box `[lo, hi]`, per axis, in doubles. A NaN bound
is the least word, so a NaN low end starts at the first cell and a NaN high end leaves no
cell. -/
def box (g : GridFrame) (lo hi : Vec3) : (Nat × Nat) × (Nat × Nat) × (Nat × Nat) :=
  Float.rounding.box g.size (g.origin.x, g.origin.y, g.origin.z) (lo.x, lo.y, lo.z)
    (hi.x, hi.y, hi.z) (g.nx, g.ny, g.nz)

/-- The number of cells of a box. -/
def boxCount (b : (Nat × Nat) × (Nat × Nat) × (Nat × Nat)) : Nat :=
  (b.1.2 - b.1.1) * (b.2.1.2 - b.2.1.1) * (b.2.2.2 - b.2.2.1)

/-- The cells of a box of index ranges, in row-major order (the last index running fastest). -/
def boxCells (b : (Nat × Nat) × (Nat × Nat) × (Nat × Nat)) : List Cell :=
  (List.range' b.1.1 (b.1.2 - b.1.1)).flatMap fun i =>
    (List.range' b.2.1.1 (b.2.1.2 - b.2.1.1)).flatMap fun j =>
      (List.range' b.2.2.1 (b.2.2.2 - b.2.2.1)).map fun k => ⟨i, j, k⟩

end GridFrame

end Exploration
