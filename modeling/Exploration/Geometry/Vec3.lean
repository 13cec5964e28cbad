import Exploration.Number.Binary

/-!
# Vectors in space

`Vec3 K` is a point or a direction in space with coordinates in `K`; the planner's vectors have
double coordinates, and `Vec3` alone is `Vec3 Float`. The arithmetic is coordinate by
coordinate.

Dot products accumulate in multiply-adds (`MulAdd`): doubles round `a * b + c` once, as a fused
multiply-add does, and exact numbers not at all. They accumulate in one of two orders, as the two
ways a matrix may be held do (`Vec3.dot`, `Vec3.rowDot`).

Two sums of squares of doubles appear in this library and they round differently:

* `Vec3.norm` accumulates the three squares by fused multiply-adds (`Vec3.dot`), the way a
  vector's length is taken;
* `Vec3.dist` adds three rounded squares from left to right, the way distances between stored
  points are taken.
-/

namespace Exploration

/-- The multiply-add `a * b + c` in which dot products accumulate. -/
class MulAdd (K : Type) where
  mulAdd : K → K → K → K

/-- Doubles round a multiply-add once. -/
instance : MulAdd Float := ⟨Float.fusedMulAdd⟩

/-- Whether a coordinate is a finite number; a double may be infinite or NaN. -/
class Finiteness (K : Type) where
  isFinite : K → Bool

instance : Finiteness Float := ⟨Float.isFinite⟩

/-- A vector in space with coordinates in `K`. -/
structure Vec3 (K : Type := Float) where
  x : K
  y : K
  z : K
  deriving Inhabited, Repr

namespace Vec3

section Coordinates

variable {K : Type}

/-- The zero vector. -/
def zero [OfNat K 0] : Vec3 K := ⟨0, 0, 0⟩

/-- Coordinate-wise sum. -/
def add [Add K] (a b : Vec3 K) : Vec3 K := ⟨a.x + b.x, a.y + b.y, a.z + b.z⟩

/-- Coordinate-wise difference. -/
def sub [Sub K] (a b : Vec3 K) : Vec3 K := ⟨a.x - b.x, a.y - b.y, a.z - b.z⟩

/-- The opposite vector. -/
def neg [Neg K] (a : Vec3 K) : Vec3 K := ⟨-a.x, -a.y, -a.z⟩

instance [Add K] : Add (Vec3 K) := ⟨add⟩
instance [Sub K] : Sub (Vec3 K) := ⟨sub⟩
instance [Neg K] : Neg (Vec3 K) := ⟨neg⟩

/-- The dot product as a chain of multiply-adds from zero,
`fma (a₂, b₂, fma (a₁, b₁, fma (a₀, b₀, 0)))`. Products of a matrix held by columns with a
vector, and products of matrices, accumulate this way; for doubles, starting from `+0.0` makes a
sum of zero products `+0.0`. -/
def dot [OfNat K 0] [MulAdd K] (a b : Vec3 K) : K :=
  MulAdd.mulAdd a.z b.z (MulAdd.mulAdd a.y b.y (MulAdd.mulAdd a.x b.x 0))

/-- The dot product of a row of a matrix held by rows with a vector,
`0 + fma (a₂, b₂, fma (a₀, b₀, a₁ * b₁))`. -/
def rowDot [Add K] [Mul K] [OfNat K 0] [MulAdd K] (a b : Vec3 K) : K :=
  0 + MulAdd.mulAdd a.z b.z (MulAdd.mulAdd a.x b.x (a.y * b.y))

/-- The coordinates as a list. -/
def toList (a : Vec3 K) : List K := [a.x, a.y, a.z]

/-- The coordinate on an axis (`0`, `1`, `2`; any other axis reads as the last). -/
def get (a : Vec3 K) : Nat → K
  | 0 => a.x
  | 1 => a.y
  | _ => a.z

/-- Whether every coordinate is finite. -/
def isFinite [Finiteness K] (a : Vec3 K) : Bool :=
  Finiteness.isFinite a.x && Finiteness.isFinite a.y && Finiteness.isFinite a.z

end Coordinates

/-- Scaling by a double. -/
def scale (s : Float) (a : Vec3) : Vec3 := ⟨s * a.x, s * a.y, s * a.z⟩

/-- Division of every coordinate by a double. -/
def divBy (a : Vec3) (s : Float) : Vec3 := ⟨a.x / s, a.y / s, a.z / s⟩

/-- The length of a vector: the root of its dot product with itself. -/
def norm (a : Vec3) : Float := (dot a a).sqrt

/-- The sum of the rounded squares of the coordinates, from left to right. -/
def sumSquares (a : Vec3) : Float := a.x * a.x + a.y * a.y + a.z * a.z

/-- The distance between two points: the root of the rounded squares of the coordinate
differences added from left to right. -/
def dist (a b : Vec3) : Float := (sumSquares (a - b)).sqrt

/-- Coordinate-wise order `a ≤ b` on every axis. -/
def le (a b : Vec3) : Bool := a.x ≤ b.x && a.y ≤ b.y && a.z ≤ b.z

end Vec3

end Exploration
