import Exploration.Geometry.Vec3

/-!
# Rotations

`Mat3` is a 3 × 3 matrix by rows, `Quat` a quaternion `(x, y, z, w)` with the scalar part last.

* `Quat.toMat` is the rotation matrix of a unit quaternion, entry by entry from the products of
  the components (no renormalisation, so a quaternion whose norm rounds away from one gives
  entries such as `1.0000000000000002`).
* `Quat.ofYaw a` is the turn by `a` about the vertical axis: `(0, 0, sin (a/2), cos (a/2))`.
* `Quat.normalize?` divides by the length, and refuses a zero quaternion.
* Products accumulate each entry by multiply-adds, in an order that depends on how the matrix is
  held (`Mat3.mulVec`, `Mat3.mulVecCols`, `Mat3.mul`); the matrices of transforms may have
  entries of any kind with a multiply-add, the rotations of quaternions have double entries.
* `Mat3.heading` reads the turn about the vertical axis back from a matrix: the matrix is first
  taken to a unit quaternion from its largest diagonal entry or its trace, then the first angle of
  the extrinsic z-y-x decomposition of that quaternion is returned, in `[-π, π]`.
-/

namespace Exploration

/-- A 3 × 3 matrix given by its rows, with entries in `K`; `Mat3` alone has double entries. -/
structure Mat3 (K : Type := Float) where
  r0 : Vec3 K
  r1 : Vec3 K
  r2 : Vec3 K
  deriving Inhabited, Repr

/-- A quaternion with the scalar part last. -/
structure Quat where
  x : Float
  y : Float
  z : Float
  w : Float
  deriving Inhabited, Repr

namespace Mat3

section Entries

variable {K : Type}

/-- The identity matrix. -/
def identity [OfNat K 0] [OfNat K 1] : Mat3 K := ⟨⟨1, 0, 0⟩, ⟨0, 1, 0⟩, ⟨0, 0, 1⟩⟩

/-- The row of an index (`0`, `1`, `2`). -/
def row (m : Mat3 K) : Nat → Vec3 K
  | 0 => m.r0
  | 1 => m.r1
  | _ => m.r2

/-- The entry in row `i` and column `j`. -/
def entry (m : Mat3 K) (i j : Nat) : K := (m.row i).get j

/-- The column of an index. -/
def col (m : Mat3 K) (j : Nat) : Vec3 K := ⟨m.r0.get j, m.r1.get j, m.r2.get j⟩

/-- The transposed matrix. -/
def transpose (m : Mat3 K) : Mat3 K := ⟨m.col 0, m.col 1, m.col 2⟩

/-- The matrix with every entry negated. -/
def neg [Neg K] (m : Mat3 K) : Mat3 K := ⟨m.r0.neg, m.r1.neg, m.r2.neg⟩

variable [OfNat K 0] [MulAdd K]

/-- Matrix times vector, for a matrix held by rows (`Vec3.rowDot`). -/
def mulVec [Add K] [Mul K] (m : Mat3 K) (v : Vec3 K) : Vec3 K :=
  ⟨m.r0.rowDot v, m.r1.rowDot v, m.r2.rowDot v⟩

/-- Matrix times vector, for a matrix held by columns (`Vec3.dot`). -/
def mulVecCols (m : Mat3 K) (v : Vec3 K) : Vec3 K := ⟨m.r0.dot v, m.r1.dot v, m.r2.dot v⟩

/-- Matrix product. -/
def mul (a b : Mat3 K) : Mat3 K :=
  let rowTimes := fun (r : Vec3 K) => Vec3.mk (r.dot (b.col 0)) (r.dot (b.col 1)) (r.dot (b.col 2))
  ⟨rowTimes a.r0, rowTimes a.r1, rowTimes a.r2⟩

end Entries

/-- The rows as lists. -/
def toLists (m : Mat3) : List (List Float) := [m.r0.toList, m.r1.toList, m.r2.toList]

/-- The matrix of nine entries by rows. -/
def ofEntries (e : List Float) : Mat3 :=
  let g := fun (i : Nat) => e.getD i 0.0
  ⟨⟨g 0, g 1, g 2⟩, ⟨g 3, g 4, g 5⟩, ⟨g 6, g 7, g 8⟩⟩

end Mat3

namespace Quat

/-- The turn by `a` about the vertical axis. -/
def ofYaw (a : Float) : Quat := ⟨0.0, 0.0, (a / 2.0).sin, (a / 2.0).cos⟩

/-- The length of a quaternion. -/
def length (q : Quat) : Float := (q.x * q.x + q.y * q.y + q.z * q.z + q.w * q.w).sqrt

/-- The unit quaternion in the direction of `q`; none for a zero quaternion. -/
def normalize? (q : Quat) : Option Quat :=
  let n := q.length
  if n == 0.0 then none else some ⟨q.x / n, q.y / n, q.z / n, q.w / n⟩

/-- The rotation matrix of a unit quaternion. -/
def toMat (q : Quat) : Mat3 :=
  let x2 := q.x * q.x
  let y2 := q.y * q.y
  let z2 := q.z * q.z
  let w2 := q.w * q.w
  let xy := q.x * q.y
  let zw := q.z * q.w
  let xz := q.x * q.z
  let yw := q.y * q.w
  let yz := q.y * q.z
  let xw := q.x * q.w
  ⟨⟨x2 - y2 - z2 + w2, 2.0 * (xy - zw), 2.0 * (xz + yw)⟩,
   ⟨2.0 * (xy + zw), -x2 + y2 - z2 + w2, 2.0 * (yz - xw)⟩,
   ⟨2.0 * (xz - yw), 2.0 * (yz + xw), -x2 - y2 + z2 + w2⟩⟩

/-- The component of an index, the scalar part at `3`. -/
def get (q : Quat) : Nat → Float
  | 0 => q.x
  | 1 => q.y
  | 2 => q.z
  | _ => q.w

/-- `√(a² + b²)`. -/
def hypot (a b : Float) : Float := (a * a + b * b).sqrt

/-- The first angle of the extrinsic z-y-x decomposition, in `[-π, π]`. -/
def heading (q : Quat) : Float :=
  let pi := 3.141592653589793
  let a := q.w - q.y
  let b := q.z - q.x
  let c := q.y + q.w
  let d := -q.x - q.z
  let middle := 2.0 * Float.atan2 (hypot c d) (hypot a b)
  let halfSum := Float.atan2 b a
  let halfDiff := Float.atan2 d c
  let nearZero := middle.abs ≤ 1e-7
  let nearPi := (middle - pi).abs ≤ 1e-7
  let angle :=
    if !nearZero && !nearPi then halfSum - halfDiff
    else if nearZero then 2.0 * halfSum
    else -(2.0 * halfDiff)
  if angle < -pi then angle + 2.0 * pi
  else if angle > pi then angle - 2.0 * pi
  else angle

end Quat

namespace Mat3

/-- A unit quaternion of a rotation matrix, built from its largest diagonal entry or, when the
trace is larger, from the trace (the first of equal candidates wins). -/
def toQuat (m : Mat3) : Quat :=
  let d0 := m.entry 0 0
  let d1 := m.entry 1 1
  let d2 := m.entry 2 2
  let tr := d0 + d1 + d2
  let choice :=
    if d0 ≥ d1 ∧ d0 ≥ d2 ∧ d0 ≥ tr then 0
    else if d1 ≥ d2 ∧ d1 ≥ tr then 1
    else if d2 ≥ tr then 2
    else 3
  let raw : Quat :=
    if choice = 3 then
      ⟨m.entry 2 1 - m.entry 1 2, m.entry 0 2 - m.entry 2 0, m.entry 1 0 - m.entry 0 1, 1.0 + tr⟩
    else
      let i := choice
      let j := (i + 1) % 3
      let k := (j + 1) % 3
      let qi := 1.0 - tr + 2.0 * m.entry i i
      let qj := m.entry j i + m.entry i j
      let qk := m.entry k i + m.entry i k
      let qw := m.entry k j - m.entry j k
      let comp := fun (n : Nat) => if n = i then qi else if n = j then qj else qk
      ⟨comp 0, comp 1, comp 2, qw⟩
  let n := raw.length
  ⟨raw.x / n, raw.y / n, raw.z / n, raw.w / n⟩

/-- The turn about the vertical axis read back from a matrix. -/
def heading (m : Mat3) : Float := m.toQuat.heading

end Mat3

end Exploration
