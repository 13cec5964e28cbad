import Exploration.Geometry.Rotation
import Exploration.Error

/-!
# The rotation nearest to a matrix

A transform may be given any matrix, and its heading is read from the rotation nearest to it.
`Mat3.rotationPart` decides that rotation:

* a matrix whose determinant is not positive (a reflection, or a singular matrix) has no nearest
  rotation and is refused as a bad value;
* a matrix with a NaN entry is refused as a decomposition that does not converge;
* a matrix that is orthogonal within a tight tolerance (`Mat3.isOrthogonal`) is taken as it is;
* a matrix with an infinite entry loses all finite information: its nearest rotation is the
  identity when the infinite entries lie on the diagonal, and undefined (all NaN) otherwise;
* any other matrix is replaced by the orthogonal factor of its polar decomposition `M = U P`,
  computed by the scaled Newton iteration `X ↦ (γ X + X⁻ᵀ / γ) / 2`, which converges
  quadratically to `U` for every nonsingular matrix.

The determinant is the one of Gaussian elimination with partial pivoting (`Mat3.determinant`):
its sign is the parity of the row swaps and of the negative pivots, and its size is the
exponential of the sum of the pivots' logarithms; a column with no nonzero candidate makes it
zero.
-/

namespace Exploration

namespace Mat3

/-- The entries by rows. -/
def entries (m : Mat3) : List Float := m.r0.toList ++ m.r1.toList ++ m.r2.toList

/-- The matrix with `f` applied to every entry. -/
def map (f : Float → Float) (m : Mat3) : Mat3 :=
  let row := fun (v : Vec3) => Vec3.mk (f v.x) (f v.y) (f v.z)
  ⟨row m.r0, row m.r1, row m.r2⟩

/-- Entrywise sum. -/
def add (a b : Mat3) : Mat3 := ⟨a.r0 + b.r0, a.r1 + b.r1, a.r2 + b.r2⟩

/-- Entrywise difference. -/
def sub (a b : Mat3) : Mat3 := ⟨a.r0 - b.r0, a.r1 - b.r1, a.r2 - b.r2⟩

/-- The Frobenius norm: the root of the sum of the squared entries. -/
def frobenius (m : Mat3) : Float := (m.entries.foldl (fun acc v => acc + v * v) 0.0).sqrt

/-- The inverse transpose by cofactors: each entry is its cofactor over the determinant expanded
along the first row. -/
def inverseTranspose (m : Mat3) : Mat3 :=
  let a := m.r0.x
  let b := m.r0.y
  let c := m.r0.z
  let d := m.r1.x
  let e := m.r1.y
  let f := m.r1.z
  let g := m.r2.x
  let h := m.r2.y
  let i := m.r2.z
  let c0 : Vec3 := ⟨e * i - f * h, f * g - d * i, d * h - e * g⟩
  let c1 : Vec3 := ⟨c * h - b * i, a * i - c * g, b * g - a * h⟩
  let c2 : Vec3 := ⟨b * f - c * e, c * d - a * f, a * e - b * d⟩
  let det := a * c0.x + b * c0.y + c * c0.z
  ⟨c0.divBy det, c1.divBy det, c2.divBy det⟩

end Mat3

/-- The position of the first entry of greatest absolute value; a later entry replaces the one
held only when it is strictly greater, so a NaN is never chosen after the first place. -/
def firstLargest (xs : List Float) : Nat :=
  (xs.zipIdx.foldl (fun (best : Nat × Float) (p : Float × Nat) =>
    if p.1.abs > best.2 then (p.2, p.1.abs) else best) (0, (xs.headD 0.0).abs)).1

/-- The pivots of Gaussian elimination with partial pivoting on a square matrix given by rows,
with the number of row swaps; none when a column has no nonzero candidate left. The pivot row
trades places with the first row, the multipliers are the first column times the reciprocal of
the pivot, and each other row loses its multiplier times the pivot row. -/
def eliminationPivots : List (List Float) → Option (List Float × Nat)
  | [] => some ([], 0)
  | r :: rs =>
    let k := firstLargest ((r :: rs).map (·.headD 0.0))
    let p := (r :: rs).getD k []
    let a := p.headD 0.0
    if a == 0.0 then none
    else
      let others := if k = 0 then rs else rs.set (k - 1) r
      let inv := 1.0 / a
      let reduced := others.map fun q =>
        let l := q.headD 0.0 * inv
        List.zipWith (fun x y => x - l * y) q.tail p.tail
      match eliminationPivots reduced with
      | none => none
      | some (us, swaps) => some (a :: us, swaps + if k = 0 then 0 else 1)
termination_by rows => rows.length
decreasing_by
  simp only [List.length_map, List.length_cons]
  split <;> simp

namespace Mat3

/-- The determinant from the pivots of elimination: the sign of the swaps and negative pivots
times the exponential of the sum of the pivots' logarithms, and zero for a singular elimination. -/
def determinant (m : Mat3) : Float :=
  match eliminationPivots m.toLists with
  | none => 0.0
  | some (us, swaps) =>
    let sign0 : Float := if swaps % 2 = 0 then 1.0 else -1.0
    let sign := us.foldl (fun s u => if u < 0.0 then -s else s) sign0
    sign * (us.foldl (fun acc u => acc + Float.log u.abs) 0.0).exp

/-- Whether `M Mᵀ` is the identity within `1e-12` off the diagonal and `1e-12 + 1e-5` on it. -/
def isOrthogonal (m : Mat3) : Bool :=
  let close := fun (v : Float) (target : Float) => (v - target).abs ≤ 1e-12 + 1e-5 * target.abs
  let dot := fun (a b : Vec3) => a.x * b.x + a.y * b.y + a.z * b.z
  (List.range 3).all fun i => (List.range 3).all fun j =>
    close (dot (m.row i) (m.row j)) (if i = j then 1.0 else 0.0)

/-- One scaled Newton step towards the orthogonal polar factor. -/
def polarStep (x : Mat3) : Mat3 :=
  let y := x.inverseTranspose
  let g := (y.frobenius / x.frobenius).sqrt
  ((x.map (g * ·)).add (y.map (· / g))).map (· * 0.5)

/-- Newton steps from `x` until a step moves the matrix by at most `1e-12` in the Frobenius norm,
at most `fuel` of them. -/
def polarFrom (x : Mat3) : Nat → Mat3
  | 0 => x
  | fuel + 1 =>
    let next := x.polarStep
    if (next.sub x).frobenius ≤ 1e-12 then next else polarFrom next fuel

/-- The orthogonal factor of the polar decomposition of a nonsingular matrix, from the matrix
scaled to entries of at most one in absolute value. -/
def polarFactor (m : Mat3) : Mat3 :=
  let s := m.entries.foldl (fun acc v => max acc v.abs) 0.0
  polarFrom (m.map (· / s)) 100

/-- The matrix of NaN entries. -/
def undefined : Mat3 := identity.map fun _ => 0.0 / 0.0

/-- The rotation nearest to a matrix, as the module doc says. -/
def rotationPart (m : Mat3) : Except Error Mat3 :=
  if m.determinant ≤ 0.0 then .error .badValue
  else if m.entries.any Float.isNaN then .error .noConvergence
  else if m.isOrthogonal then .ok m
  else if m.entries.any Float.isInf then
    let offDiagonal := [m.r0.y, m.r0.z, m.r1.x, m.r1.z, m.r2.x, m.r2.y]
    .ok (if offDiagonal.any Float.isInf then undefined else identity)
  else .ok m.polarFactor

end Mat3

end Exploration
