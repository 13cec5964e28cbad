import Exploration.Geometry.Orthogonal
import Exploration.Number.Text

/-!
# Rigid transforms and poses

`Transform` is a map `p ↦ R p + t` of space, given by a matrix `R` (a rotation for the
transforms built by `ofYaw` and `ofQuat?`, but any matrix is accepted) and an offset `t`.
It places a submap in the common frame. `compose a b` applies `b` first; `inverse` uses the
transposed matrix, which undoes `a` when `R` is a rotation. The planner's transforms have double
entries; the maps are defined for entries of any kind with a multiply-add, so that their algebra
can be stated in exact arithmetic too.

`Pose` is a position with a heading (a turn about the vertical axis), the waypoint of a
plan; `Pose.distance` is the length of the difference of the two positions (`Vec3.norm`).
-/

namespace Exploration

/-- A map `p ↦ rot p + trans` of space with entries in `K`; `Transform` alone has double
entries. `byColumns` records that the matrix is held as the transpose of a matrix held by rows, as
an inverse's matrix is; it decides the order in which a product with a vector accumulates. -/
structure Transform (K : Type := Float) where
  rot : Mat3 K
  trans : Vec3 K
  byColumns : Bool := false
  deriving Inhabited, Repr

namespace Transform

section Maps

variable {K : Type}

/-- The identity map. -/
def identity [OfNat K 0] [OfNat K 1] : Transform K := ⟨Mat3.identity, Vec3.zero, false⟩

/-- The turn by `yaw` about the vertical axis followed by the shift `t`. -/
def ofYaw (t : Vec3) (yaw : Float) : Transform := ⟨(Quat.ofYaw yaw).toMat, t, false⟩

/-- The rotation of a quaternion (first made of unit length) followed by the shift `t`; none
for a zero quaternion. -/
def ofQuat? (t : Vec3) (q : Quat) : Option Transform :=
  q.normalize?.map fun u => ⟨u.toMat, t, false⟩

variable [Add K] [Mul K] [OfNat K 0] [MulAdd K]

/-- The matrix times a vector, accumulated as the matrix is held. -/
def rotate (T : Transform K) (p : Vec3 K) : Vec3 K :=
  if T.byColumns then T.rot.mulVecCols p else T.rot.mulVec p

/-- The image of a point. -/
def apply (T : Transform K) (p : Vec3 K) : Vec3 K := T.rotate p + T.trans

/-- The images of a batch of points: a batch of one point is a single product, a larger batch
is a matrix product, whose entries accumulate as `Vec3.dot` does. -/
def applyAll (T : Transform K) (ps : List (Vec3 K)) : List (Vec3 K) :=
  match ps with
  | [p] => [T.apply p]
  | _ => ps.map fun p => Vec3.mk (p.dot T.rot.r0) (p.dot T.rot.r1) (p.dot T.rot.r2) + T.trans

/-- The inverse map for a rotation: the transposed matrix, held the other way, and the shift
`-(Rᵀ t)`. -/
def inverse [Neg K] (T : Transform K) : Transform K :=
  let ri : Transform K := ⟨T.rot.transpose, Vec3.zero, !T.byColumns⟩
  { ri with trans := { ri with rot := ri.rot.neg }.rotate T.trans }

/-- `a` after `b`: `p ↦ a (b p)`. The product matrix is held by rows. -/
def compose (a b : Transform K) : Transform K :=
  ⟨a.rot.mul b.rot, a.rotate b.trans + a.trans, false⟩

end Maps

/-- A list of doubles in brackets, each by `Float.toText`. -/
def listText (xs : List Float) : String :=
  "[" ++ ", ".intercalate (xs.map Float.toText) ++ "]"

/-- The text of a transform: its shift and the heading of the rotation nearest to its matrix
(`Mat3.rotationPart`, whose refusal it passes on) with three places. -/
def describe (T : Transform) : Except Error String := do
  let r ← T.rot.rotationPart
  .ok ("Transformation(t=" ++ listText T.trans.toList ++ ", yaw=" ++ Float.toFixed 3 r.heading ++ ")")

end Transform

/-- A position with a heading. -/
structure Pose where
  x : Float := 0.0
  y : Float := 0.0
  z : Float := 0.0
  yaw : Float := 0.0
  deriving Inhabited, Repr

namespace Pose

/-- The pose at a position with a heading. -/
def ofPosition (p : Vec3) (yaw : Float := 0.0) : Pose := ⟨p.x, p.y, p.z, yaw⟩

/-- The position. -/
def position (p : Pose) : Vec3 := ⟨p.x, p.y, p.z⟩

/-- The rotation matrix of the heading. -/
def orientation (p : Pose) : Mat3 := (Quat.ofYaw p.yaw).toMat

/-- The distance between the positions of two poses. -/
def distance (a b : Pose) : Float := (a.position - b.position).norm

/-- The four numbers `x, y, z, yaw`. -/
def toList (p : Pose) : List Float := [p.x, p.y, p.z, p.yaw]

end Pose

end Exploration
