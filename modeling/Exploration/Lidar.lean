import Exploration.Map.VoxelMap
import Exploration.Geometry.Transform

/-!
# The range sensor

A lidar casts rays from the robot. Its rays in the body frame are a grid of directions: the
azimuths spread evenly over the horizontal field of view, centred on the heading (the whole turn
without its end point when the field is 360° or more), and the elevations spread evenly over the
vertical field centred on the horizontal (a single elevation is the horizontal itself). Azimuth
runs slowest; then every `k`-th direction is kept, `k` the thinning factor rounded to a whole
number and at least one.

Along a ray, sample points lie at multiples of the ray step (the cell edge when the step is not
positive) up to the ray length. Both settings are kept as given and read only when rays are cast,
so a step that cannot be compared with zero fails there and not when the lidar is made. A ray stops at its first sample off the grid or in an occupied
cell; the unseen cells met before are visible. The gain of a pose is the number of distinct
visible cells.
-/

namespace Exploration

/-- Degrees to radians, by the double nearest to `π / 180`. -/
def Float.radians (x : Float) : Float := x * (3.141592653589793 / 180.0)

/-- `n` evenly spaced values from `a` to `b`: `a + i · (b - a) / (n - 1)`, the last value
exactly `b`; without the end point, `n` values from `a` in steps of `(b - a) / n`. A single
value with the end point is `a`. -/
def Float.evenlySpaced (a b : Float) (n : Nat) (withEnd : Bool := true) : List Float :=
  let div := if withEnd then n - 1 else n
  let delta := b - a
  let ys := (List.range n).map fun i =>
    if div = 0 then i.toFloat * delta + a
    else
      let step := delta / div.toFloat
      if step == 0.0 then i.toFloat / div.toFloat * delta + a else i.toFloat * step + a
  if withEnd && n > 1 then ys.dropLast ++ [b] else ys

/-- The values `a, a + d, a + 2d′, …` below `b`, where `d′` is `(a + d) - a`: as many as
`⌈(b - a) / d⌉`, none when that is not positive. A count that is NaN cannot be computed
(`Error.badValue`) and one beyond `2 ^ 63` in size overflows. -/
def Float.steps (a b d : Float) : Except Error (List Float) :=
  let len := Binary.ceil ((b - a) / d)
  if len.isNaN then .error .badValue
  else if !(len ≤ 9223372036854775807.0 ∧ -9223372036854775808.0 ≤ len) then .error .overflow
  else if !(len > 0.0) then .ok []
  else
    let n := (Float.toWord len).toNat
    let second := a + d
    let delta := second - a
    .ok ((List.range n).map fun i =>
      if i = 0 then a else if i = 1 then second else a + i.toFloat * delta)

/-- Rounds to the nearest whole number, a half going to the even neighbour. -/
def Float.roundEven (x : Float) : Float :=
  let f := Binary.floor x
  let d := x - f
  if d < 0.5 then f
  else if d > 0.5 then f + 1.0
  else if Binary.floor (f / 2.0) * 2.0 == f then f else f + 1.0

/-- A ray-casting range sensor. -/
structure Lidar where
  rayLength : Value
  rayStep : Value
  /-- The ray directions in the body frame. -/
  rays : List Vec3
  deriving Inhabited

namespace Lidar

/-- A count setting: an integer (a truth value counts as one or zero); any other value is the
wrong kind. -/
def count (v : Value) : Except Error Nat :=
  match v with
  | .int n => .ok n.toNat
  | .bool b => .ok (if b then 1 else 0)
  | _ => .error .wrongType

/-- The ray directions in the body frame for the lidar settings. -/
def bodyRays (s : Settings) : Except Error (List Vec3) := do
  let hFov ← Value.toNumber (s.get "horizontal_fov")
  let vFov ← Value.toNumber (s.get "vertical_fov")
  let h ← count (s.get "horizontal_resolution")
  let v ← count (s.get "vertical_resolution")
  let thin ← Value.toNumber (s.get "downsampling_factor")
  let hRad := Float.radians hFov
  let vRad := Float.radians vFov
  let pi := 3.141592653589793
  let azimuths := if hFov ≥ 360.0 then Float.evenlySpaced (-pi) pi h false
    else Float.evenlySpaced (-hRad / 2.0) (hRad / 2.0) h
  let elevations := if v == 1 then [0.0] else Float.evenlySpaced (-vRad / 2.0) (vRad / 2.0) v
  let all := azimuths.flatMap fun az => elevations.map fun el =>
    (⟨el.cos * az.cos, el.cos * az.sin, el.sin⟩ : Vec3)
  let k := max 1 (← Value.truncate (Float.roundEven thin)).toNat
  .ok (all.zipIdx.filterMap fun (d, i) => if i % k == 0 then some d else none)

/-- A lidar from its settings. -/
def ofSettings (s : Settings) : Except Error Lidar := do
  let rays ← bodyRays s
  .ok { rayLength := s.get "ray_length", rayStep := s.get "ray_step", rays }

/-- The ray directions in the common frame for a pose: each body direction turned by the
heading. Several directions are turned together as one matrix product, entries accumulated as
`Vec3.dot`; a single direction is turned as a matrix times a vector (`Mat3.mulVec`), whose
entries accumulate in another order and may differ in the last place. -/
def directions (l : Lidar) (p : Pose) : List Vec3 :=
  let m := p.orientation
  match l.rays with
  | [d] => [m.mulVec d]
  | rays => rays.map fun d => ⟨d.dot m.r0, d.dot m.r1, d.dot m.r2⟩

/-- The distances of the sample points along a ray. -/
def ranges (l : Lidar) (m : VoxelMap) : Except Error (List Float) := do
  let step ← if ← Value.lessThan (.int 0) l.rayStep then l.rayStep.toReal else pure m.frame.size
  let length ← l.rayLength.toReal
  Float.steps step (length + 1e-9) step

/-- The unseen cells a ray from `o` in direction `d` meets before it is blocked. -/
def rayCells (m : VoxelMap) (o d : Vec3) (rs : List Float) : List Cell :=
  let rec walk : List Float → List Cell
    | [] => []
    | r :: rest =>
      let p : Vec3 := ⟨o.x + r * d.x, o.y + r * d.y, o.z + r * d.z⟩
      match m.frame.cellOf? p with
      | none => []
      | some c =>
        match m.state c with
        | .occupied => []
        | .unknown => c :: walk rest
        | .free => walk rest
  walk rs

/-- Removes repeated neighbours from a sorted list. -/
def dedup : List Cell → List Cell
  | a :: b :: rest => if a == b then dedup (b :: rest) else a :: dedup (b :: rest)
  | xs => xs

/-- The distinct unseen cells visible from a pose, in increasing order. -/
def visible (l : Lidar) (m : VoxelMap) (p : Pose) : Except Error (List Cell) := do
  let rs ← l.ranges m
  let cells := (l.directions p).flatMap fun d => rayCells m p.position d rs
  .ok (dedup (cells.mergeSort fun a b => compare a b != .gt))

/-- The number of distinct unseen cells visible from a pose. -/
def gain (l : Lidar) (m : VoxelMap) (p : Pose) : Except Error Float := do
  .ok (← l.visible m p).length.toFloat

end Lidar

end Exploration
