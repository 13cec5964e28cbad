import Exploration.Skeleton.Graph
import Exploration.Geometry.Transform
import Exploration.SpatialIndex
import Exploration.Geometry.Point

/-!
# Submaps and their collection

A submap is a frozen region's skeleton graph with its pose, the transform from the region's frame
to the common frame. When the submap is made, the ids of its vertices, their points and their
images in the common frame are fixed (`Submap.make`); the nearest-vertex search works on these.
A vertex point with a non-finite coordinate cannot be searched and makes the submap fail.

The collection (`SubmapCollection`) only grows. When a submap enters it, the box around the
submap's vertices in the common frame, widened by the collection's margin, is stored; a submap
without vertices has the box of its offset (where its transform sends the origin). `idsAt`
answers the submaps whose stored box holds a position, ends included.
-/

namespace Exploration

/-- A vertex of the federation of submaps: a submap id and a vertex id in it, compared and
hashed as ids (`Value.same`). -/
structure VertexRef where
  submap : Value
  vertex : Value
  deriving Inhabited

namespace VertexRef

instance : BEq VertexRef := ⟨fun a b => a.submap.same b.submap && a.vertex.same b.vertex⟩

instance : Hashable VertexRef := ⟨fun v => mixHash v.submap.keyHash v.vertex.keyHash⟩

/-- The goal of a search, which is no real vertex. -/
def goal : VertexRef := ⟨.int (-1), .int (-1)⟩

end VertexRef

/-- A frozen region's skeleton graph with its pose, with coordinates in `K` (doubles unless said
otherwise). -/
structure Submap (K : Type := Float) where
  id : Value
  graph : SkeletonGraph K
  pose : Transform K
  poseInverse : Transform K
  /-- The vertex ids when the submap was made, in the graph's order. -/
  vertexIds : List Value
  /-- Their points in the region's frame. -/
  localPoints : List (Vec3 K)
  /-- Their points in the common frame. -/
  worldPoints : List (Vec3 K)
  deriving Inhabited

/-- The smallest of a first value and a list, a NaN anywhere making it NaN. -/
def Float.leastOf (first : Float) (xs : List Float) : Float :=
  xs.foldl (fun a b => if a.isNaN then a else if b.isNaN || b < a then b else a) first

/-- The largest of a first value and a list, a NaN anywhere making it NaN. -/
def Float.greatestOf (first : Float) (xs : List Float) : Float :=
  xs.foldl (fun a b => if a.isNaN then a else if b.isNaN || b > a then b else a) first

/-- The amount a box is widened by on each axis: a number for every axis, or a list of one or
three numbers. A text cannot be subtracted from a coordinate, and `null` or an object is no
amount. -/
def widening (m : Value) : Except Error Vec3 :=
  match m with
  | .str _ => .error .noLoop
  | .null | .dict _ => .error .wrongType
  | .list _ => do
    match ← m.toReals with
    | [a] => .ok ⟨a, a, a⟩
    | [a, b, c] => .ok ⟨a, b, c⟩
    | _ => .error .badValue
  | v => do
    let x ← v.toReal
    .ok ⟨x, x, x⟩

namespace Submap

section Frames

variable {K : Type} [Add K] [Mul K] [OfNat K 0] [MulAdd K]

/-- Makes a submap of a graph and a pose (the identity when none is given). -/
def make [Neg K] [OfNat K 1] [Finiteness K] (id : Value) (g : SkeletonGraph K)
    (pose : Option (Transform K) := none) : Except Error (Submap K) :=
  let pose := pose.getD Transform.identity
  let locals := g.vertices.map (·.point)
  if !(locals.all Vec3.isFinite) then .error .badValue
  else .ok {
    id, graph := g, pose, poseInverse := pose.inverse,
    vertexIds := g.vertexIds, localPoints := locals,
    worldPoints := pose.applyAll locals }

/-- A point of the common frame in the region's frame. -/
def toLocal (s : Submap K) (p : Vec3 K) : Vec3 K := s.poseInverse.apply p

/-- A point of the region's frame in the common frame. -/
def toWorld (s : Submap K) (p : Vec3 K) : Vec3 K := s.pose.apply p

/-- The common-frame point of a vertex of the graph. -/
def vertexWorld (s : Submap K) (v : Value) : Except Error (Vec3 K) := do
  let x ← s.graph.vertex v
  .ok (s.pose.apply x.point)

/-- The vertex ids with their common-frame points, as fixed when the submap was made. -/
def worldVertices (s : Submap K) : List (Value × Vec3 K) := s.vertexIds.zip s.worldPoints

end Frames

/-- The ids of the `n` vertices nearest to a point of the region's frame, nearest first, from
the points fixed when the submap was made. A submap without vertices and a count at most zero
answer nothing before the point is read; the count is cut to the number of vertices, and a
fractional count is rounded up (`SpatialIndex.searchCount`). -/
def closest (s : Submap) (point : Except Error Vec3) (n : Value) : Except Error (List Value) := do
  if s.vertexIds.isEmpty then return []
  if ← n.atMost (.int 0) then return []
  let size := s.vertexIds.length
  let k : Value := if ← Value.lessThan (.int size) n then .int size else n
  let p ← point
  let count ← SpatialIndex.searchCount k
  if !p.isFinite then throw .badValue
  let found := Nearest.scan (s.localPoints.map fun q => Nearest.blockDistance q.toList p.toList) count
  found.mapM fun (_, i) => match s.vertexIds[i]? with
    | some v => .ok v
    | none => .error .badIndex

/-- The box around the common-frame vertices widened by `margin` on every side; the box of the
offset when there are no vertices. -/
def bounds (s : Submap) (margin : Value) : Except Error (Vec3 × Vec3) := do
  let m ← widening margin
  let (lo, hi) := match s.worldPoints with
    | [] => (s.pose.trans, s.pose.trans)
    | p :: ps =>
      (Vec3.mk (Float.leastOf p.x (ps.map (·.x))) (Float.leastOf p.y (ps.map (·.y)))
          (Float.leastOf p.z (ps.map (·.z))),
        Vec3.mk (Float.greatestOf p.x (ps.map (·.x))) (Float.greatestOf p.y (ps.map (·.y)))
          (Float.greatestOf p.z (ps.map (·.z))))
  .ok (lo - m, hi + m)

end Submap

/-- A growing collection of submaps, with the box stored for each when it entered. -/
structure SubmapCollection where
  margin : Value := .num 1.0
  submaps : List Submap := []
  boxes : List (Value × Vec3 × Vec3) := []
  deriving Inhabited

namespace SubmapCollection

/-- The submap of an id, when there is one; a list or an object is no id. -/
def get? (c : SubmapCollection) (id : Value) : Except Error (Option Submap) := do
  let id ← id.toKey
  .ok (c.submaps.find? (·.id.same id))

/-- Whether a submap of this id is in the collection. -/
def contains (c : SubmapCollection) (id : Value) : Except Error Bool := do
  .ok (← c.get? id).isSome

/-- The submap of an id, or `Error.unknownSubmap`. -/
def find (c : SubmapCollection) (id : Value) : Except Error Submap := do
  match ← c.get? id with
  | some s => .ok s
  | none => .error (.unknownSubmap id.describe)

/-- The ids in the order the submaps entered. -/
def ids (c : SubmapCollection) : List Value := c.submaps.map (·.id)

/-- The number of submaps. -/
def size (c : SubmapCollection) : Nat := c.submaps.length

/-- The number of vertices in all graphs. -/
def totalVertices (c : SubmapCollection) : Nat := (c.submaps.map (·.graph.vertexCount)).foldr (· + ·) 0

/-- Adds a submap, then stores its box; a repeated id is `Error.duplicateSubmap`. A box that
cannot be made (a margin that is no amount) fails with the submap already in. -/
def add (c : SubmapCollection) (s : Submap) : SubmapCollection × Option Error :=
  match c.contains s.id with
  | .error e => (c, some e)
  | .ok true => (c, some (.duplicateSubmap s.id.describe))
  | .ok false =>
    let c := { c with submaps := c.submaps ++ [s] }
    match s.bounds c.margin with
    | .ok box => ({ c with boxes := c.boxes ++ [(s.id, box)] }, none)
    | .error e => (c, some e)

/-- The ids of the submaps whose stored box holds the position, ends included. -/
def idsAt (c : SubmapCollection) (p : Vec3) : List Value :=
  (c.boxes.filter fun (_, lo, hi) => lo.le p && p.le hi).map (·.1)

/-- The common-frame point of a vertex of the federation. -/
def vertexWorld (c : SubmapCollection) (v : VertexRef) : Except Error Vec3 := do
  (← c.find v.submap).vertexWorld v.vertex

end SubmapCollection

end Exploration
