import Exploration.Geometry.Vec3
import Exploration.Json.Key

/-!
# Skeleton graphs

A skeleton graph is the sparse topological map of one frozen region, in that region's own frame:
vertices at points, joined by undirected edges. Vertices are kept in the order they were added;
each vertex lists the ids of its edges in the order the edges were added.

Vertex ids are ids of any kind (`Value.same` compares them, see `Json.Key`); edges are numbered
from zero.

* `addVertex` takes an explicit id or the next free one. A repeated id is refused
  (`Error.duplicateVertex`). After the vertex is stored, the next free id becomes the larger of
  itself and the id plus one; an id with no successor (a text) fails there, and the vertex stays.
* `addEdge` joins two vertices given by ids equal to theirs, and keeps the ids as given. Both
  ends must be vertices of the graph (`Error.edgeEndMissing`) and not equal
  (`Error.selfLoop`).
-/

namespace Exploration

/-- A vertex: its id, its point in the region's frame (with coordinates in `K`, doubles unless
said otherwise) and the ids of its edges. -/
structure SkeletonVertex (K : Type := Float) where
  id : Value
  point : Vec3 K
  edges : List Nat := []
  deriving Inhabited

/-- An undirected edge between two vertex ids. -/
structure SkeletonEdge where
  id : Nat
  start : Value
  stop : Value
  deriving Inhabited

namespace SkeletonEdge

/-- The end of the edge other than `v`: the stop when `v` equals the start, else the start. -/
def other (e : SkeletonEdge) (v : Value) : Value := if e.start.same v then e.stop else e.start

end SkeletonEdge

/-- A skeleton graph. -/
structure SkeletonGraph (K : Type := Float) where
  vertices : List (SkeletonVertex K) := []
  edges : List SkeletonEdge := []
  nextVertex : Value := .int 0
  nextEdge : Nat := 0
  deriving Inhabited

namespace SkeletonGraph

variable {K : Type}

/-- Whether the graph has a vertex of an id equal to this one. -/
def hasVertex (g : SkeletonGraph K) (id : Value) : Bool := g.vertices.any (·.id.same id)

/-- Whether the graph has a vertex of this id; a list or an object is no id. -/
def hasVertex? (g : SkeletonGraph K) (id : Value) : Except Error Bool := do
  let id ← id.toKey
  .ok (g.hasVertex id)

/-- The vertex of an id; a missing one is `Error.missingKey`. -/
def vertex (g : SkeletonGraph K) (id : Value) : Except Error (SkeletonVertex K) := do
  let id ← id.toKey
  match g.vertices.find? (·.id.same id) with
  | some v => .ok v
  | none => .error .missingKey

/-- The vertex of an id, when there is one. -/
def vertex? (g : SkeletonGraph K) (id : Value) : Option (SkeletonVertex K) :=
  g.vertices.find? (·.id.same id)

/-- The edge of an id; a missing one is `Error.missingKey`. -/
def edge (g : SkeletonGraph K) (id : Value) : Except Error SkeletonEdge := do
  let id ← id.toKey
  match g.edges.find? fun e => (Value.int e.id).same id with
  | some e => .ok e
  | none => .error .missingKey

/-- The number of vertices. -/
def vertexCount (g : SkeletonGraph K) : Nat := g.vertices.length

/-- The number of edges. -/
def edgeCount (g : SkeletonGraph K) : Nat := g.edges.length

/-- The vertex ids in the order they were added. -/
def vertexIds (g : SkeletonGraph K) : List Value := g.vertices.map (·.id)

/-- Adds a vertex under the given id, or the next free one, and answers the id. The graph is
unchanged when the id is taken or cannot be one; when the next free id cannot follow the id,
the vertex is kept and the failure answered. -/
def addVertex (g : SkeletonGraph K) (p : Vec3 K) (id? : Option Value := none) :
    SkeletonGraph K × Except Error Value :=
  let id := id?.getD g.nextVertex
  match g.hasVertex? id with
  | .error e => (g, .error e)
  | .ok true => (g, .error (.duplicateVertex id.describe))
  | .ok false =>
    let stored := { g with vertices := g.vertices ++ [{ id, point := p }] }
    match id.succ >>= g.nextVertex.larger with
    | .ok next => ({ stored with nextVertex := next }, .ok id)
    | .error e => (stored, .error e)

/-- Adds an edge between two vertices; answers its id. The start is looked up first, so an end
that cannot be an id fails only when the start is there. -/
def addEdge (g : SkeletonGraph K) (a b : Value) : Except Error (SkeletonGraph K × Nat) := do
  if !(← g.hasVertex? a) then throw (.edgeEndMissing a.describe b.describe)
  if !(← g.hasVertex? b) then throw (.edgeEndMissing a.describe b.describe)
  if a.same b then throw (.selfLoop a.describe)
  let id := g.nextEdge
  let touch := fun (v : SkeletonVertex K) =>
    if v.id.same a || v.id.same b then { v with edges := v.edges ++ [id] } else v
  .ok ({ g with edges := g.edges ++ [⟨id, a, b⟩], vertices := g.vertices.map touch,
                nextEdge := id + 1 }, id)

end SkeletonGraph

end Exploration
