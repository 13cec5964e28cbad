import Exploration.Global.Result
import Exploration.Map.VoxelMap
import Exploration.Settings
import Exploration.Sorting

/-!
# Search over the federation of submaps

The submaps of a collection are not joined in advance; the search joins them as it goes.

1. **Entry vertices.** In every frozen region holding the start whose submap is in the
   collection, the `n` vertices nearest the start are candidates; candidates are tried by
   distance (ties by submap id, then vertex id) and kept while the segment to them is
   traversable in the active region, up to `n` kept. The cost of an entry vertex is its distance.
2. **Exit vertices**, found the same way around the goal with segments traversable in the
   global map.
3. **Best first.** The open vertex of least `cost + distance to goal` is closed next, the one
   queued first among equals. An exit vertex only leads to the goal mark, at its distance. Any
   other vertex leads along its graph's edges (cost: the edge's length in the submap's frame),
   and, when it has few edges, across to the vertices of other submaps whose regions hold it:
   their `k` vertices nearest it, within the linking distance and with a traversable segment in
   the global map (a bridge).
4. Closing the goal mark ends the search; the path is read back through the predecessors, and
   each vertex becomes a waypoint at its common-frame position with heading zero.

The search stops with a failure when no entry or no exit vertex exists, when the iteration limit
is reached while vertices remain open, or when none remain.

The best-first rounds (`SearchState.run`) are written for any type of costs with a sum, a
decidable order and a cost for vertices not reached (`Unreached`), and the steps out of a vertex
(`Federation.View.steps`) for any coordinates and lengths, reading the federation through a
`Federation.View`. The program runs them in doubles (`Federation.view`); in exact arithmetic the
same definitions describe the search the program approximates.
-/

namespace Exploration

/-- The settings of the search, kept as given: each is compared with a count or a distance
where the search needs it, and a value that cannot be compared fails there. -/
structure SearchSettings where
  startCount : Value := .int 5
  goalCount : Value := .int 30
  maxIterations : Value := .int 5000
  linkingEdges : Value := .int 3
  linkingNeighbors : Value := .int 3
  linkingDistance : Value := .num 2.0
  deriving Inhabited

namespace SearchSettings

/-- The search settings of a group of settings. -/
def ofSettings (s : Settings) : SearchSettings := {
  startCount := s.get "n_closest_start_vertices"
  goalCount := s.get "n_closest_end_vertices"
  maxIterations := s.get "max_iterations"
  linkingEdges := s.get "max_edges_for_linking"
  linkingNeighbors := s.get "n_linking_neighbors"
  linkingDistance := s.get "max_linking_distance" }

end SearchSettings

/-- A segment test between two points of the common frame. -/
abbrev SegmentTest := Vec3 → Vec3 → Except Error Bool

namespace Federation

/-- The ids of the frozen regions holding a point whose submaps are in the collection. -/
def submapsAt (c : SubmapCollection) (m : VoxelMap) (p : Vec3) : Except Error (List Value) :=
  (m.regionIdsAt p).filterM c.contains

/-- The common-frame position of a vertex of a submap. -/
def position {L : Type} [Add L] [Mul L] [OfNat L 0] [MulAdd L] (s : Submap L) (v : Value) :
    Vec3 L :=
  (s.vertexWorld v).toOption.getD Vec3.zero

/-- The position of a federation vertex whose submaps are found by `find` (the goal mark is at
the goal). -/
def placeOf {L : Type} [Add L] [Mul L] [OfNat L 0] [MulAdd L]
    (find : Value → Except Error (Submap L)) (goal : Vec3 L) (v : VertexRef) : Vec3 L :=
  if v == VertexRef.goal then goal
  else match find v.submap with
    | .ok s => position s v.vertex
    | .error _ => Vec3.zero

/-- The position of a federation vertex (the goal mark is at the goal). -/
def vertexPosition (c : SubmapCollection) (goal : Vec3) (v : VertexRef) : Vec3 :=
  placeOf c.find goal v

/-- A candidate vertex around a point: its distance, submap id, vertex id and position. -/
abbrev Candidate := Float × Value × Value × Vec3

/-- Whether one candidate comes before another: by distance, then submap id, then vertex id,
each compared only when all before it are equal; ids of kinds without an order fail. -/
def candidateBefore (a b : Candidate) : Except Error Bool :=
  if a.1 == b.1 then
    if a.2.1.same b.2.1 then
      if a.2.2.1.same b.2.2.1 then .ok false else Value.lessThan a.2.2.1 b.2.2.1
    else Value.lessThan a.2.1 b.2.1
  else .ok (a.1 < b.1)

/-- The candidates around a point: for each submap at the point, its `n` vertices nearest the
point, with their distances, sorted by `candidateBefore`. -/
def candidates (c : SubmapCollection) (m : VoxelMap) (p : Vec3) (n : Value) :
    Except Error (List Candidate) := do
  let mut all : Array Candidate := #[]
  for sid in ← submapsAt c m p do
    let s ← c.find sid
    for v in ← s.closest (.ok (s.toLocal p)) n do
      let w := position s v
      all := all.push ((w - p).norm, sid, v, w)
  Sorting.sortByM candidateBefore all.toList

/-- Up to `n` vertices around a point reachable from it by a segment passing `clear`, tried in
the order of `candidates`. -/
def reachableVertices (c : SubmapCollection) (m : VoxelMap) (p : Vec3) (n : Value)
    (clear : SegmentTest) : Except Error (List VertexRef) := do
  let mut kept : Array VertexRef := #[]
  for (_, sid, v, w) in ← candidates c m p n do
    if ← n.atMost (.int kept.size) then break
    if ← clear p w then kept := kept.push ⟨sid, v⟩
  return kept.toList

/-- The bridges from a vertex at `p` of submap `home`: vertices of other submaps at `p`, among
their `k` nearest to `p`, within the linking distance, with a segment traversable in the global
map; with their positions and lengths. -/
def bridges (c : SubmapCollection) (m : VoxelMap) (cfg : SearchSettings) (home : Value) (p : Vec3) :
    Except Error (List (VertexRef × Vec3 × Float)) := do
  let mut found : Array (VertexRef × Vec3 × Float) := #[]
  for sid in ← submapsAt c m p do
    if sid.same home then continue
    let other ← c.find sid
    for v in ← other.closest (.ok (other.toLocal p)) cfg.linkingNeighbors do
      let w := position other v
      let d := (w - p).norm
      if ← Value.lessThan cfg.linkingDistance (.num d) then continue
      if !(← m.segmentGlobal p w) then continue
      found := found.push (⟨sid, v⟩, w, d)
  return found.toList

end Federation

/-- The cost a search records for a vertex it has not reached, above every cost it reaches:
infinity, for doubles. -/
class Unreached (K : Type) where
  unreached : K

instance : Unreached Float := ⟨(1.0 : Float) / 0.0⟩

/-- The open vertices of a best-first search, kept sorted by key and ticket. -/
abbrev OpenQueue (K : Type := Float) := List (K × Nat × VertexRef)

namespace OpenQueue

variable {K : Type} [LT K] [DecidableRel (α := K) (· < ·)]

/-- Inserts an entry whose ticket is larger than every ticket queued: it goes after every entry
of key not above its own. -/
def insert (q : OpenQueue K) (e : K × Nat × VertexRef) : OpenQueue K :=
  match q with
  | [] => [e]
  | x :: rest => if e.1 < x.1 then e :: x :: rest else x :: insert rest e

end OpenQueue

/-- The value of the latest entry of a table for a vertex: the first entry whose vertex equals
it. -/
def VertexRef.lookup {β : Type} (table : List (VertexRef × β)) (v : VertexRef) : Option β :=
  (table.find? fun e => e.1 == v).map (·.2)

/-- The state of a best-first search with costs in `K`. The tables of costs and predecessors hold
their latest entry for a vertex first. -/
structure SearchState (K : Type := Float) where
  cost : List (VertexRef × K) := []
  parent : List (VertexRef × VertexRef) := []
  /-- The closed vertices, the last closed first. -/
  closed : List VertexRef := []
  queue : OpenQueue K := []
  tickets : Nat := 0
  iterations : Nat := 0
  deriving Inhabited

/-- How a best-first search ends: it closed the goal mark `u`, it reached its iteration limit, or
nothing was left open (or no round was left). -/
inductive SearchEnd (K : Type) where
  | found (st : SearchState K) (u : VertexRef)
  | limit (st : SearchState K)
  | exhausted (st : SearchState K)

namespace SearchState

variable {K : Type} [Add K] [LT K] [DecidableRel (α := K) (· < ·)] [Unreached K]

/-- The cost of a vertex reached so far; `unreached` when it is not reached. -/
def costOf (st : SearchState K) (v : VertexRef) : K :=
  (VertexRef.lookup st.cost v).getD Unreached.unreached

/-- Queues a vertex at a cost with a predecessor, if that improves its cost. -/
def offer (st : SearchState K) (v : VertexRef) (via : Option VertexRef) (g h : K) :
    SearchState K :=
  if g < st.costOf v then
    let t := st.tickets + 1
    { st with cost := (v, g) :: st.cost,
              parent := match via with
                | some u => (v, u) :: st.parent
                | none => st.parent,
              tickets := t, queue := st.queue.insert (g + h, t, v) }
  else st

/-- Tries the step from a closed vertex to a neighbour at a cost. -/
def relax (st : SearchState K) (u v : VertexRef) (step h : K) : SearchState K :=
  if st.closed.contains v then st else st.offer v (some u) (st.costOf u + step) h

/-- Tries the steps out of a closed vertex `u` in order: each to a vertex, at a cost, with the
estimate of what is left from there. -/
def relaxAll (st : SearchState K) (u : VertexRef) (steps : List (VertexRef × K × K)) :
    SearchState K :=
  steps.foldl (fun st s => st.relax u s.1 s.2.1 s.2.2) st

/-- The path to a vertex through the predecessors, first vertex first; at most `fuel` steps
back (a search follows at most as many as it has closed vertices). -/
def pathTo (st : SearchState K) (v : VertexRef) : Nat → List VertexRef
  | 0 => [v]
  | fuel + 1 => match VertexRef.lookup st.parent v with
    | some u => pathTo st u fuel ++ [v]
    | none => [v]

/-- The rounds of a best-first search, at most `fuel` of them. A round takes the first open
entry; it stops when the count of iterations reaches the limit (`atLimit`), skips a vertex closed
before, and otherwise closes the vertex: the goal mark ends the search, any other vertex `u` is
left by its steps (`next u`). -/
def run (atLimit : Nat → Except Error Bool)
    (next : VertexRef → Except Error (List (VertexRef × K × K))) :
    Nat → SearchState K → Except Error (SearchEnd K)
  | 0, st => .ok (.exhausted st)
  | fuel + 1, st =>
    match st.queue with
    | [] => .ok (.exhausted st)
    | (_, _, u) :: rest =>
      match atLimit st.iterations with
      | .error e => .error e
      | .ok true => .ok (.limit st)
      | .ok false =>
      if st.closed.contains u then run atLimit next fuel { st with queue := rest }
      else
        let st := { st with queue := rest, closed := u :: st.closed,
                            iterations := st.iterations + 1 }
        if u == VertexRef.goal then .ok (.found st u)
        else do
          let steps ← next u
          run atLimit next fuel (st.relaxAll u steps)

end SearchState

namespace Federation

/-- What the search reads of a federation of submaps with coordinates in `L`, measuring lengths
in `K`: how to find a submap by id, whether a vertex with so many edges may bridge, the bridges
from a point of a vertex of a submap (each a vertex, its position and the length), and the length
of a vector. -/
structure View (L K : Type) where
  find : Value → Except Error (Submap L)
  few : Nat → Except Error Bool
  bridgesAt : Value → Vec3 L → Except Error (List (VertexRef × Vec3 L × K))
  length : Vec3 L → K

namespace View

variable {L K : Type} [Add L] [Sub L] [Mul L] [OfNat L 0] [MulAdd L] [OfNat K 0]
  (V : View L K) (goal : Vec3 L)

/-- The step along edge `eid` of the vertex `vx` of submap `s` of id `sid`: to the vertex at its
other end, at the edge's length in the submap's frame. -/
def edgeStep (s : Submap L) (sid : Value) (vx : SkeletonVertex L) (eid : Nat) :
    Except Error (VertexRef × K × K) := do
  let e ← s.graph.edge (.int eid)
  let nv ← s.graph.vertex (e.other vx.id)
  return (⟨sid, e.other vx.id⟩, V.length (nv.point - vx.point),
    V.length (goal - position s (e.other vx.id)))

/-- The steps out of a closed vertex `u` that is not the goal mark. An exit vertex only leads to
the goal mark, at its distance. Any other vertex leads along its graph's edges, then, when it has
few edges, over the bridges from its position; each step comes with the distance from the vertex
it reaches to the goal. -/
def steps (exits : List VertexRef) (u : VertexRef) : Except Error (List (VertexRef × K × K)) := do
  if exits.contains u then
    return [(VertexRef.goal, V.length (goal - placeOf V.find goal u), 0)]
  let s ← V.find u.submap
  let vx ← s.graph.vertex u.vertex
  let edges ← vx.edges.mapM (V.edgeStep goal s u.submap vx)
  if ← V.few vx.edges.length then
    let bs ← V.bridgesAt u.submap (placeOf V.find goal u)
    return edges ++ bs.map fun b => (b.1, b.2.2, V.length (goal - b.2.1))
  else return edges

variable [Add K] [LT K] [DecidableRel (α := K) (· < ·)] [Unreached K]

/-- The first state of a search from `start`: the entry vertices queued in order, each at its
distance from the start. -/
def entries (start : Vec3 L) (starts : List VertexRef) : SearchState K :=
  starts.foldl (fun st v =>
    st.offer v none (V.length (placeOf V.find goal v - start))
      (V.length (goal - placeOf V.find goal v))) {}

end View

/-- The federation as the search reads it, in doubles. -/
def view (c : SubmapCollection) (m : VoxelMap) (cfg : SearchSettings) : View Float Float where
  find := c.find
  few n := Value.atMost (.int n) cfg.linkingEdges
  bridgesAt home p := bridges c m cfg home p
  length := Vec3.norm

/-- An upper bound on the number of entries a search can queue, hence on its rounds: every
queued entry comes from the start or from one step out of a vertex closed once. -/
def roundBound (c : SubmapCollection) (starts : Nat) : Nat :=
  let vertices := c.totalVertices + 1
  let degree := 2 * (c.submaps.map (·.graph.edgeCount)).foldr (· + ·) 0
  starts + vertices * (degree + c.totalVertices + 2) + 1

/-- A failed search result. -/
def failed (f : PlanFailure) (iterations : Nat) (message : String) : PlanResult :=
  { failure := some f, iterations := .int iterations, message := .str message }

/-- The rounds of the search over the federation, at most `fuel` of them, and the result they
give: when the goal mark is closed, the path read back through the predecessors, each vertex a
waypoint at its common-frame position with heading zero. -/
def rounds (c : SubmapCollection) (m : VoxelMap) (cfg : SearchSettings) (goal : Vec3)
    (exits : List VertexRef) (fuel : Nat) (st : SearchState) : Except Error PlanResult := do
  match ← st.run (fun n => Value.atMost cfg.maxIterations (.int n))
      ((view c m cfg).steps goal exits) fuel with
  | .found st u =>
    let path := st.pathTo u st.iterations
    .ok { success := true, vertexPath := path, iterations := .int st.iterations,
          waypoints := path.map fun v => Pose.ofPosition (vertexPosition c goal v),
          message := .str ("找到路径: " ++ toString path.length ++ " 个顶点") }
  | .limit st =>
    .ok (failed .iterationLimit st.iterations ("超过最大迭代次数 " ++ cfg.maxIterations.describe))
  | .exhausted st => .ok (failed .openSetExhausted st.iterations "open set 为空，目标不可达")

/-- The search for a path from `start` to `goal` over a collection, with the map's frozen regions
and segment tests, the robot at `robot` for the active region. -/
def search (c : SubmapCollection) (m : VoxelMap) (robot : Option Vec3) (cfg : SearchSettings)
    (start goal : Vec3) : Except Error PlanResult := do
  let starts ← reachableVertices c m start cfg.startCount (m.segmentActive robot)
  if starts.isEmpty then
    return failed .noStartVertex 0
      ("起点 " ++ Transform.listText start.toList ++ " 附近没有可达的骨架顶点")
  let exits ← reachableVertices c m goal cfg.goalCount m.segmentGlobal
  if exits.isEmpty then
    return failed .noGoalVertex 0
      ("目标 " ++ Transform.listText goal.toList ++ " 附近没有可达的骨架顶点")
  rounds c m cfg goal exits (roundBound c starts.length)
    ((view c m cfg).entries goal start starts)

end Federation

end Exploration
