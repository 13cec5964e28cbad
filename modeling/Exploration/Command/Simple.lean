import Exploration.Command.Basic
import Exploration.Settings
import Exploration.Timing
import Exploration.Global.Report

/-!
# Single requests

The requests that build one value and answer about it: points, poses, transforms, settings,
search results with their report, the phase clock, seeds and frontier goals.
-/

namespace Exploration

namespace Command

/-- `{"point"}`: the point a value stands for. -/
def asPoint (req : Value) : Reply := do
  let p ← (field req "point").toPoint
  .ok (.dict [("point", vec p)])

/-- `{"position", "yaw"?, "other"?}`: a pose at a position, its orientation, and its distance
to another pose. -/
def waypoint (req : Value) : Reply := do
  let p ← (← need req "position").toPoint
  let yaw ← (field req "yaw" (.num 0.0)).toReal
  let w := Pose.ofPosition p yaw
  let base := [("waypoint", pose w), ("position", vec w.position),
    ("dict", .dict [("x", .num w.x), ("y", .num w.y), ("z", .num w.z), ("yaw", .num w.yaw)]),
    ("orientation_matrix", mat w.orientation)]
  match req.get? "other" with
  | some o => do
    let other ← poseOf o
    .ok (.dict (base ++ [("distance", .num (w.distance other))]))
  | none => .ok (.dict base)

/-- The image of an array of points under a transform: one point, or rows of three at any
depth of nesting. -/
def transformPoints (T : Transform) (v : Value) : Reply := do
  let (shape, entries) ← v.toArray
  match shape.getLast?, shape.length with
  | some 3, 1 =>
    match entries with
    | [x, y, z] => .ok (vec (T.apply ⟨x, y, z⟩))
    | _ => .error .badValue
  | some 3, _ =>
    let rec rows : List Float → List Vec3
      | x :: y :: z :: rest => ⟨x, y, z⟩ :: rows rest
      | _ => []
    .ok (nest shape ((T.applyAll (rows entries)).flatMap fun p => p.toList.map Value.num))
  | _, _ => .error .badValue

/-- `{"T", "then"?, "points"?}`: a transform, changed by inverting or composing, its matrix,
shift and text, and the images of points. -/
def transform (req : Value) : Reply := do
  let mut T ← transformOf (← need req "T")
  for step in ← (field req "then" (.list [])).iter do
    match step with
    | .str "inverse" => T := T.inverse
    | _ => T := T.compose (← transformOf (← step.member "compose"))
  let base := [("rotation", mat T.rot), ("translation", vec T.trans), ("repr", .str (← T.describe))]
  match req.get? "points" with
  | some pts => .ok (.dict (base ++ [("points", ← transformPoints T pts)]))
  | none => .ok (.dict base)

/-- The group of settings of a name. -/
def settingsKind : String → Except Error SettingsKind
  | "rhrrt" => .ok .localPlanner
  | "astar" => .ok .globalSearch
  | "lidar" => .ok .lidar
  | "voxel" => .ok .map
  | _ => .error .missingKey

/-- `{"kind", "data", "roundtrip"?}`: a group of settings read and written back; with
`roundtrip`, also the object written and the group read from it again. -/
def config (req : Value) : Reply := do
  let kind ← match field req "kind" with
    | .str k => settingsKind k
    | _ => .error .missingKey
  let s ← Settings.read kind (field req "data" (.dict []))
  if Value.truthy (field req "roundtrip") then
    let again ← Settings.read kind s.toValue
    .ok (.dict [("dict", s.toValue), ("json", s.toValue), ("reloaded", again.toValue)])
  else .ok (.dict [("dict", s.toValue)])

/-- A vertex entry of a graph spec: a point, or `{"id", "p"}` where a false id (missing, zero,
empty) takes the next free one. A taken id is refused before the point is read. -/
def addSpecVertex (g : SkeletonGraph) (entry : Value) : Except Error SkeletonGraph := do
  let (id?, p) := match entry with
    | .dict _ => (if (field entry "id").truthy then some (field entry "id") else none, field entry "p")
    | _ => (none, entry)
  let id := id?.getD g.nextVertex
  if ← g.hasVertex? id then throw (.duplicateVertex id.describe)
  let (g, added) := g.addVertex (← p.toPoint) id?
  let _ ← added
  .ok g

/-- A graph from a spec `{"vertices", "edges"}`: the vertices in order, then the edges, each a
pair of vertex ids. -/
def graphOf (spec : Value) : Except Error SkeletonGraph := do
  let mut g : SkeletonGraph := {}
  for entry in ← (field spec "vertices" (.list [])).iter do
    g ← addSpecVertex g entry
  for e in ← (field spec "edges" (.list [])).iter do
    match ← e.iter with
    | [a, b] =>
      let (g', _) ← g.addEdge a b
      g := g'
    | _ => .error .badValue
  .ok g

/-- A federation vertex of two parts, a submap id and a vertex id, kept as given. -/
def vertexRefOf (v : Value) : Except Error VertexRef := do
  match ← v.iter with
  | [s, n] => .ok ⟨s, n⟩
  | _ => .error .wrongType

/-- A failure named in a request: absent or `null` is none. -/
def failureOf : Value → Except Error (Option PlanFailure)
  | .null => .ok none
  | .str s => match PlanFailure.ofName? s with
    | some f => .ok (some f)
    | none => .error .badValue
  | _ => .error .badValue

/-- `plan_result`: the length and bridges of a search result given by its fields, and its
report over a collection of submaps when one is given. The count of iterations, the time, the
message and the stamp are kept as given. -/
def planResult (req : Value) : Reply := do
  let failure ← failureOf (field req "failure")
  let r : PlanResult := {
    success := (field req "success").truthy
    waypoints := ← (← (field req "waypoints" (.list [])).iter).mapM poseOf
    vertexPath := ← (← (field req "vertex_path" (.list [])).iter).mapM vertexRefOf
    iterations := field req "n_iterations" (.int 0)
    seconds := field req "computation_time" (.num 0.0)
    failure
    message := field req "message" (.str "")
    timestamp := field req "timestamp" (.str "20000101_000000") }
  let base := [("path_length", .num r.pathLength), ("n_bridges", .int r.bridges)]
  match req.get? "collection" with
  | some specs => do
    let mut c : SubmapCollection := {}
    for spec in ← specs.iter do
      let g ← graphOf (field spec "graph" (.dict []))
      let pose ← transformOf (field spec "pose")
      let s ← Submap.make (← need spec "id") g (some pose)
      let (c', err) := c.add s
      if let some e := err then throw e
      c := c'
    .ok (.dict (base ++ [("report", .str (← r.report c))]))
  | none => .ok (.dict base)

/-- The records a clock is updated with: the members of an object, or pairs (a list or a text
of two items each) in order, a later pair taking the place of an earlier one of the same name.
Any other value, or an item of another length, cannot update a clock. -/
def clockRecords (v : Value) : Except Error (List (String × Value)) :=
  match v with
  | .dict kvs => .ok (kvs.foldl (fun acc (k, x) => Value.set acc k x) [])
  | .list _ | .str _ => do
    let mut out : List (String × Value) := []
    for item in ← v.iter do
      match item with
      | .list _ | .str _ | .dict _ =>
        match ← item.iter with
        | [.str k, x] => out := Value.set out k x
        | [_, _] => throw .badValue
        | _ => throw .badValue
      | _ => throw .wrongType
    .ok out
  | _ => .error .wrongType

/-- The key a value becomes in an object written out: a text as itself, a number or truth value
as its text. -/
def memberName : Value → Except Error String
  | .str s => .ok s
  | .int n => .ok (toString n)
  | .num x => .ok (Float.toText x)
  | .bool b => .ok (if b then "true" else "false")
  | .null => .ok "null"
  | _ => .error .wrongType

/-- `{"records", "unit"?, "ms"?}`: a phase clock with the given durations, its summary, total,
durations and milliseconds of named phases. -/
def timer (req : Value) : Reply := do
  let clock : PhaseClock := { records := ← clockRecords (← need req "records") }
  let summary ← clock.summary (field req "unit" (.str "ms"))
  let total ← clock.total
  let dict ← clock.toValue
  let mut ms : List (String × Value) := []
  for name in ← (field req "ms" (.list [])).iter do
    let key ← memberName name
    let value ← match name with
      | .str n => clock.ms n
      | _ => pure 0.0
    ms := Value.set ms key (.num value)
  .ok (.dict [("summary", .str summary), ("total", total), ("dict", dict), ("ms", .dict ms)])

/-- `{"seed"}`: a seed other than zero is used as given, whatever its kind. -/
def seed (req : Value) : Reply := do
  .ok (.dict [("seed", ← need req "seed")])

/-- `{"centroid", "reachable"}`: a frontier goal, its centroid read as a point. -/
def frontier (req : Value) : Reply := do
  let c ← (← need req "centroid").toPoint
  .ok (.dict [("centroid", vec c), ("reachable", field req "reachable" (.bool true))])

end Command

end Exploration
