import Exploration.Command.Skeleton
import Exploration.Lidar
import Exploration.Global.Planner
import Exploration.Local.Report
import Exploration.Mission

/-!
# Requests on a world

`{"map", "robot"?, "map_uses_comm"?, "fly"?, "steps"}` builds a voxel map from map settings and
a mission state with the robot's pose, then runs steps on them. A step that fails answers its
error and leaves the world as the failure found it: a region frozen before its submap was
refused stays frozen.

The map sees the robot (for its clearing radius) unless `map_uses_comm` is false; with `fly`,
the robot is placed at every waypoint as it is published.
-/

namespace Exploration

namespace Command

/-- The state of a world session. -/
structure World where
  map : VoxelMap
  /-- Whether the map knows where the robot is. -/
  seesRobot : Bool := true
  mission : Mission := {}
  lidar : Option Lidar := none
  /-- The global planners made so far, the current one last; every one hears of each submap
  frozen with a graph, in the order they were made. -/
  planners : List GlobalPlanner := []
  /-- The local planner, once made. -/
  localPlanner : Option LocalPlanner := none
  /-- The identity of the viewpoint kept aside by the last `connect`. -/
  pending : Option Nat := none
  deriving Inhabited

namespace World

/-- The robot's position as the map knows it. -/
def robot (w : World) : Option Vec3 :=
  if w.seesRobot then some w.mission.pose.position else none

/-- The current global planner. -/
def planner (w : World) : Except Error GlobalPlanner :=
  match w.planners.getLast? with
  | some p => .ok p
  | none => .error .missingPart

/-- The world with its current global planner replaced. -/
def setPlanner (w : World) (p : GlobalPlanner) : World :=
  { w with planners := w.planners.dropLast ++ [p] }

/-- Tells every global planner of a new submap, in order, stopping at the first refusal; the
planners told before it keep the submap. -/
def announce (w : World) (s : Submap) : World × Option Error :=
  let (ps, err) := w.planners.foldl (fun (acc : List GlobalPlanner × Option Error) p =>
    match acc.2 with
    | some _ => (acc.1 ++ [p], acc.2)
    | none =>
      let (p', e) := p.receive s
      (acc.1 ++ [p'], e)) ([], none)
  ({ w with planners := ps }, err)

/-- The world with its map's distance field cached. -/
def ready (w : World) : World := { w with map := w.map.withField }

/-- Freezes the box `[lo, hi]` of the map under an id; with a graph, the region's submap is made
from it and every global planner is told of it, and the submap is answered. The region is frozen
before the submap is made, so a submap that cannot be made, or a planner that refuses it, leaves
the region frozen. -/
def finalize (w : World) (id : Value) (lo hi : Vec3) (graph : Option SkeletonGraph)
    (pose : Transform) : World × Except Error (Option Submap) :=
  match w.map.freeze id lo hi with
  | .error e => (w, .error e)
  | .ok map =>
    let w := { w with map }
    match graph with
    | none => (w, .ok none)
    | some g => match Submap.make id g (some pose) with
      | .error e => (w, .error e)
      | .ok s => match w.announce s with
        | (w, some e) => (w, .error e)
        | (w, none) => (w, .ok (some s))

end World

/-- A cell state given by name or by number. A wrong name is a missing key; any other value
that is not a state's number is refused. -/
def cellStateOf : Value → Except Error CellState
  | .str s => match CellState.ofName? s with
    | some st => .ok st
    | none => .error .missingKey
  | .int n => match CellState.ofNumber? n with
    | some st => .ok st
    | none => .error .badValue
  | .bool b => .ok (if b then .free else .unknown)
  | .num x =>
    if x == 0.0 then .ok .unknown else if x == 1.0 then .ok .free
    else if x == 2.0 then .ok .occupied else .error .badValue
  | _ => .error .badValue

/-- A cell as a list of three integers. -/
def cellValue (c : Cell) : Value := Value.ints (c.toList.map (· : Nat → Int))

/-- The centre of a cell given by a list of three numbers (or one number for all three axes). -/
def centreOfIndex (g : GridFrame) (v : Value) : Except Error Vec3 := do
  let (shape, entries) ← v.toArray
  let at_ := fun (o x : Float) => o + (x + 0.5) * g.size
  match shape, entries with
  | [3], [a, b, c] => .ok ⟨at_ g.origin.x a, at_ g.origin.y b, at_ g.origin.z c⟩
  | _, [a] => .ok ⟨at_ g.origin.x a, at_ g.origin.y a, at_ g.origin.z a⟩
  | _, _ => .error .badValue

/-- `voxel_states`: cells, states and on-grid flags of a batch of points given as rows of
three. -/
def voxelStates (m : VoxelMap) (v : Value) : Except Error Value := do
  let (_, entries) ← v.toArray
  if entries.length % 3 != 0 then .error .badValue
  let rec rows : List Float → List Vec3
    | x :: y :: z :: rest => ⟨x, y, z⟩ :: rows rest
    | _ => []
  let pts := rows entries
  let slabs := pts.map m.frame.slabs
  .ok (.dict [
    ("indices", .list (slabs.map fun (a, b, c) => Value.ints [a, b, c])),
    ("states", .list (pts.map fun p => .str (m.stateAt p).name)),
    ("inside", .list (pts.map fun p => .bool (m.frame.cellOf? p).isSome))])

/-- The mission as an object. -/
def missionValue (m : Mission) : Value :=
  .dict [("state", .str m.mode.name), ("previous", .str m.previous.name),
    ("target_reached", .bool m.targetReached), ("n_requested", .int m.requested),
    ("last_waypoint", Value.ofOption pose m.lastWaypoint), ("pose", pose m.pose),
    ("published", .list (m.published.map pose))]

/-- The steps on the map and the mission; none for a step of another kind. -/
def mapStep (w : World) (step : Value) : Option (World × Reply) :=
  let keep := fun (r : Except Error Value) => (w, r)
  match field step "do" with
  | .str "fill" => some <| match need step "state" >>= cellStateOf with
    | .ok st => ({ w with map := w.map.fill st }, .ok .null)
    | .error e => (w, .error e)
  | .str "set_box" | .str "add_obstacle" | .str "clear_box" => some <| Id.run do
    let st ← match field step "do" with
      | .str "add_obstacle" => pure (Except.ok CellState.occupied)
      | .str "clear_box" => pure (.ok .free)
      | _ => pure (need step "state" >>= cellStateOf)
    let box : Except Error (Vec3 × Vec3 × CellState) := do
      let lo ← need step "min"
      let hi ← need step "max"
      let s ← st
      .ok (← lo.toPoint, ← hi.toPoint, s)
    match box with
    | .ok (lo, hi, s) =>
      let (map, n) := w.map.setBox lo hi s
      return ({ w with map }, .ok (.int n))
    | .error e => return (w, .error e)
  | .str "voxel_index" => some <| keep do
    let p ← (← need step "p").toPoint
    .ok (Value.ofOption cellValue (w.map.frame.cellOf? p))
  | .str "voxel_center" => some <| keep do
    .ok (vec (← centreOfIndex w.map.frame (← need step "index")))
  | .str "get_voxel_center" => some <| keep do
    let p ← (← need step "p").toPoint
    .ok (Value.ofOption (fun c => vec (w.map.frame.centre c)) (w.map.frame.cellOf? p))
  | .str "voxel_state" => some <| keep do
    .ok (.str (w.map.stateAt (← (← need step "p").toPoint)).name)
  | .str "voxel_states" => some <| keep (do voxelStates w.map (← need step "points"))
  | .str "distance" => some <| keep do
    .ok (Value.ofOption Value.num (w.map.distanceAt? (← (← need step "p").toPoint)))
  | .str "trav_active" => some <| keep do
    .ok (.bool (← w.map.traversableActive w.robot (← (← need step "p").toPoint)))
  | .str "trav_global" => some <| keep do
    .ok (.bool (w.map.traversableGlobal (← (← need step "p").toPoint)))
  | .str "line_active" => some <| keep do
    let a ← (← need step "a").toPoint
    let b ← (← need step "b").toPoint
    .ok (.bool (← w.map.segmentActive w.robot a b))
  | .str "line_global" => some <| keep do
    let a ← (← need step "a").toPoint
    let b ← (← need step "b").toPoint
    .ok (.bool (← w.map.segmentGlobal a b))
  | .str "submap_ids_at" => some <| keep do
    .ok (.list (w.map.regionIdsAt (← (← need step "p").toPoint)))
  | .str "map_info" => some <| keep do
    .ok (.dict [("min", vec w.map.frame.origin), ("max", vec w.map.frame.farCorner),
      ("voxel_size", .num w.map.frame.size), ("finalized", .list w.map.frozenIds)])
  | .str "set_pose" => some <| match need step "pose" >>= poseOf with
    | .ok p => ({ w with mission := { w.mission with pose := p } }, .ok .null)
    | .error e => (w, .error e)
  | .str "target_reached" => some <| match need step "value" with
    | .ok v => ({ w with mission := { w.mission with targetReached := v.truthy } }, .ok .null)
    | .error e => (w, .error e)
  | .str "signal" => some <| match need step "mode" with
    | .error e => (w, .error e)
    | .ok (.str s) => match PlanningMode.ofName? s with
      | some mode =>
        let mission := w.mission.signal mode
        ({ w with mission }, .ok (.list [.str mission.mode.name, .str mission.previous.name]))
      | none => (w, .error .missingPart)
    | .ok _ => (w, .error .wrongType)
  | .str "comm" => some (w, .ok (missionValue w.mission))
  | _ => none

/-- `finalize`: freezes a region of the map under an id; with a graph, the region's submap is
made and its description answered. -/
def finalizeStep (w : World) (step : Value) : World × Reply :=
  let prepared : Except Error (Value × Vec3 × Vec3 × Option SkeletonGraph × Transform) := do
    let id ← need step "id"
    let lo ← need step "min"
    let hi ← need step "max"
    let graph ← match step.get? "graph" with
      | some g => some <$> graphOf g
      | none => .ok none
    let pose ← transformOf (field step "pose")
    if ← w.map.isFrozen id then throw (.regionFrozen id.describe)
    .ok (id, ← lo.toPoint, ← hi.toPoint, graph, pose)
  match prepared with
  | .error e => (w, .error e)
  | .ok (id, lo, hi, graph, pose) =>
    let (w, r) := w.finalize id lo hi graph pose
    (w, r.map (Value.ofOption submapInfo))

/-- The world's lidar, which a step that needs it cannot do without. -/
def World.sensor (w : World) : Except Error Lidar :=
  match w.lidar with
  | some l => .ok l
  | none => .error .missingPart

/-- The steps on the lidar; none for a step of another kind. -/
def lidarStep (w : World) (step : Value) : Option (World × Reply) :=
  let keep := fun (r : Except Error Value) => (w, r)
  match field step "do" with
  | .str "lidar" => some <| match Settings.read .lidar (field step "config" (.dict [])) >>= Lidar.ofSettings with
    | .ok l => ({ w with lidar := some l }, .ok (.int l.rays.length))
    | .error e => (w, .error e)
  | .str "gain" => some <| keep do
    let l ← w.sensor
    .ok (.num (← l.gain w.map (← poseOf (← need step "pose"))))
  | .str "visible" => some <| keep do
    let l ← w.sensor
    .ok (.list ((← l.visible w.map (← poseOf (← need step "pose"))).map cellValue))
  | .str "visible_centers" => some <| keep do
    let l ← w.sensor
    .ok (.list ((← l.visible w.map (← poseOf (← need step "pose"))).map fun c => vec (w.map.frame.centre c)))
  | .str "ray_directions" => some <| keep do
    let l ← w.sensor
    .ok (.list ((l.directions (← poseOf (← need step "pose"))).map vec))
  | _ => none

/-- A search result as an object. -/
def planInfo (r : PlanResult) : Value :=
  .dict [("success", .bool r.success), ("failure", Value.ofOption (fun f => .str f.name) r.failure),
    ("message", r.message), ("n_iterations", r.iterations),
    ("vertex_path", .list (r.vertexPath.map fun v => .list [v.submap, v.vertex])),
    ("waypoints", .list (r.waypoints.map pose)), ("path_length", .num r.pathLength),
    ("n_bridges", .int r.bridges)]

/-- A frontier given as `{"centroid", "reachable"?}`. -/
def frontierOf (v : Value) : Except Error Frontier := do
  .ok { centroid := ← (← need v "centroid").toPoint,
        reachable := Value.truthy (field v "reachable" (.bool true)) }

/-- The steps on the global planner; none for a step of another kind. -/
def globalStep (w : World) (step : Value) : Option (World × Reply) :=
  let keep := fun (r : Except Error Value) => (w, r)
  let change := fun (r : Except Error (World × Value)) => match r with
    | .ok (w', v) => (w', Except.ok v)
    | .error e => (w, .error e)
  match field step "do" with
  | .str "global_planner" => some <| change do
    let cfg := SearchSettings.ofSettings (← Settings.read .globalSearch (field step "config" (.dict [])))
    .ok ({ w with planners := w.planners ++ [{ settings := cfg }] }, .null)
  | .str "add_submap" => some <| change do
    let g ← graphOf (field step "graph" (.dict []))
    let pose ← transformOf (field step "pose")
    let s ← Submap.make (← need step "id") g (some pose)
    let (p, err) := (← w.planner).receive s
    if let some e := err then throw e
    .ok (w.setPlanner p, .int p.collection.size)
  | .str "plan" => some <| change do
    let p ← w.planner
    let start ← (← need step "start").toPoint
    let goal ← (← need step "goal").toPoint
    let (p, mission, r) ← p.plan w.map w.robot w.mission start goal
    .ok ({ w.setPlanner p with mission }, planInfo r)
  | .str "plan_frontiers" => some <| change do
    let p ← w.planner
    let goals ← (← (← need step "frontiers").iter).mapM frontierOf
    let start ← (← need step "start").toPoint
    let (p, mission, r) ← p.planFrontiers w.map w.robot w.mission start goals
    .ok ({ w.setPlanner p with mission }, planInfo r)
  | .str "global_step" => some <| change do
    let p ← w.planner
    let (p, mission, wp) := p.step w.mission
    .ok ({ w.setPlanner p with mission }, .dict [("waypoint", Value.ofOption pose wp),
      ("finished", .bool p.finished), ("remaining", .list (p.pending.map pose))])
  | .str "closest" => some <| keep do
    let p ← w.planner
    let at_ ← (← need step "p").toPoint
    let n ← need step "n"
    let test := match field step "mode" (.str "active") with
      | .str "active" => w.map.segmentActive w.robot
      | _ => w.map.segmentGlobal
    let vs ← Federation.reachableVertices p.collection w.map at_ n test
    .ok (.list (vs.map fun v => .list [v.submap, v.vertex]))
  | .str "collection" => some <| keep do
    let p ← w.planner
    let base := [("ids", .list p.collection.ids),
      ("total_vertices", Value.int p.collection.totalVertices)]
    match step.get? "p" with
    | some v => .ok (.dict (base ++ [("ids_at", .list (p.collection.idsAt (← v.toPoint)))]))
    | none => .ok (.dict base)
  | .str "report_global" => some <| keep do
    let p ← w.planner
    match p.last with
    | some r =>
      .ok (.str (← { r with seconds := .num 0.0, timestamp := .str "20000101_000000" }.report p.collection))
    | none => .error .wrongType
  | _ => none

end Command

end Exploration
