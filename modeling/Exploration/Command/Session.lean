import Exploration.Command.Local

/-!
# World sessions

`world` builds a voxel map and a mission from a request and answers its steps in order, each
step seeing the world as the steps before it left it: the map, the mission, the sensor, the
global planners and the local planner.
-/

namespace Exploration

namespace Command

/-- The steps that change or read the cells alone, and the mission steps, which need no distance
field. -/
def fieldFree : List String :=
  ["fill", "set_box", "add_obstacle", "clear_box", "voxel_index", "voxel_center",
   "get_voxel_center", "voxel_state", "voxel_states", "map_info", "set_pose", "target_reached",
   "signal", "comm", "submap_ids_at"]

/-- One step of a world session. A step is an object naming its operation under "do"; an
operation of no known name is refused. The distance field is brought up to date first unless
the step needs none; this changes no answer, only when the field is computed. -/
def worldStep (w : World) (step : Value) : World × Reply :=
  match stepName step with
  | .error e => (w, .error e)
  | .ok name =>
    let w := match name with
      | .str d => if fieldFree.contains d then w else w.ready
      | _ => w
    match mapStep w step <|> lidarStep w step <|> globalStep w step <|> localStep w step with
    | some r => r
    | none =>
      match name with
      | .str "finalize" => finalizeStep w step
      | _ => (w, .error .badValue)

/-- `world`: builds the map (default settings when none are given) and the mission (the robot at
the origin unless a pose is given), then answers every step in order. -/
def world (req : Value) : Reply := do
  let settings ← Settings.read .map (field req "map" (.dict []))
  let map ← VoxelMap.ofSettings settings
  let robot ← match req.get? "robot" with
    | none => .ok {}
    | some v => poseOf v
  let init : World := {
    map, seesRobot := Value.truthy (field req "map_uses_comm" (.bool true)),
    mission := { pose := robot, flies := Value.truthy (field req "fly") } }
  let steps ← (← need req "steps").iter
  let (_, answers) := steps.foldl (fun (w, acc) step =>
    let (w', r) := worldStep w step
    (w', acc ++ [r.toValue])) (init, [])
  .ok (.dict [("steps", .list answers)])

end Command

end Exploration
