import Exploration.Global.Search
import Exploration.Mission

/-!
# The global planner

The global planner holds a collection of submaps, which grows as regions are frozen, and the
search over it. A successful plan is loaded for execution: its waypoints wait in order, and the
mission switches to global planning. Each execution step publishes the next waypoint once the
robot reached the last one; a step that finds none left marks the execution finished.

Planning to frontiers tries the reachable frontiers nearest first (by straight distance from the
start, the given order among equals, a NaN distance placed as `Sorting.sortBy` places it) and keeps the first success; when all fail the last
failure stands, and with no reachable frontier the plan fails at once for want of a goal.
-/

namespace Exploration

/-- A frontier of the explored space: its centroid and whether it can be reached. -/
structure Frontier where
  centroid : Vec3
  reachable : Bool := true
  deriving Inhabited

/-- The global planner. -/
structure GlobalPlanner where
  settings : SearchSettings
  collection : SubmapCollection := {}
  /-- The last plan made. -/
  last : Option PlanResult := none
  /-- The waypoints of the loaded plan still to publish. -/
  pending : List Pose := []
  finished : Bool := true
  deriving Inhabited

namespace GlobalPlanner

/-- Takes in a frozen region's submap. -/
def receive (p : GlobalPlanner) (s : Submap) : GlobalPlanner × Option Error :=
  let (collection, err) := p.collection.add s
  ({ p with collection }, err)

/-- Plans from `start` to `goal`; a success is loaded for execution. -/
def plan (p : GlobalPlanner) (m : VoxelMap) (robot : Option Vec3) (mission : Mission)
    (start goal : Vec3) : Except Error (GlobalPlanner × Mission × PlanResult) := do
  let r ← Federation.search p.collection m robot p.settings start goal
  let p := { p with last := some r }
  if r.success then
    .ok ({ p with pending := r.waypoints, finished := false }, mission.signal .globalPlanning, r)
  else .ok (p, mission, r)

/-- Plans from `start` to the reachable frontiers, nearest first, until one succeeds. -/
def planFrontiers (p : GlobalPlanner) (m : VoxelMap) (robot : Option Vec3) (mission : Mission)
    (start : Vec3) (goals : List Frontier) : Except Error (GlobalPlanner × Mission × PlanResult) := do
  let reachable := goals.filter (·.reachable)
  if reachable.isEmpty then
    let r : PlanResult := { failure := some .noGoalVertex, message := .str "没有可达的前沿目标" }
    return ({ p with last := some r }, mission, r)
  let keyed := reachable.map fun g => ((g.centroid - start).norm, g)
  let ordered := (Sorting.sortBy (fun a b => a.1 < b.1) keyed).map (·.2)
  let mut state := (p, mission, ({} : PlanResult))
  for g in ordered do
    let (p, mission, _) := state
    let (p, mission, r) ← p.plan m robot mission start g.centroid
    state := (p, mission, r)
    if r.success then break
  return state

/-- One execution step: the next waypoint is published when the robot reached its target. -/
def step (p : GlobalPlanner) (mission : Mission) : GlobalPlanner × Mission × Option Pose :=
  if p.finished || !mission.targetReached then (p, mission, none)
  else match p.pending with
    | [] => ({ p with finished := true }, mission, none)
    | w :: rest => ({ p with pending := rest }, mission.publish w, some w)

end GlobalPlanner

end Exploration
