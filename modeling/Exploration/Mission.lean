import Exploration.Geometry.Transform

/-!
# The mission state

The planner and the vehicle's supervisor share a small state: the robot's pose, whether the
robot reached its last target, the planning mode with the one before it, and the waypoints
published so far. Publishing a waypoint makes it the last target, clears the reached flag and
counts it; when the vehicle flies to each waypoint at once (`flies`), the robot's pose becomes
the waypoint.

Switching to the mode already in force changes nothing, so the previous mode is always the last
different one.
-/

namespace Exploration

/-- The planning modes. -/
inductive PlanningMode where
  | idle
  | localPlanning
  | globalPlanning
  | finished
  deriving DecidableEq, Inhabited, Repr

namespace PlanningMode

/-- The name of a mode. -/
def name : PlanningMode → String
  | idle => "idle"
  | localPlanning => "local_planning"
  | globalPlanning => "global_planning"
  | finished => "finished"

/-- The mode of a name a supervisor can switch to. -/
def ofName? : String → Option PlanningMode
  | "local_planning" => some localPlanning
  | "global_planning" => some globalPlanning
  | "finished" => some finished
  | _ => none

end PlanningMode

/-- The state shared by the planner and the supervisor. -/
structure Mission where
  pose : Pose := {}
  targetReached : Bool := true
  mode : PlanningMode := .idle
  previous : PlanningMode := .idle
  /-- Every waypoint published, in order. -/
  published : List Pose := []
  /-- Whether the robot is placed at each waypoint as it is published. -/
  flies : Bool := false
  deriving Inhabited

namespace Mission

/-- Switches the planning mode; switching to the current mode changes nothing. -/
def signal (m : Mission) (mode : PlanningMode) : Mission :=
  if mode == m.mode then m else { m with previous := m.mode, mode }

/-- Publishes a waypoint. -/
def publish (m : Mission) (w : Pose) : Mission :=
  { m with targetReached := false, published := m.published ++ [w],
           pose := if m.flies then w else m.pose }

/-- The last waypoint published. -/
def lastWaypoint (m : Mission) : Option Pose := m.published.getLast?

/-- The number of waypoints published. -/
def requested (m : Mission) : Nat := m.published.length

theorem signal_same (m : Mission) : m.signal m.mode = m := by
  simp [signal]

theorem publish_requested (m : Mission) (w : Pose) :
    (m.publish w).requested = m.requested + 1 := by
  simp [publish, requested]

theorem publish_last (m : Mission) (w : Pose) : (m.publish w).lastWaypoint = some w := by
  simp [publish, lastWaypoint]

end Mission

end Exploration
