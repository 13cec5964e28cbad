import Exploration.Skeleton.Submap

/-!
# Results of the global search

A plan found by the global search over the federation of submaps is a list of waypoints and the
list of federation vertices they come from, ending in the goal mark `VertexRef.goal`. A failed
search records why (`PlanFailure`).

* `PlanResult.pathLength` is the sum of the distances between consecutive waypoints, zero
  for fewer than two.
* `PlanResult.bridges` counts the steps between consecutive real vertices (goal marks left out)
  whose submap ids differ (`Value.same`).
-/

namespace Exploration

/-- Why a global search failed. -/
inductive PlanFailure where
  | noStartVertex
  | noGoalVertex
  | iterationLimit
  | openSetExhausted
  deriving DecidableEq, Inhabited, Repr

namespace PlanFailure

/-- The name of a failure. -/
def name : PlanFailure → String
  | noStartVertex => "no_start_vertex"
  | noGoalVertex => "no_goal_vertex"
  | iterationLimit => "iteration_limit"
  | openSetExhausted => "open_set_exhausted"

/-- The failure of a name. -/
def ofName? (s : String) : Option PlanFailure :=
  [noStartVertex, noGoalVertex, iterationLimit, openSetExhausted].find? (·.name == s)

end PlanFailure

/-- The outcome of a global search. The count of iterations, the time, the message and the stamp
are only shown, and a result given by hand may hold any value in them. -/
structure PlanResult where
  success : Bool := false
  waypoints : List Pose := []
  vertexPath : List VertexRef := []
  iterations : Value := .int 0
  seconds : Value := .num 0.0
  failure : Option PlanFailure := none
  message : Value := .str ""
  timestamp : Value := .str "20000101_000000"
  deriving Inhabited

namespace PlanResult

/-- The length of the path through the waypoints. -/
def pathLength (r : PlanResult) : Float :=
  match r.waypoints with
  | a :: b :: rest => (rest.foldl (fun (acc, prev) w => (acc + w.distance prev, w))
      (0.0 + b.distance a, b)).1
  | _ => 0.0

/-- The number of changes of submap along the real vertices of the path. -/
def bridges (r : PlanResult) : Nat :=
  let real := r.vertexPath.filter (· != VertexRef.goal)
  ((real.zip real.tail).filter fun (a, b) => !a.submap.same b.submap).length

end PlanResult

end Exploration
