import Exploration.Local.Tree
import Exploration.Lidar
import Exploration.Mission
import Exploration.Random.Pcg64
import Exploration.Geometry.Point

/-!
# The local planner

A receding-horizon tree of viewpoints around the robot. Each planning round:

1. starts afresh (a tree of one root at the robot) when the planner is new or the mission is not
   in local planning, and switches the mission to local planning;
2. after a waypoint was published, re-evaluates every gain, zeroing the viewpoints whose active
   connection is the one being flown;
3. grows the tree by one sampled viewpoint (`expand`);
4. once the robot reached its target: drops connections that are no longer traversable (never
   the one being flown), prunes and repairs the tree, rewires, and moves the root to the best
   neighbour of the root, publishing its pose.

**Sampling.** A direction is drawn uniformly on the sphere (azimuth, then polar angle from a
uniform cosine); the goal lies at the local sampling radius from the robot while the local
quota lasts, else at the global radius. From the tree viewpoint nearest the goal, a ray towards
the goal advances by cell edges while it is traversable and shorter than
`min (max d dₘᵢₙ) dₘₐₓ + crop`; it is then cut back by `crop` and one edge. A ray shorter than
the least sampling distance fails; otherwise the heading is drawn last.

**Value.** A viewpoint's value is the best ratio of gathered gain to path cost over the paths
that run from the root through it and down its subtree along active connections; its own and the
subtree's gains count, the root's not (`gainPerCost`). Rewiring lets every viewpoint pick the
active connection of highest value among those whose chain reaches the root without a loop,
round after round until nothing changes or the round limit is met.
-/

namespace Exploration

/-- The settings of the local planner, kept as given. The checks of `Settings.check` make every
one a number except the least sampling distance and the seed; each is compared or converted where
the planner uses it, so a kind that cannot take part fails there. -/
structure LocalSettings where
  localRadius : Value := .num 1.5
  globalRadius : Value := .num 50.0
  minLocalPoints : Value := .int 5
  minPathLength : Value := .num 0.5
  minSamplingDistance : Value := .num 1.0
  maxPathLength : Value := .num 3.0
  cropping : Value := .num 0.2
  maxNeighbors : Value := .int 20
  maxRewiring : Value := .int 100
  seed : Value := .int 0
  /-- The settings as given, in order. -/
  shown : List (String × Value) := []
  deriving Inhabited

namespace LocalSettings

/-- The local planner settings of a group of settings. -/
def ofSettings (s : Settings) : LocalSettings := {
  localRadius := s.get "local_sampling_radius"
  globalRadius := s.get "global_sampling_radius"
  minLocalPoints := s.get "min_local_points"
  minPathLength := s.get "min_path_length"
  minSamplingDistance := s.get "min_sampling_distance"
  maxPathLength := s.get "max_path_length"
  cropping := s.get "path_cropping_length"
  maxNeighbors := s.get "max_number_of_neighbors"
  maxRewiring := s.get "maximum_rewiring_iterations"
  seed := s.get "seed"
  shown := s.entries }

/-- The 32-bit words of a whole number of a seed; a negative one has none. -/
def numberWords (n : Int) : Except Error (List Nat) :=
  if n < 0 then .error .badValue else .ok (SeedSequence.words n.toNat)

/-- The value of a hexadecimal digit. -/
def hexDigit (c : Char) : Option Nat :=
  if c.isDigit then some (c.toNat - '0'.toNat)
  else if 'a' ≤ c ∧ c ≤ 'f' then some (c.toNat - 'a'.toNat + 10)
  else if 'A' ≤ c ∧ c ≤ 'F' then some (c.toNat - 'A'.toNat + 10)
  else none

/-- The whole number a text of a seed stands for: hexadecimal after `0x`, else decimal. -/
def textNumber (t : String) : Option Int :=
  match t.toList with
  | '0' :: x :: rest =>
    if x == 'x' || x == 'X' then do
      let ds ← (Loose.strip rest).mapM hexDigit
      if ds.isEmpty then none else some (ds.foldl (fun n d => 16 * n + d) 0 : Nat)
    else Loose.readInt t
  | _ => Loose.readInt t

mutual

/-- The entropy words of a part of a seed: a whole number (or truth value) by its 32-bit words,
a text by the number it stands for, a list or object by the words of its items or keys in order.
A double is the wrong kind, and so is `null`. -/
def entropyWords : Value → Except Error (List Nat)
  | .int n => numberWords n
  | .bool b => .ok [if b then 1 else 0]
  | .str t => match textNumber t with
    | some n => numberWords n
    | none => .error .badValue
  | .list xs => entropyItems xs
  | .dict kvs => entropyKeys kvs
  | .num _ | .null => .error .wrongType

/-- The entropy words of the items of a list, one after another. -/
def entropyItems : List Value → Except Error (List Nat)
  | [] => .ok []
  | x :: xs => do return (← entropyWords x) ++ (← entropyItems xs)

/-- The entropy words of the keys of an object, one after another. -/
def entropyKeys : List (String × Value) → Except Error (List Nat)
  | [] => .ok []
  | (k, _) :: kvs => do return (← entropyWords (.str k)) ++ (← entropyKeys kvs)

end

/-- The random generator of the seed setting. A seed equal to zero (or absent) stands for a seed
taken from the clock, which is replaced by zero here; otherwise a whole number or a list of seed
parts gives its entropy words, and any other kind is refused. -/
def generator (cfg : LocalSettings) : Except Error Pcg64 :=
  match cfg.seed with
  | .null => .ok (Pcg64.ofSeed 0)
  | .num x => if x == 0.0 then .ok (Pcg64.ofSeed 0) else .error .wrongType
  | .int _ | .bool _ | .list _ => do return Pcg64.ofEntropy (← entropyWords cfg.seed)
  | _ => .error .wrongType

end LocalSettings

/-- How the gain of a pose is judged. -/
inductive GainModel where
  /-- Every pose gains one. -/
  | constant
  /-- A linear score of the position, `max 0 (a · p + b)`, its weights kept as given. -/
  | linear (a b : Value)
  /-- The number of unseen cells the lidar sees. -/
  | lidar (l : Lidar)
  /-- No model was given: judging a pose fails. -/
  | missing
  deriving Inhabited

namespace GainModel

/-- The product of linear weights with a position, as one double. The weights are read as an
array whose last axis has three entries: a single row gives its dot product with the position.
An array of no axes or of another last length does not multiply with a point
(`Error.badValue`); any number of rows but one gives other than one number (`Error.wrongType`). -/
def weighted (a : Value) (p : Vec3) : Except Error Float := do
  let (shape, entries) ← a.toArray
  match shape.getLast?, entries with
  | some 3, [x, y, z] =>
    let w : Vec3 := ⟨x, y, z⟩
    .ok (if shape.length = 1 then w.dot p else w.rowDot p)
  | some 3, _ => .error .wrongType
  | _, _ => .error .badValue

/-- The gain of a pose. -/
def gain (g : GainModel) (m : VoxelMap) (p : Pose) : Except Error Float :=
  match g with
  | constant => .ok 1.0
  | linear a b => do
    let x := (← weighted a p.position) + (← b.toNumber)
    .ok (if x > 0.0 then x else 0.0)
  | lidar l => l.gain m p
  | missing => .error .missingPart

/-- The centres of the unseen cells seen from a pose; none for a model without cells. -/
def visibleCentres (g : GainModel) (m : VoxelMap) (p : Pose) : Except Error (List Vec3) :=
  match g with
  | lidar l => do .ok ((← l.visible m p).map m.frame.centre)
  | missing => .error .missingPart
  | _ => .ok []

end GainModel

/-- Counts kept by the local planner since its last reset. -/
structure PlannerStats where
  newPoints : Int := 0
  prunedPoints : Int := 0
  samplingFailures : Int := 0
  connectionFailures : Int := 0
  waypoints : Int := 0
  noCandidate : Int := 0
  /-- The local samples still to draw around the current root, of the kind of the setting it
  started from. -/
  localQuota : Value := .int 0
  rewiringRounds : Int := 0
  deriving Inhabited

/-- The local planner. -/
structure LocalPlanner where
  settings : LocalSettings
  gainModel : GainModel
  rng : Pcg64
  stats : PlannerStats := {}
  /-- The phases timed since the last reset, in the order first timed. -/
  phases : List String := []
  tree : ViewpointTree := {}
  /-- The connection being flown. -/
  current : Option Link := none
  shouldUpdate : Bool := false
  initialized : Bool := false
  deriving Inhabited

/-- What the local planner works on: itself and the mission it shares with the supervisor. -/
structure LocalRun where
  planner : LocalPlanner
  mission : Mission
  deriving Inhabited

/-- What the planner consults and does not change: the map, and whether the map knows the
robot's position. -/
structure Scene where
  map : VoxelMap
  seesRobot : Bool
  deriving Inhabited

/-- Computations of the local planner whose failures keep the changes made before them. -/
abbrev LocalM := EStateM Error LocalRun

namespace LocalPlanner

/-- Runs a computation on the tree. -/
def onTree {α : Type} (act : TreeM α) : LocalM α := fun r =>
  match act r.planner.tree with
  | .ok a t => .ok a { r with planner := { r.planner with tree := t } }
  | .error e t => .error e { r with planner := { r.planner with tree := t } }

/-- The planner. -/
def planner : LocalM LocalPlanner := do return (← get).planner

/-- Changes the planner. -/
def alter (f : LocalPlanner → LocalPlanner) : LocalM Unit :=
  modify fun r => { r with planner := f r.planner }

/-- Changes the counts. -/
def count (f : PlannerStats → PlannerStats) : LocalM Unit :=
  alter fun p => { p with stats := f p.stats }

/-- Changes the mission. -/
def steer (f : Mission → Mission) : LocalM Unit :=
  modify fun r => { r with mission := f r.mission }

/-- Notes that a phase is timed. -/
def phase (name : String) : LocalM Unit :=
  alter fun p => if p.phases.contains name then p else { p with phases := p.phases ++ [name] }

/-- A uniform draw in `[0, 1)`. -/
def draw : LocalM Float := do
  let p ← planner
  let (x, g) := p.rng.uniform
  alter fun p => { p with rng := g }
  return x

/-- The traversability test of the active region, with the robot where the mission says. -/
def clear (sc : Scene) : LocalM (Vec3 → Except Error Bool) := do
  let r ← get
  let robot := if sc.seesRobot then some r.mission.pose.position else none
  return sc.map.traversableActive robot

/-- Lifts a result that may fail. -/
def lift {α : Type} (x : Except Error α) : LocalM α :=
  match x with
  | .ok a => pure a
  | .error e => throw e

/-- Empties the tree around a root at `origin` and starts the counts and the clock afresh. -/
def resetAt (origin : Pose) : LocalM Unit := do
  let _ ← onTree (ViewpointTree.reset origin)
  alter fun p => { p with current := none, shouldUpdate := false, initialized := true,
                          stats := { localQuota := p.settings.minLocalPoints }, phases := [] }

/-- The larger of two doubles, the first when neither is larger. -/
def larger (a b : Float) : Float := if b > a then b else a

/-- How far a ray advances from distance `s` by steps of `inc` while the distance is below
`limit` and the ray is traversable there (`free`); at most `fuel` steps. The distances may be of
any ordered kind; the planner measures them in doubles. -/
def advance {K : Type} [Add K] [LT K] [DecidableLT K] (free : K → Except Error Bool)
    (inc limit : K) : Nat → K → Except Error K
  | 0, s => .ok s
  | fuel + 1, s => do
    if s < limit then
      if ← free s then advance free inc limit fuel (s + inc) else .ok s
    else .ok s

/-- The steps the planner allows a march of doubles: as many as there are bit patterns of a
double. A march that stops never comes back to a distance it had, so it stops within them; one
that comes back never stops. -/
def marchFuel : Nat := Nat.pow 2 64

/-- Samples the pose of a new viewpoint; none when the ray is too short or no viewpoint is
near. -/
def sample (sc : Scene) : LocalM (Option Pose) := do
  let p ← planner
  let cfg := p.settings
  let pi := 3.141592653589793
  let theta := 2.0 * pi * (← draw)
  let phi := Float.acos (1.0 - 2.0 * (← draw))
  let rho ← lift (do
    if ← Value.lessThan (.int 0) p.stats.localQuota then cfg.localRadius.toNumber
    else cfg.globalRadius.toNumber)
  let here := (← get).mission.pose.position
  let u : Vec3 := ⟨phi.sin * theta.cos, phi.sin * theta.sin, phi.cos⟩
  let goal : Vec3 := ⟨here.x + rho * u.x, here.y + rho * u.y, here.z + rho * u.z⟩
  match ← onTree (ViewpointTree.nearest goal (.int 1)) with
  | [] => return none
  | n :: _ =>
    let origin := n.position
    let delta := goal - origin
    let distance := delta.norm
    if distance < 1e-9 then return none
    let dir := delta.divBy distance
    let limit ← lift (do
      let capped ← Value.smaller (← Value.larger (.num distance) cfg.minSamplingDistance) cfg.maxPathLength
      return (← capped.toNumber) + (← cfg.cropping.toNumber))
    let inc := sc.map.frame.size
    let ok ← clear sc
    let probe (s : Float) : Vec3 := ⟨origin.x + s * dir.x, origin.y + s * dir.y, origin.z + s * dir.z⟩
    let reach := (← lift (advance (fun s => ok (probe s)) inc limit marchFuel inc)) -
      ((← lift cfg.cropping.toNumber) + inc)
    if ← lift (Value.lessThan (.num reach) cfg.minSamplingDistance) then return none
    let pos : Vec3 := ⟨origin.x + reach * dir.x, origin.y + reach * dir.y, origin.z + reach * dir.z⟩
    let yaw := 2.0 * pi * (← draw)
    return some (Pose.ofPosition pos yaw)

/-- Tries to connect viewpoint `s`, at `p`, to each of the viewpoints `nbs` within the allowed
path lengths; whether some connection was made. -/
def connectEach (sc : Scene) (cfg : LocalSettings) (s : Nat) (p : Vec3) :
    List Viewpoint → LocalM Bool
  | [] => return false
  | nb :: nbs => do
    let d := (p - nb.position).norm
    if ← lift (Value.lessThan cfg.maxPathLength (.num d)) then connectEach sc cfg s p nbs
    else if ← lift (Value.lessThan (.num d) cfg.minPathLength) then connectEach sc cfg s p nbs
    else
      let ok ← clear sc
      let made := (← onTree (ViewpointTree.tryConnect s nb.serial sc.map.frame.size ok)).isSome
      let rest ← connectEach sc cfg s p nbs
      return made || rest

/-- Connects a new viewpoint to its nearest tree viewpoints within the allowed path lengths;
the first connection made becomes active. -/
def connect (sc : Scene) (s : Nat) : LocalM Bool := do
  let cfg := (← planner).settings
  let v ← onTree (ViewpointTree.get s)
  let nbs ← onTree (ViewpointTree.nearest v.position cfg.maxNeighbors)
  if nbs.isEmpty then return false
  let found ← connectEach sc cfg s v.position nbs
  if found then onTree (ViewpointTree.update s fun v => { v with active := .int 0 })
  return found

/-- Judges the gain of a viewpoint. -/
def evaluate (sc : Scene) (s : Nat) : LocalM Unit := do
  let v ← onTree (ViewpointTree.get s)
  let g ← lift ((← planner).gainModel.gain sc.map v.pose)
  onTree (ViewpointTree.update s fun v => { v with gain := g })

/-- The local quota once one more viewpoint is placed: one fewer while it is above zero. -/
def spendQuota (quota : Value) : Except Error Value := do
  if ← Value.lessThan (.int 0) quota then quota.pred else pure quota

/-- Grows the tree by one sampled viewpoint; false when sampling or connecting fails. -/
def expand (sc : Scene) : LocalM Bool := do
  phase "expand"
  match ← sample sc with
  | none =>
    count fun c => { c with samplingFailures := c.samplingFailures + 1 }
    return false
  | some pose =>
    let s ← onTree (ViewpointTree.create pose)
    if !(← connect sc s) then
      count fun c => { c with connectionFailures := c.connectionFailures + 1 }
      return false
    evaluate sc s
    let _ ← onTree (ViewpointTree.addPoint s)
    let quota ← lift (spendQuota (← planner).stats.localQuota)
    count fun c => { c with localQuota := quota, newPoints := c.newPoints + 1 }
    return true

/-- Whether a connection is the one being flown. -/
def flown (p : LocalPlanner) (l : Link) : Bool := p.current.map (·.serial) == some l.serial

/-- Re-evaluates the gains of viewpoints, taken afresh by identity; a viewpoint whose active
connection is being flown gains zero. -/
def evaluateEach (sc : Scene) : List Viewpoint → LocalM Unit
  | [] => pure ()
  | v :: vs => do
    let v ← onTree (ViewpointTree.get v.serial)
    let p ← planner
    match ← lift v.activeLink? with
    | some l =>
      if flown p l then onTree (ViewpointTree.update v.serial fun v => { v with gain := 0.0 })
      else evaluate sc v.serial
    | none => evaluate sc v.serial
    evaluateEach sc vs

/-- Re-evaluates every gain; a viewpoint whose active connection is being flown gains zero. -/
def updateGains (sc : Scene) : LocalM Unit := do
  phase "update_gains"
  evaluateEach sc (← onTree ViewpointTree.points)

/-- Drops the connections among `links` that this end made and that are no longer traversable,
never the one being flown. -/
def dropBlocked (sc : Scene) : List (Bool × Link) → LocalM Unit
  | [] => pure ()
  | (out, l) :: rest => do
    if !out || flown (← planner) l then dropBlocked sc rest
    else
      let ok ← clear sc
      if !(← lift (l.points.allM ok)) then onTree (ViewpointTree.removeLink l)
      dropBlocked sc rest

/-- Drops the blocked connections of each viewpoint, taken afresh by identity. -/
def dropBlockedEach (sc : Scene) : List Viewpoint → LocalM Unit
  | [] => pure ()
  | v :: vs => do
    let v ← onTree (ViewpointTree.get v.serial)
    dropBlocked sc v.links
    dropBlockedEach sc vs

/-- Drops the connections no longer traversable (checked once, at the end that made them; never
the one being flown), prunes and repairs; returns the number pruned. -/
def updateCollision (sc : Scene) : LocalM Int := do
  phase "update_collision"
  dropBlockedEach sc (← onTree ViewpointTree.points)
  let pruned ← onTree ViewpointTree.prune
  let _ ← onTree ViewpointTree.repair
  count fun c => { c with prunedPoints := c.prunedPoints + pruned }
  return pruned

/-- The best gain-per-cost ratio over the viewpoints on the stack and below them, depth first,
at most `fuel` of them taken: each entry carries the gain and cost gathered above it. A viewpoint
met twice is a broken tree. -/
def spread (best : Float) : Nat → List Int → List (Viewpoint × Float × Float) → LocalM Float
  | 0, _, _ => return best
  | _ + 1, _, [] => return best
  | fuel + 1, seen, (node, g, c) :: rest => do
    if seen.contains node.id then throw (.revisited node.id)
    let some l ← lift node.activeLink? | throw .missingPart
    let g := g + node.gain
    let c := c + l.cost
    let best := if c > 0.0 then larger best (g / c) else best
    let kids ← onTree (ViewpointTree.children node)
    spread best fuel (node.id :: seen) (kids.foldl (fun st child => (child, g, c) :: st) rest)

/-- The best gain-per-cost ratio over a viewpoint's subtree, `gain` and `cost` gathered above
it; a viewpoint met twice is a broken tree. -/
def gainPerCost (start : Viewpoint) (gain cost : Float) : LocalM Float := do
  let n ← onTree ViewpointTree.size
  spread 0.0 (n + 3) [] [(start, gain, cost)]

/-- The gain and cost gathered along the active chain from `cur` up to the root, not counting
the root, at most `fuel` viewpoints taken; more than `n` steps is a loop, reported for `v`. -/
def gather (v : Viewpoint) (n : Nat) :
    Nat → Nat → Option Viewpoint → Float → Float → LocalM (Float × Float)
  | 0, _, _, gain, cost => return (gain, cost)
  | fuel + 1, steps, cur, gain, cost =>
    match cur with
    | none => return (gain, cost)
    | some c =>
      if c.isRoot then return (gain, cost)
      else do
        let some l ← lift c.activeLink? | throw .missingPart
        let next ← onTree (ViewpointTree.parent? c)
        if steps + 1 > n then throw (.parentLoop v.id)
        gather v n fuel (steps + 1) next (gain + c.gain) (cost + l.cost)

/-- Computes and records a viewpoint's value. -/
def computeValue (s : Nat) : LocalM Float := do
  let v ← onTree (ViewpointTree.get s)
  if v.isRoot then
    onTree (ViewpointTree.update s fun v => { v with value := 0.0 })
    return 0.0
  let n ← onTree ViewpointTree.size
  let (gain, cost) ← gather v n (n + 2) 0 (← onTree (ViewpointTree.parent? v)) 0.0 0.0
  let value ← gainPerCost v gain cost
  onTree (ViewpointTree.update s fun v => { v with value })
  return value

/-- Whether the active chain from `cur` reaches the root without coming back to viewpoint `s`,
within `fuel` steps; a walk that does not stop by then is a loop, reported for `v`. -/
def climbFrom (s : Nat) (v : Viewpoint) : Nat → Viewpoint → LocalM Bool
  | 0, _ => throw (.parentLoop v.id)
  | fuel + 1, cur => do
    match ← onTree (ViewpointTree.parent? cur) with
    | none => return false
    | some p =>
      if p.serial == s then return false
      if p.isRoot then return true
      climbFrom s v fuel p

/-- Whether a viewpoint's active chain reaches the root without coming back to it; a longer
walk is a broken tree. -/
def reachesRoot (s : Nat) : LocalM Bool := do
  let v ← onTree (ViewpointTree.get s)
  let n ← onTree ViewpointTree.size
  climbFrom s v (n + 1) v

/-- Tries each place `i` of `is` as the active connection of viewpoint `s`, keeping the place of
highest value among those whose chain reaches the root (the first of equal ones). -/
def tryEach (s : Nat) : List Nat → Float → Int → LocalM (Float × Int)
  | [], best, bestIdx => return (best, bestIdx)
  | i :: is, best, bestIdx => do
    onTree (ViewpointTree.update s fun v => { v with active := .int i })
    if !(← reachesRoot s) then tryEach s is best bestIdx
    else
      let value ← computeValue s
      if value > best then tryEach s is value i else tryEach s is best bestIdx

/-- Makes active the connection of highest value whose chain reaches the root; false (and the
active connection kept) when none does. -/
def selectBest (s : Nat) : LocalM Bool := do
  let v ← onTree (ViewpointTree.get s)
  if v.links.isEmpty || v.isRoot then return false
  let before := v.active
  let (best, bestIdx) ← tryEach s (List.range v.links.length) (-((1.0 : Float) / 0.0)) (-1)
  if bestIdx < 0 then
    onTree (ViewpointTree.update s fun v => { v with active := before })
    return false
  onTree (ViewpointTree.update s fun v => { v with active := .int bestIdx, value := best })
  return true

/-- The local quota left once each of `near` within the local radius of `goal` takes one. -/
def countNear (cfg : LocalSettings) (goal : Vec3) : List Viewpoint → Value → LocalM Value
  | [], quota => return quota
  | v :: vs, quota => do
    if ← lift (Value.atMost (.num (v.position - goal).norm) cfg.localRadius) then
      countNear cfg goal vs (← lift quota.pred)
    else countNear cfg goal vs quota

/-- Keeps the local quota: the local samples still wanted near a new root, one fewer for each of
its nearest viewpoints within the local radius. -/
def refreshQuota (s : Nat) : LocalM Unit := do
  let cfg := (← planner).settings
  if ← lift (Value.atMost cfg.minLocalPoints (.int 0)) then
    count fun c => { c with localQuota := .int 0 }
    return
  let goal := (← onTree (ViewpointTree.get s)).position
  let near ← onTree (ViewpointTree.nearest goal cfg.minLocalPoints)
  let quota ← countNear cfg goal near cfg.minLocalPoints
  count fun c => { c with localQuota := quota }

/-- One round of rewiring over viewpoints, taken afresh by identity: each one that is not the
root picks its best connection; whether some active connection changed. -/
def rewireRound : List Viewpoint → LocalM Bool
  | [] => return false
  | v :: vs => do
    let v ← onTree (ViewpointTree.get v.serial)
    if v.isRoot then rewireRound vs
    else
      let _ ← selectBest v.serial
      let changed := !(← onTree (ViewpointTree.get v.serial)).active.same v.active
      let rest ← rewireRound vs
      return changed || rest

/-- Rounds of rewiring, at most `fuel` of them, while fewer than the allowed number were made
and the last one changed something; returns the number made, counted from `rounds`. -/
def rewire (cfg : LocalSettings) : Nat → Nat → LocalM Nat
  | 0, rounds => return rounds
  | fuel + 1, rounds => do
    if !(← lift (Value.lessThan (.int rounds) cfg.maxRewiring)) then return rounds
    let changed ← rewireRound (← onTree ViewpointTree.points)
    if !changed then return rounds + 1
    rewire cfg fuel (rounds + 1)

/-- The neighbour of highest value, among the places `is` of the root's connections, whose active
connection leads to the root (the first of equal ones): its value and place. -/
def bestChild (root : Viewpoint) : List Nat → Float → Int → LocalM (Float × Int)
  | [], best, next => return (best, next)
  | i :: is, best, next => do
    let t ← onTree (ViewpointTree.neighbor root i)
    if (← lift t.activeTarget?) != some root.id then bestChild root is best next
    else if t.value > best then bestChild root is t.value i
    else bestChild root is best next

/-- Rewires, then moves the root to the neighbour of highest value whose active connection
leads to the root, and returns its pose; none for a tree of fewer than two viewpoints or
without such a neighbour. -/
def selectNext : LocalM (Option Pose) := do
  if (← onTree ViewpointTree.size) < 2 then return none
  phase "rewire"
  let _ ← onTree ViewpointTree.repair
  let cfg := (← planner).settings
  let rounds ← rewire cfg (Nat.pow 2 64) 0
  count fun c => { c with rewiringRounds := rounds }
  let root ← onTree ViewpointTree.rootPoint
  let (_, next) ← bestChild root (List.range root.links.length) (-((1.0 : Float) / 0.0)) (-1)
  if next < 0 then
    count fun c => { c with noCandidate := c.noCandidate + 1 }
    return none
  let newRoot ← onTree (ViewpointTree.neighbor root next.toNat)
  onTree (ViewpointTree.setRoot newRoot.serial)
  onTree (ViewpointTree.update root.serial fun v => { v with active := .int next })
  let root ← onTree (ViewpointTree.get root.serial)
  alter fun p => { p with current := root.links[next.toNat]?.map (·.2) }
  refreshQuota newRoot.serial
  count fun c => { c with newPoints := 0, prunedPoints := 0, waypoints := c.waypoints + 1 }
  return some (← onTree (ViewpointTree.get newRoot.serial)).pose

/-- One planning round; returns the waypoint published, if any. -/
def step (sc : Scene) : LocalM (Option Pose) := do
  let r ← get
  if !r.planner.initialized || r.mission.mode != .localPlanning then
    resetAt r.mission.pose
    steer (·.signal .localPlanning)
  if (← planner).shouldUpdate then
    updateGains sc
    alter fun p => { p with shouldUpdate := false }
  let _ ← expand sc
  if !(← get).mission.targetReached then return none
  let _ ← updateCollision sc
  let wp ← selectNext
  if let some w := wp then
    steer (·.publish w)
    alter fun p => { p with shouldUpdate := true }
  return wp

end LocalPlanner

end Exploration
