import Exploration.Command.World

/-!
# Requests on the local planner

The local planner of a world is made by `local_planner` with its settings and a gain model; the
other steps drive it, read it, or edit its tree by node id. A step that fails keeps the changes
made before the failure, in the planner and in the mission alike.
-/

namespace Exploration

namespace Command

open LocalPlanner

/-- The gain model of a spec: `"lidar"` (the world's lidar), an object `{"a"?, "b"?}` for a
linear score (`a` zero and `b` one by default, both read when a gain is judged; any other member
is refused), and the constant gain for anything else. -/
def gainModelOf (w : World) (spec : Value) : Except Error GainModel :=
  match spec with
  | .str "lidar" => .ok (match w.lidar with
    | some l => .lidar l
    | none => .missing)
  | .dict kvs =>
    if kvs.any (fun (k, _) => k != "a" && k != "b") then .error .wrongType
    else .ok (.linear (field spec "a" (Value.ints [0, 0, 0])) (field spec "b" (.num 1.0)))
  | _ => .ok .constant

/-- An index into a list of `n` items, counted from the back when negative. -/
def listIndex (i : Int) (n : Nat) : Except Error Nat :=
  if 0 ≤ i ∧ i < n then .ok i.toNat
  else if -(n : Int) ≤ i ∧ i < 0 then .ok (n + i).toNat
  else .error .badIndex

/-- An index that is found lies in the list. -/
theorem listIndex_lt {i : Int} {n k : Nat} (h : listIndex i n = .ok k) : k < n := by
  unfold listIndex at h
  split at h
  · cases h
    omega
  · split at h
    · cases h
      omega
    · cases h

/-- The place a value picks in a list of `n` items, as list indexing does: a whole number (or
truth value), counted from the back when negative; any other value is the wrong kind. -/
def listPlace (v : Value) (n : Nat) : Except Error Nat :=
  match v with
  | .int i => listIndex i n
  | .bool b => listIndex (if b then 1 else 0) n
  | _ => .error .wrongType

/-- The number of rounds a count stands for: a whole number (or truth value), none when
negative; any other value is the wrong kind. -/
def roundCount : Value → Except Error Nat
  | .int n => .ok n.toNat
  | .bool b => .ok (if b then 1 else 0)
  | _ => .error .wrongType

/-- Runs a computation of the local planner on a world. -/
def World.runLocal (w : World) (act : Scene → LocalM Value) : World × Reply :=
  match w.localPlanner with
  | none => (w, .error .missingPart)
  | some p =>
    let sc : Scene := { map := w.map, seesRobot := w.seesRobot }
    match (act sc).run { planner := p, mission := w.mission } with
    | .ok v r => ({ w with localPlanner := some r.planner, mission := r.mission }, .ok v)
    | .error e r => ({ w with localPlanner := some r.planner, mission := r.mission }, .error e)

/-- A world with a new local planner. A viewpoint kept aside by `connect` stays kept aside: it
is carried into the new planner's store with its node id and connections. -/
def World.withPlanner (w : World) (p : LocalPlanner) : World :=
  match w.pending, w.localPlanner with
  | some s, some old =>
    let v := old.tree.objects.getD s default
    let t := p.tree
    let fresh := t.fresh
    let tree := { t with fresh := fresh + 1, objects := t.objects.insert fresh { v with serial := fresh } }
    { w with localPlanner := some { p with tree }, pending := some fresh }
  | _, _ => { w with localPlanner := some p }

/-- A decoded value inside a computation of the local planner. -/
def decoded {α : Type} (x : Except Error α) : LocalM α := LocalPlanner.lift x

/-- The node id a value names when used as a key: an integer, a truth value (one or zero), or a
double equal to an integer. Any other text, number or `null` names no node, and a list or an
object cannot be a key at all. -/
def nodeKey : Value → Except Error (Option Int)
  | .int n => .ok (some n)
  | .bool b => .ok (some (if b then 1 else 0))
  | .num x => .ok (match Value.truncate x with
    | .ok n => if Loose.intToFloat n == x then some n else none
    | .error _ => none)
  | .str _ | .null => .ok none
  | _ => .error .wrongType

/-- The identity of the viewpoint of a node id given by a value; a missing key when the value
names no node of the tree. -/
def nodeOf (v : Value) : LocalM Nat := do
  match ← decoded (nodeKey v) with
  | some id => onTree (ViewpointTree.slot id)
  | none => throw .missingKey

/-- The counts as an object. -/
def statsValue (s : PlannerStats) : Value :=
  .dict [("new_points", .int s.newPoints), ("pruned_points", .int s.prunedPoints),
    ("sampling_failures", .int s.samplingFailures),
    ("connection_failures", .int s.connectionFailures), ("n_waypoints", .int s.waypoints),
    ("n_no_candidate", .int s.noCandidate), ("local_sampled_points", s.localQuota),
    ("last_rewiring_iterations", .int s.rewiringRounds)]

/-- The summary of the planner: tree size, root, connection count and counts. -/
def summary : LocalM (List (String × Value)) := do
  let root ← onTree ViewpointTree.rootPoint
  let n ← onTree ViewpointTree.size
  let links ← onTree ViewpointTree.linkCount
  return [("n", .int n), ("root", .int root.id), ("n_connections", .int links),
    ("stats", statsValue (← planner).stats)]

/-- A connection as `[outgoing, id, parent, target, cost, sample count]`. -/
def linkValue (out : Bool) (l : Link) : Value :=
  .list [.bool out, .int l.id, .int l.parent, .int l.target, .num l.cost, .int l.points.length]

/-- A viewpoint as an object. -/
def viewpointValue (v : Viewpoint) : Value :=
  .dict [("id", .int v.id), ("pose", pose v.pose), ("gain", .num v.gain), ("value", .num v.value),
    ("is_root", .bool v.isRoot), ("active", v.active),
    ("connections", .list (v.links.map fun (o, l) => linkValue o l))]

/-- The ids of a list of viewpoints. -/
def idsValue (vs : List Viewpoint) : Value := Value.ints (vs.map (·.id))

/-- Connects a new viewpoint at a point to the given nodes in order, sets its active connection
and gain, and puts it into the tree. -/
def attach (sc : Scene) (step : Value) : LocalM Value := do
  let s ← onTree (ViewpointTree.create (← decoded (poseOf (← decoded (need step "p")))))
  let nbs ← decoded (items (field step "neighbors" (.list [])))
  let mut connected : Array Bool := #[]
  for nb in nbs do
    let t ← nodeOf nb
    let ok ← clear sc
    connected := connected.push (← onTree (ViewpointTree.tryConnect s t sc.map.frame.size ok)).isSome
  let active := field step "active" (.int (if connected.any id then 0 else -1))
  let gain ← decoded (field step "gain" (.num 1.0)).toReal
  onTree (ViewpointTree.update s fun v => { v with active, gain })
  let id ← onTree (ViewpointTree.addPoint s)
  return .dict [("node_id", .int id), ("connected", .list (connected.toList.map .bool))]

/-- The steps that read or change the local planner, for a world that has one. -/
def localAction (sc : Scene) (step : Value) (kind : String) : LocalM Value := do
  match kind with
  | "local_step" =>
    let wp ← LocalPlanner.step sc
    return .dict ([("waypoint", Value.ofOption pose wp)] ++ (← summary))
  | "local_steps" =>
    let n ← decoded (roundCount (← decoded (need step "n")))
    let mut out : Array Value := #[]
    for _ in [0:n] do
      if let some wp ← LocalPlanner.step sc then out := out.push (pose wp)
    return .dict ([("waypoints", .list out.toList)] ++ (← summary))
  | "reset" =>
    resetAt (← decoded (poseOf (field step "pose")))
    return .dict (← summary)
  | "expand" =>
    let n ← decoded (roundCount (field step "n" (.int 1)))
    let mut oks : Array Value := #[]
    for _ in [0:n] do
      oks := oks.push (.bool (← expand sc))
    return .dict ([("ok", .list oks.toList)] ++ (← summary))
  | "sample" => return Value.ofOption pose (← sample sc)
  | "update_gains" =>
    updateGains sc
    return .list ((← onTree ViewpointTree.points).map fun v => .num v.gain)
  | "update_collision" => return .int (← updateCollision sc)
  | "select" =>
    let wp ← selectNext
    return .dict ([("waypoint", Value.ofOption pose wp)] ++ (← summary))
  | "snapshot" =>
    let mut out : Array Value := #[]
    for v in ← onTree ViewpointTree.points do
      let parent ← onTree (ViewpointTree.parent? v)
      out := out.push (.dict [("node_id", .int v.id), ("position", vec v.position),
        ("yaw", .num v.pose.yaw), ("gain", .num v.gain), ("value", .num v.value),
        ("is_root", .bool v.isRoot), ("parent_id", Value.ofOption (fun p => .int p.id) parent),
        ("n_connections", .int v.links.length)])
    return .list out.toList
  | "candidates" =>
    let cs ← onTree candidates
    return .list (cs.map fun v => .list [.int v.id, .num v.value])
  | "check" =>
    onTree (ViewpointTree.check (Value.truthy (field step "require_all_connected" (.bool true))))
    return .str "ok"
  | "report_local" => return .str (← decoded (← planner).report)
  | "visualize_gain" =>
    let p ← decoded (poseOf (field step "pose"))
    return .list ((← decoded ((← planner).gainModel.visibleCentres sc.map p)).map vec)
  | "tree" =>
    let root ← onTree ViewpointTree.rootPoint
    let pts ← onTree ViewpointTree.points
    return .dict [("nodes", .list (pts.map viewpointValue)), ("root", .int root.id),
      ("n_points", .int pts.length),
      ("current_connection", Value.ofOption (fun l => .int l.id) (← planner).current)]
  | "attach" => attach sc step
  | "connect_nodes" =>
    let a ← nodeOf (field step "a")
    let b ← nodeOf (field step "b")
    let ok ← clear sc
    match ← onTree (ViewpointTree.tryConnect a b sc.map.frame.size ok) with
    | some l => return .dict [("id", .int l.id), ("cost", .num l.cost),
        ("path_points", .list (l.points.map vec))]
    | none => return .null
  | "set_active" =>
    let s ← nodeOf (field step "node")
    let i ← decoded (need step "index")
    onTree (ViewpointTree.update s fun v => { v with active := i })
    return .null
  | "set_gain" =>
    let s ← nodeOf (field step "node")
    let g ← decoded (← decoded (need step "gain")).toReal
    onTree (ViewpointTree.update s fun v => { v with gain := g })
    return .null
  | "set_root" =>
    onTree (ViewpointTree.setRoot (← nodeOf (field step "node")))
    return .null
  | "set_root_flag" =>
    let s ← nodeOf (field step "node")
    let flag := Value.truthy (← decoded (need step "value"))
    onTree (ViewpointTree.update s fun v => { v with isRoot := flag })
    return .null
  | "add_connection_ref" =>
    let s ← nodeOf (field step "node")
    let f ← onTree (ViewpointTree.get (← nodeOf (field step "from")))
    let out := Value.truthy (← decoded (need step "outgoing"))
    let i ← decoded (listPlace (← decoded (need step "index")) f.links.length)
    let some (_, l) := f.links[i]? | throw .badIndex
    onTree (ViewpointTree.update s fun v => { v with links := v.links ++ [(out, l)] })
    return .null
  | "compute_value" => return .num (← computeValue (← nodeOf (field step "node")))
  | "select_best" =>
    let s ← nodeOf (field step "node")
    let ok ← selectBest s
    let v ← onTree (ViewpointTree.get s)
    return .dict [("ok", .bool ok), ("active", v.active), ("value", .num v.value)]
  | "remove_connection" =>
    let v ← onTree (ViewpointTree.get (← nodeOf (field step "node")))
    let i ← decoded (listPlace (← decoded (need step "index")) v.links.length)
    let some (_, l) := v.links[i]? | throw .badIndex
    onTree (ViewpointTree.removeLink l)
    return .null
  | "repair" => return .int (← onTree ViewpointTree.repair)
  | "prune" => return .int (← onTree ViewpointTree.prune)
  | "reachable" =>
    let seen ← onTree (ViewpointTree.reached (Value.truthy (field step "only_active")))
    let pts ← onTree ViewpointTree.points
    return .dict [("n", .int seen.length),
      ("ids", Value.ints ((pts.filter fun v => seen.contains v.id).map (·.id)))]
  | "tree_knn" =>
    let p ← decoded (field step "p").toPoint
    return idsValue (← onTree (ViewpointTree.nearest p (field step "k")))
  | "parent" =>
    let v ← onTree (ViewpointTree.get (← nodeOf (field step "node")))
    return Value.ofOption (fun p => .int p.id) (← onTree (ViewpointTree.parent? v))
  | "children" =>
    let v ← onTree (ViewpointTree.get (← nodeOf (field step "node")))
    return idsValue (← onTree (ViewpointTree.children v))
  | "chain_reaches_root" =>
    let v ← onTree (ViewpointTree.get (← nodeOf (field step "node")))
    return .bool (← onTree (ViewpointTree.chainReachesRoot v))
  | "contains" =>
    match ← decoded (nodeKey (field step "node")) with
    | some id => return .bool (← onTree (ViewpointTree.contains id))
    | none => return .bool false
  | "active_connection" =>
    let v ← onTree (ViewpointTree.get (← nodeOf (field step "node")))
    return Value.ofOption (fun (l : Link) => .int l.id) (← decoded v.activeLink?)
  | _ => throw .missingKey

/-- The names of the steps of `localAction`. -/
def localKinds : List String :=
  ["local_step", "local_steps", "reset", "expand", "sample", "update_gains", "update_collision",
   "select", "snapshot", "candidates", "check", "report_local", "visualize_gain", "tree",
   "attach", "connect_nodes", "set_active", "set_gain", "set_root", "set_root_flag",
   "add_connection_ref", "compute_value", "select_best", "remove_connection", "repair", "prune",
   "reachable", "tree_knn", "parent", "children", "chain_reaches_root", "contains",
   "active_connection"]

/-- `connect`: a viewpoint at a point is connected to the tree, put into it when that succeeds
and `insert` is not false, and kept aside either way. -/
def connectStep (w : World) (step : Value) : World × Reply :=
  let run := w.runLocal fun sc => do
    let s ← onTree (ViewpointTree.create (← decoded (poseOf (← decoded (need step "p")))))
    let ok ← LocalPlanner.connect sc s
    if ok && Value.truthy (field step "insert" (.bool true)) then
      let _ ← onTree (ViewpointTree.addPoint s)
    let v ← onTree (ViewpointTree.get s)
    let targets := (List.range v.links.length).filterMap v.connectedId?
    return .dict [("ok", .bool ok), ("node_id", .int v.id), ("active", v.active),
      ("targets", Value.ints targets), ("serial", .int s)]
  match run with
  | (w', .ok (.dict kvs)) =>
    let serial := match kvs.find? (·.1 == "serial") with
      | some (_, .int n) => some n.toNat
      | _ => none
    ({ w' with pending := serial }, .ok (.dict (kvs.filter (·.1 != "serial"))))
  | other => other

/-- The steps on the local planner; none for a step of another kind. -/
def localStep (w : World) (step : Value) : Option (World × Reply) :=
  match field step "do" with
  | .str "local_planner" => some <| match (do
      let gain ← gainModelOf w (field step "gain")
      let cfg := LocalSettings.ofSettings (← Settings.read .localPlanner (field step "config" (.dict [])))
      .ok { settings := cfg, gainModel := gain, rng := ← cfg.generator : LocalPlanner }) with
    | .ok p => (w.withPlanner p, .ok .null)
    | .error e => (w, .error e)
  | .str "connect" => some (connectStep w step)
  | .str "insert_pending" => some <| match w.pending with
    | none => (w, .error .missingPart)
    | some s => w.runLocal fun _ => do return .int (← onTree (ViewpointTree.addPoint s))
  | .str k => if localKinds.contains k then some (w.runLocal fun sc => localAction sc step k) else none
  | _ => none

end Command

end Exploration
