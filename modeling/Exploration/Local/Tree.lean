import Std.Data.HashMap
import Exploration.SpatialIndex
import Exploration.Geometry.Transform
import Exploration.Json.Loose

/-!
# The viewpoint tree

Candidate viewpoints of the local planner and the straight connections between them, checked
against the map. One viewpoint is the root (where the robot is or is going). Every viewpoint
holds its connections in the order they were made, each marked outgoing at the end that made it,
and points at one of them as its active connection: the step towards the root.

The tree keeps its viewpoints as objects with an identity (`serial`): a viewpoint can be held
outside the tree (a candidate being connected, or one kept aside), and a change to it is seen
wherever it is held. The arena lists the viewpoints in the tree by node id, in the order they
entered; node ids and connection ids count up from zero from the last reset. Connections are
values with an identity of their own.

Operations report their failures as `Error`s and keep every change made before the failure
(`TreeM`, a state monad whose errors carry the state).

* `tryConnect` samples the segment between two viewpoints at `n + 1` points,
  `n = max 1 ⌊length / edge⌋`, ends included, and adds the connection at both ends when every
  point is traversable. The viewpoint that starts it gets a node id if it has none, whether or
  not the connection is made.
* `removeLink` drops a connection at both ends (the first entry of its id at each), shifting
  the active connection of each end.
* `reached` marks the viewpoints connected to a root-flagged viewpoint, breadth first, by any
  connection or only by active connections that point back.
* `repair` points every viewpoint not reached by active connections at its first neighbour that
  is reached, round after round while that attaches some.
* `prune` drops every viewpoint not connected to a root by any connection and rebuilds the
  nearest-neighbour index.
-/

namespace Exploration

/-- A straight connection between two viewpoints. -/
structure Link where
  /-- Which connection this is. -/
  serial : Nat
  id : Nat
  parent : Int
  target : Int
  /-- The sample points checked when the connection was made. -/
  points : List Vec3
  cost : Float
  deriving Inhabited

namespace Link

/-- The end of the connection that is not `node`. -/
def otherEnd (l : Link) (node : Int) : Int := if l.parent == node then l.target else l.parent

end Link

/-- A candidate viewpoint. -/
structure Viewpoint where
  /-- Which viewpoint this is. -/
  serial : Nat
  id : Int := -1
  pose : Pose
  gain : Float := 0.0
  value : Float := 0.0
  isRoot : Bool := false
  /-- The place of the active connection among those held, `-1` for none. It is kept as it was
  set, which by hand may be any value: it is compared with the number of connections, and it
  picks a connection only when it is a whole number. -/
  active : Value := .int (-1)
  /-- The connections held, each with whether this end made it. -/
  links : List (Bool × Link) := []
  deriving Inhabited

namespace Viewpoint

/-- The position. -/
def position (v : Viewpoint) : Vec3 := v.pose.position

/-- The node at the other end of the `i`-th connection. -/
def connectedId? (v : Viewpoint) (i : Nat) : Option Int :=
  v.links[i]?.map fun (out, l) => if out then l.target else l.parent

/-- Whether the active connection is one of the connections held: `0 ≤ active` and then
`active < count`, in the loose order of values, so an active value with no order against
numbers fails. -/
def hasActive (v : Viewpoint) : Except Error Bool := do
  if ← Value.atMost (.int 0) v.active then Value.lessThan v.active (.int v.links.length)
  else return false

/-- The place of the active connection when it is one held; a value in range that is not a whole
number (or truth value) picks no connection and is the wrong kind. -/
def activeIndex? (v : Viewpoint) : Except Error (Option Nat) := do
  if ← v.hasActive then
    match v.active with
    | .int n => return some n.toNat
    | .bool b => return some (if b then 1 else 0)
    | _ => throw .wrongType
  else return none

/-- The active connection, if it is one held. -/
def activeLink? (v : Viewpoint) : Except Error (Option Link) := do
  return (← v.activeIndex?).bind fun i => v.links[i]?.map (·.2)

/-- The node the active connection leads to, if it is one held. -/
def activeTarget? (v : Viewpoint) : Except Error (Option Int) := do
  return (← v.activeIndex?).bind v.connectedId?

/-- Drops the `i`-th connection. -/
def dropLink (v : Viewpoint) (i : Nat) : Viewpoint := { v with links := v.links.eraseIdx i }

/-- Dropping a held connection leaves one fewer. -/
theorem dropLink_length (v : Viewpoint) (i : Nat) (h : i < v.links.length) :
    (v.dropLink i).links.length = v.links.length - 1 := by
  simp [dropLink, List.length_eraseIdx, h]

/-- The active place once the `i`-th connection is dropped: none if it was that one, one less if
it came after it, else the same. -/
def shiftActive (active : Value) (i : Nat) : Except Error Value := do
  if active.same (.int i) then return .int (-1)
  else if ← Value.lessThan (.int i) active then active.pred
  else return active

end Viewpoint

/-- The viewpoint tree. -/
structure ViewpointTree where
  /-- Every viewpoint ever made, by identity. -/
  objects : Std.HashMap Nat Viewpoint := {}
  /-- The node ids of the viewpoints in the tree, in the order they entered. -/
  arena : List Int := []
  /-- The identity of the viewpoint of each node id in the tree. -/
  slots : Std.HashMap Int Nat := {}
  index : SpatialIndex Int := {}
  /-- The identity of the root. -/
  root : Option Nat := none
  nextNode : Int := 0
  nextLink : Nat := 0
  /-- The next fresh identity. -/
  fresh : Nat := 0
  deriving Inhabited

/-- Computations on the tree whose failures keep the changes made before them. -/
abbrev TreeM := EStateM Error ViewpointTree

namespace ViewpointTree

/-- The viewpoint of an identity. -/
def get (s : Nat) : TreeM Viewpoint := do
  return (← MonadState.get).objects.getD s default

/-- Stores a viewpoint under its identity. -/
def put (v : Viewpoint) : TreeM Unit :=
  modify fun t => { t with objects := t.objects.insert v.serial v }

/-- Changes the viewpoint of an identity. -/
def update (s : Nat) (f : Viewpoint → Viewpoint) : TreeM Unit := do
  put (f (← get s))

/-- A new viewpoint outside the tree; returns its identity. -/
def create (pose : Pose) : TreeM Nat := do
  let t ← MonadState.get
  let s := t.fresh
  set { t with fresh := s + 1, objects := t.objects.insert s { serial := s, pose } }
  return s

/-- The number of viewpoints in the tree. -/
def size : TreeM Nat := do return (← MonadState.get).arena.length

/-- Whether a node id is in the tree. -/
def contains (id : Int) : TreeM Bool := do return (← MonadState.get).slots.contains id

/-- The identity of the viewpoint of a node id in the tree; a missing key otherwise. -/
def slot (id : Int) : TreeM Nat := do
  match (← MonadState.get).slots.get? id with
  | some s => return s
  | none => throw .missingKey

/-- The viewpoint of a node id in the tree. -/
def point (id : Int) : TreeM Viewpoint := do get (← slot id)

/-- The viewpoint of a node id, if it is in the tree. -/
def point? (id : Int) : TreeM (Option Viewpoint) := do
  match (← MonadState.get).slots.get? id with
  | some s => return some (← get s)
  | none => return none

/-- The viewpoints in the tree, in order. -/
def points : TreeM (List Viewpoint) := do
  let t ← MonadState.get
  return t.arena.map fun id => t.objects.getD (t.slots.getD id 0) default

/-- The identity of the root; the tree must have one. -/
def rootSerial : TreeM Nat := do
  match (← MonadState.get).root with
  | some s => return s
  | none => throw .noRoot

/-- The root. -/
def rootPoint : TreeM Viewpoint := do get (← rootSerial)

/-- A fresh node id. -/
def allocate : TreeM Int := do
  let t ← MonadState.get
  set { t with nextNode := t.nextNode + 1 }
  return t.nextNode

/-- Gives a viewpoint a node id if it has none. -/
def ensureId (s : Nat) : TreeM Int := do
  let v ← get s
  if v.id < 0 then
    let id ← allocate
    put { v with id }
    return id
  else return v.id

/-- Puts a viewpoint into the tree under its node id (given one if it has none) and into the
index. A node id already in the tree is refused. -/
def addPoint (s : Nat) : TreeM Int := do
  let id ← ensureId s
  if ← contains id then throw (.nodeInTree id)
  let v ← get s
  let t ← MonadState.get
  let (index, err) := t.index.insert id v.position.toList
  set { t with arena := t.arena ++ [id], slots := t.slots.insert id s, index }
  match err with
  | some e => throw e
  | none => return id

/-- Empties the tree and puts a root at a pose; returns the root's identity. -/
def reset (origin : Pose) : TreeM Nat := do
  modify fun t => { t with arena := [], slots := {}, index := t.index.clear, nextNode := 0,
                           nextLink := 0, root := none }
  let s ← create origin
  update s fun v => { v with isRoot := true }
  let _ ← addPoint s
  modify fun t => { t with root := some s }
  return s

/-- Moves the root flag to a viewpoint. -/
def setRoot (s : Nat) : TreeM Unit := do
  let old ← rootSerial
  update old fun v => { v with isRoot := false }
  update s fun v => { v with isRoot := true }
  modify fun t => { t with root := some s }

/-- The viewpoint at the other end of the `i`-th connection of a viewpoint. -/
def neighbor (v : Viewpoint) (i : Nat) : TreeM Viewpoint := do
  match v.connectedId? i with
  | some id => point id
  | none => throw .badIndex

/-- The viewpoint the active connection leads to; none for the root, for an active connection
not held, or for an end not in the tree. -/
def parent? (v : Viewpoint) : TreeM (Option Viewpoint) := do
  if v.isRoot then return none
  match ← liftExcept v.activeTarget? with
  | some id => point? id
  | none => return none

/-- The neighbours over the connections at places `is` whose active connection leads back to a
viewpoint, in connection order. -/
def childrenAt (v : Viewpoint) : List Nat → TreeM (List Viewpoint)
  | [] => return []
  | i :: is => do
    let w ← neighbor v i
    if w.isRoot then childrenAt v is
    else if (← liftExcept w.activeTarget?) == some v.id then return w :: (← childrenAt v is)
    else childrenAt v is

/-- The neighbours whose active connection leads back to a viewpoint, in connection order. -/
def children (v : Viewpoint) : TreeM (List Viewpoint) := childrenAt v (List.range v.links.length)

/-- The sample points of the segment from `a` to `b` in `n` steps, ends included. -/
def segmentPoints (a b : Vec3) (n : Nat) : List Vec3 :=
  let d := b - a
  (List.range (n + 1)).map fun i =>
    let t := i.toFloat / n.toFloat
    ⟨a.x + t * d.x, a.y + t * d.y, a.z + t * d.z⟩

/-- A segment in `n` steps has `n + 1` sample points. -/
theorem segmentPoints_length (a b : Vec3) (n : Nat) : (segmentPoints a b n).length = n + 1 := by
  simp [segmentPoints]

/-- Connects viewpoint `src` to viewpoint `tgt` when every sample point of the segment passes
`clear`; `edge` is the cell edge of the map. -/
def tryConnect (src tgt : Nat) (edge : Float) (clear : Vec3 → Except Error Bool) :
    TreeM (Option Link) := do
  let _ ← ensureId src
  let a ← get src
  let b ← get tgt
  let delta := b.position - a.position
  let length := delta.norm
  let steps ← match Value.truncate (Binary.floor (length / edge)) with
    | .ok n => pure n
    | .error e => throw e
  let n := (max 1 steps).toNat
  let pts := segmentPoints a.position b.position n
  let passes ← match pts.allM clear with
    | .ok b => pure b
    | .error e => throw e
  if !passes then return none
  let t ← MonadState.get
  let l : Link := { serial := t.fresh, id := t.nextLink, parent := a.id, target := b.id,
                    points := pts, cost := length }
  set { t with fresh := t.fresh + 1, nextLink := t.nextLink + 1 }
  update src fun v => { v with links := v.links ++ [(true, l)] }
  update tgt fun v => { v with links := v.links ++ [(false, l)] }
  return some l

/-- Drops the first connection of a link's id from a viewpoint. -/
def detach (s : Nat) (l : Link) : TreeM Unit := do
  let v ← get s
  match v.links.findIdx? (fun (_, c) => c.id == l.id) with
  | some i =>
    let v := v.dropLink i
    put v
    put { v with active := ← liftExcept (Viewpoint.shiftActive v.active i) }
  | none => throw (.connectionNotHeld v.id l.id)

/-- Drops a connection at both ends. -/
def removeLink (l : Link) : TreeM Unit := do
  let t ← MonadState.get
  match t.slots.get? l.parent, t.slots.get? l.target with
  | some p, some q =>
    detach p l
    detach q l
  | _, _ => throw (.connectionEndMissing l.id)

/-- A set of node ids with one more, kept once. -/
def addSeen (seen : List Int) (id : Int) : List Int := if seen.contains id then seen else id :: seen

/-- The neighbours over the connections at places `is` of a viewpoint met by the search, not seen
before (with `onlyActive`, only those whose active connection leads back to it): the ids seen
then, and the neighbours newly met in connection order. -/
def visit (onlyActive : Bool) (cur : Viewpoint) : List Nat → List Int → TreeM (List Int × List Viewpoint)
  | [], seen => return (seen, [])
  | i :: is, seen => do
    let w ← neighbor cur i
    if seen.contains w.id then visit onlyActive cur is seen
    else if onlyActive then
      if (← liftExcept w.activeTarget?) != some cur.id then visit onlyActive cur is seen
      else
        let (seen, met) ← visit onlyActive cur is (addSeen seen w.id)
        return (seen, w :: met)
    else
      let (seen, met) ← visit onlyActive cur is (addSeen seen w.id)
      return (seen, w :: met)

/-- The breadth-first search from a queue of viewpoints, at most `fuel` of them taken. -/
def search (onlyActive : Bool) : Nat → List Int → List Viewpoint → TreeM (List Int)
  | 0, seen, _ => return seen
  | _ + 1, seen, [] => return seen
  | fuel + 1, seen, cur :: rest => do
    let (seen, met) ← visit onlyActive cur (List.range cur.links.length) seen
    search onlyActive fuel seen (rest ++ met)

/-- The node ids connected to a root-flagged viewpoint, found breadth first from the roots; with
`onlyActive`, a neighbour counts only when its active connection leads back. -/
def reached (onlyActive : Bool) : TreeM (List Int) := do
  let pts ← points
  let roots := pts.filter (·.isRoot)
  search onlyActive (pts.length + 1) (roots.foldl (fun seen v => addSeen seen v.id) []) roots

/-- The place of the first connection of a viewpoint, among the places `is`, whose other end is
seen. -/
def firstSeen (seen : List Int) (v : Viewpoint) : List Nat → TreeM (Option Nat)
  | [] => return none
  | i :: is => do
    let w ← neighbor v i
    if seen.contains w.id then return some i else firstSeen seen v is

/-- One round of the repair over the pending node ids, in order: each pending viewpoint with a
seen neighbour is pointed at the first one and becomes seen. Returns the ids seen then, the
number attached and the ids still pending. -/
def attachRound : List Int → List Int → TreeM (List Int × Nat × List Int)
  | [], seen => return (seen, 0, [])
  | id :: ids, seen => do
    let s ← slot id
    let v ← get s
    match ← firstSeen seen v (List.range v.links.length) with
    | some i =>
      put { v with active := .int i }
      let (seen, n, later) ← attachRound ids (addSeen seen v.id)
      return (seen, n + 1, later)
    | none =>
      let (seen, n, later) ← attachRound ids seen
      return (seen, n, id :: later)

/-- Rounds of the repair, at most `fuel` of them, while viewpoints are pending and the last round
attached some; returns the number attached, counted from `attached`. -/
def repairRounds : Nat → List Int → List Int → Nat → TreeM Nat
  | 0, _, _, attached => return attached
  | fuel + 1, seen, pending, attached => do
    if pending.isEmpty then return attached
    let (seen, n, later) ← attachRound pending seen
    if n == 0 then return attached
    repairRounds fuel seen later (attached + n)

/-- Points every viewpoint not reached by active connections at its first neighbour that is
reached, round after round while that attaches some; returns the number attached. -/
def repair : TreeM Nat := do
  let seen ← reached true
  let pending := (← points).filterMap fun v => if seen.contains v.id then none else some v.id
  repairRounds (pending.length + 1) seen pending 0

/-- Rebuilds the index from the viewpoints in the tree. -/
def rebuildIndex : TreeM Unit := do
  let pts ← points
  let t ← MonadState.get
  let (index, err) := t.index.rebuild (pts.map fun v => (v.id, v.position.toList))
  set { t with index }
  match err with
  | some e => throw e
  | none => pure ()

/-- Drops every viewpoint not connected to a root by any connection; returns their number. -/
def prune : TreeM Nat := do
  let seen ← reached false
  let t ← MonadState.get
  let gone := t.arena.filter fun id => !seen.contains id
  set { t with arena := t.arena.filter seen.contains,
               slots := gone.foldl (fun m id => m.erase id) t.slots }
  rebuildIndex
  return gone.length

/-- The viewpoints of the `k` index entries nearest a point, nearest first. -/
def nearest (p : Vec3) (k : Value) : TreeM (List Viewpoint) := do
  match (← MonadState.get).index.nearest p.toList k with
  | .ok found => found.mapM fun (id, _) => point id
  | .error e => throw e

/-- Whether following active connections from `cur` reaches the root within `fuel - 1` steps; a
walk that does not stop by then is a cycle, reported for `start`. -/
def climb (start : Viewpoint) : Nat → Viewpoint → TreeM Bool
  | 0, _ => throw (.activeChainCycle start.id)
  | fuel + 1, cur => do
    if cur.isRoot then return true
    match ← parent? cur with
    | none => return false
    | some p => climb start fuel p

/-- Whether following active connections from a viewpoint reaches the root; a walk longer than
the tree is a cycle. -/
def chainReachesRoot (v : Viewpoint) : TreeM Bool := do
  climb v ((← size) + 1) v

/-- Checks that every connection held by a viewpoint has the right direction and is held by its
other end. -/
def checkLinks (v : Viewpoint) : List (Bool × Link) → TreeM Unit
  | [] => pure ()
  | (out, l) :: rest => do
    let own := if out then l.parent else l.target
    if own != v.id then throw (.wrongDirection v.id l.id)
    match ← point? (l.otherEnd v.id) with
    | none => throw (.asymmetric l.id)
    | some w => if !(w.links.any fun (_, c) => c.id == l.id) then throw (.asymmetric l.id)
    checkLinks v rest

/-- Checks the connections of each viewpoint, then that its active chain reaches the root (when
`requireAll`; a cycle is refused in any case). -/
def checkPoints (requireAll : Bool) : List Viewpoint → TreeM Unit
  | [] => pure ()
  | v :: vs => do
    checkLinks v v.links
    if !v.isRoot then
      let ok ← chainReachesRoot v
      if requireAll && !ok then throw (.rootUnreachable v.id)
    checkPoints requireAll vs

/-- Checks that one viewpoint is flagged root and it is the recorded root, that every connection
is held with the right direction by both ends, and that active chains reach the root (when
`requireAll`; a cycle is refused in any case). -/
def check (requireAll : Bool) : TreeM Unit := do
  let pts ← points
  let roots := pts.filter (·.isRoot)
  if roots.length != 1 then throw (.rootCount roots.length)
  let t ← MonadState.get
  if roots.head?.map (·.serial) != t.root then throw .rootFlagMismatch
  checkPoints requireAll pts

/-- The number of connections, counted at the ends that made them. -/
def linkCount : TreeM Nat := do
  return ((← points).map fun v => (v.links.filter (·.1)).length).foldr (· + ·) 0

end ViewpointTree

end Exploration
