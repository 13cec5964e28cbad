import Exploration.Command.Simple

/-!
# Requests on skeleton graphs and submaps

`{"overlap_margin"?, "steps"}` runs steps on named graphs, submaps made from them (keyed by
id) and one growing collection. A submap keeps the graph it was made from: when that graph
gains vertices or edges later, the submap's counts and ids follow, while its searched points
and common-frame points stay as they were when it was made. Graphs are told apart by when they
were made, so a name given to a new graph leaves the submaps of the old one alone.
-/

namespace Exploration

namespace Command

/-- The state of a skeleton session. -/
structure SkeletonSession where
  /-- Graph names (ids of any kind) with the serial number of the graph they name. -/
  names : List (Value × Nat) := []
  /-- Graphs by serial number. -/
  graphs : List (Nat × SkeletonGraph) := []
  /-- Submaps made by the steps, by id, with the serial of their graph. -/
  built : List (Value × Nat × Submap) := []
  collection : SubmapCollection := {}
  /-- The serial of the graph of each submap in the collection. -/
  members : List (Value × Nat) := []
  deriving Inhabited

namespace SkeletonSession

/-- The serial and graph of a name. -/
def graph (s : SkeletonSession) (name : Value) : Except Error (Nat × SkeletonGraph) := do
  let name ← name.toKey
  let some (_, serial) := Value.lookup? s.names name | .error .missingKey
  match s.graphs.find? (·.1 == serial) with
  | some (_, g) => .ok (serial, g)
  | none => .error .missingKey

/-- Whether a submap of the collection was made from the graph of a serial. -/
def member (s : SkeletonSession) (serial : Nat) (m : Submap) : Bool :=
  s.members.any fun (id, k) => id.same m.id && k == serial

/-- Replaces the graph of a serial everywhere it is held. -/
def update (s : SkeletonSession) (serial : Nat) (g : SkeletonGraph) : SkeletonSession :=
  let regraph := fun (m : Submap) => { m with graph := g }
  { s with
    graphs := s.graphs.map fun (k, h) => if k == serial then (k, g) else (k, h)
    built := s.built.map fun (id, k, m) => if k == serial then (id, k, regraph m) else (id, k, m)
    collection := { s.collection with
      submaps := s.collection.submaps.map fun m => if s.member serial m then regraph m else m } }

/-- A submap made by a step, with the serial of its graph. -/
def builtEntry (s : SkeletonSession) (id : Value) : Except Error (Nat × Submap) := do
  let id ← id.toKey
  match Value.lookup? s.built id with
  | some (_, k, m) => .ok (k, m)
  | none => .error .missingKey

/-- A submap made by a step. -/
def builtSubmap (s : SkeletonSession) (id : Value) : Except Error Submap := do
  .ok (← s.builtEntry id).2

/-- Names a graph: a name equal to one in use keeps its first spelling and takes the new
serial. -/
def name (s : SkeletonSession) (key : Value) (serial : Nat) : SkeletonSession :=
  if s.names.any (·.1.same key) then
    { s with names := s.names.map fun (k, n) => if k.same key then (k, serial) else (k, n) }
  else { s with names := s.names ++ [(key, serial)] }

/-- Stores a made submap under its id: an id equal to one in use keeps its first spelling. -/
def keep (s : SkeletonSession) (id : Value) (serial : Nat) (m : Submap) : SkeletonSession :=
  if s.built.any (·.1.same id) then
    { s with built := s.built.map fun (k, n, x) => if k.same id then (k, serial, m) else (k, n, x) }
  else { s with built := s.built ++ [(id, serial, m)] }

end SkeletonSession

/-- What a submap shows: its graph's live counts and ids, and its frozen common-frame points. -/
def submapInfo (m : Submap) : Value :=
  .dict [("submap_id", m.id), ("n_vertices", .int m.graph.vertexCount),
    ("n_edges", .int m.graph.edgeCount),
    ("world_vertices", .list (m.worldVertices.map fun (v, p) => .list [v, vec p])),
    ("vertex_ids", .list m.graph.vertexIds),
    ("edge_ids", Value.ints (m.graph.edges.map (·.id : SkeletonEdge → Int))),
    ("same_graph", .bool true), ("translation", vec m.pose.trans)]

/-- Adds a vertex to a graph: a taken id is refused before the point is read, and a vertex kept
by a failed step stays in the graph. -/
def addVertexStep (g : SkeletonGraph) (p : Value) (id : Value) :
    Except Error (SkeletonGraph × Except Error Value) := do
  let id? := match id with
    | .null => none
    | v => some v
  if ← g.hasVertex? (id?.getD g.nextVertex) then
    throw (.duplicateVertex (id?.getD g.nextVertex).describe)
  .ok (g.addVertex (← p.toPoint) id?)

/-- The steps on graphs; none for a step of another kind. -/
def graphStep (s : SkeletonSession) (step : Value) (kind : String) :
    Option (Except Error (SkeletonSession × Except Error Value)) :=
  let done := fun (r : Except Error (SkeletonSession × Value)) => some (r.map fun (s, v) => (s, .ok v))
  match kind with
  | "graph" => done do
    let g ← graphOf step
    let key ← (← need step "g").toKey
    let serial := s.graphs.length
    .ok ({ s.name key serial with graphs := s.graphs ++ [(serial, g)] }, .int g.vertexCount)
  | "add_vertex" => some do
    let (serial, g) ← s.graph (← need step "g")
    let (g, r) ← addVertexStep g (← need step "p") (field step "id")
    .ok (s.update serial g, r)
  | "add_edge" => done do
    let (serial, g) ← s.graph (← need step "g")
    let (g, id) ← g.addEdge (← need step "a") (← need step "b")
    .ok (s.update serial g, .int id)
  | "vertex" => done do
    let (_, g) ← s.graph (← need step "g")
    let v ← g.vertex (← need step "id")
    .ok (s, .dict [("id", v.id), ("point", vec v.point),
      ("edges", Value.ints (v.edges.map (· : Nat → Int)))])
  | "edge" => done do
    let (_, g) ← s.graph (← need step "g")
    let e ← g.edge (← need step "id")
    .ok (s, .dict [("id", .int e.id), ("start", e.start), ("end", e.stop),
      ("other_of_start", e.other e.start)])
  | "graph_info" => done do
    let (_, g) ← s.graph (← need step "g")
    .ok (s, .dict [("n_vertices", .int g.vertexCount), ("n_edges", .int g.edgeCount),
      ("ids", .list g.vertexIds), ("points", .list (g.vertices.map (vec ·.point)))])
  | _ => none

/-- The steps on submaps and the collection; none for a step of another kind. -/
def submapStep (s : SkeletonSession) (step : Value) (kind : String) :
    Option (Except Error (SkeletonSession × Except Error Value)) :=
  let done := fun (r : Except Error (SkeletonSession × Value)) => some (r.map fun (s, v) => (s, .ok v))
  match kind with
  | "submap" => done do
    let (serial, g) ← s.graph (← need step "g")
    let id ← need step "id"
    let pose ← transformOf (field step "pose")
    let m ← Submap.make id g (some pose)
    let key ← id.toKey
    .ok (s.keep key serial m, submapInfo m)
  | "add" => some do
    let (serial, m) ← s.builtEntry (← need step "id")
    let (c, err) := s.collection.add m
    let s' := if c.size > s.collection.size then
        { s with collection := c, members := s.members ++ [(m.id, serial)] }
      else { s with collection := c }
    .ok (s', match err with
      | some e => .error e
      | none => .ok (.int c.size))
  | "get_by_id" => done do
    let m ← s.collection.find (← need step "id")
    .ok (s, submapInfo m)
  | "get" => done do
    .ok (s, Value.ofOption submapInfo (← s.collection.get? (← need step "id")))
  | "info" => done do
    .ok (s, .dict [("ids", .list s.collection.ids), ("len", .int s.collection.size),
      ("total_vertices", .int s.collection.totalVertices), ("submaps", .list s.collection.ids)])
  | "contains" => done do
    .ok (s, .bool (← s.collection.contains (← need step "id")))
  | "ids_at" => done do
    .ok (s, .list (s.collection.idsAt (← (← need step "p").toPoint)))
  | "closest" => done do
    let m ← s.builtSubmap (← need step "id")
    let p ← need step "p"
    .ok (s, .list (← m.closest p.toPoint (← need step "n")))
  | "bounds" => done do
    let m ← s.builtSubmap (← need step "id")
    let (lo, hi) ← m.bounds (field step "margin" (.num 0.0))
    .ok (s, .list [vec lo, vec hi])
  | "to_submap" => done do
    let m ← s.builtSubmap (← need step "id")
    .ok (s, vec (m.toLocal (← (← need step "p").toPoint)))
  | "to_world" => done do
    let m ← s.builtSubmap (← need step "id")
    .ok (s, vec (m.toWorld (← (← need step "p").toPoint)))
  | "vertex_world" => done do
    let v : VertexRef := ⟨← need step "submap", ← need step "vertex"⟩
    .ok (s, vec (← s.collection.vertexWorld v))
  | _ => none

/-- One step of a skeleton session: the session after it and the step's answer. A step that
fails leaves the session as the failure found it. -/
def skeletonStep (s : SkeletonSession) (step : Value) : SkeletonSession × Reply :=
  let run : Except Error (SkeletonSession × Except Error Value) := do
    let kind := match ← stepName step with
      | .str k => k
      | _ => ""
    match graphStep s step kind <|> submapStep s step kind with
    | some r => r
    | none => .error .badValue
  match run with
  | .ok r => r
  | .error e => (s, .error e)

/-- `skeleton`: runs the steps of a session whose collection widens boxes by the given margin. -/
def skeleton (req : Value) : Reply := do
  let init : SkeletonSession := { collection := { margin := field req "overlap_margin" (.num 1.0) } }
  let steps ← (← need req "steps").iter
  let (_, answers) := steps.foldl (fun (s, acc) step =>
    let (s', r) := skeletonStep s step
    (s', acc ++ [Reply.toValue r])) (init, [])
  .ok (.dict [("steps", .list answers)])

end Command

end Exploration
