import Exploration.Command.Basic
import Exploration.SpatialIndex

/-!
# Requests on a nearest-neighbour index

`{"dim"?, "rebuild_threshold"?, "steps"}` makes an empty `SpatialIndex` with keys that are any
values, and runs the steps on it: `insert`, `knn`, `knn_keys`, `rebuild`, `clear` and `len`.
A step that fails answers its failure and leaves the index as the failure left it.
-/

namespace Exploration

namespace Command

/-- A point read at the index's dimension (`SpatialIndex.shapePoint`), after its entries are
read as doubles. -/
def indexPoint (dim : Value) (v : Value) : Except Error (List Float) := do
  SpatialIndex.shapePoint dim (← v.toReals)

/-- A failure that leaves a changed index, or the size of the index. -/
def sizeReply (s : SpatialIndex Value) : Option Error → Reply
  | some e => .error e
  | none => .ok (.int s.size)

/-- The entries a query answers: nothing for a count at most zero or an empty index, before the
point is read; else the nearest entries. -/
def queryIndex (s : SpatialIndex Value) (p k : Value) : Except Error (List (Value × Float)) := do
  if ← s.answersNothing k then return []
  s.nearest (← indexPoint s.dim p) k

/-- An item of a rebuild: anything that walks as exactly two items, a key and a point. -/
def rebuildItem (dim : Value) (item : Value) : Except Error (Value × List Float) := do
  match ← item.iter with
  | [key, p] => .ok (key, ← indexPoint dim p)
  | _ => .error .badValue

/-- One step on the index: the index after it and the step's answer. -/
def indexStep (s : SpatialIndex Value) (step : Value) : SpatialIndex Value × Reply :=
  let run : Except Error (SpatialIndex Value × Reply) := do
    match ← stepName step with
    | .str "insert" =>
      let key ← need step "key"
      let p ← indexPoint s.dim (← need step "p")
      let (s', err) := s.insert key p
      .ok (s', sizeReply s' err)
    | .str "knn" =>
      let found ← queryIndex s (field step "p") (field step "k" (.int 1))
      .ok (s, .ok (.list (found.map fun (key, d) => .list [key, .num d])))
    | .str "knn_keys" =>
      let found ← queryIndex s (field step "p") (field step "k" (.int 1))
      .ok (s, .ok (.list (found.map (·.1))))
    | .str "rebuild" =>
      let entries ← (field step "items" (.list [])).iter
      let pairs ← entries.mapM (rebuildItem s.dim)
      let (s', err) := s.rebuild pairs
      .ok (s', sizeReply s' err)
    | .str "clear" => .ok (s.clear, .ok (.int 0))
    | .str "len" => .ok (s, .ok (.int s.size))
    | _ => .error .badValue
  match run with
  | .ok r => r
  | .error e => (s, .error e)

/-- `spatial_index`: runs the steps on a new index whose dimension and threshold are kept as
given. -/
def spatialIndex (req : Value) : Reply := do
  let init : SpatialIndex Value :=
    SpatialIndex.empty (field req "dim" (.int 3)) (field req "rebuild_threshold" (.int 32))
  let steps ← (← need req "steps").iter
  let (_, answers) := steps.foldl (fun (s, acc) step =>
    let (s', r) := indexStep s step
    (s', acc ++ [r.toValue])) (init, [])
  .ok (.dict [("steps", .list answers)])

end Command

end Exploration
