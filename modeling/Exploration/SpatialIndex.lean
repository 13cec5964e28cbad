import Exploration.Json.Key
import Exploration.Nearest
import Exploration.Sorting

/-!
# Nearest-neighbour index

`SpatialIndex α` keeps points under keys of type `α` and answers k-nearest queries. It has two
parts: a built part, searched as a whole, and a tail of recent insertions. An insertion goes to
the tail; when the tail grows past the threshold, tail and built part are merged into a new
built part. `rebuild` replaces everything.

The dimension and the threshold are kept as given and take effect where they are used:

* a point is read at the dimension (`SpatialIndex.shapePoint`): its entries, in any nesting,
  must be exactly as many as the dimension, any number for a dimension of `-1`; a dimension that
  is not an integer cannot shape a point;
* an insertion first joins the tail and then compares the tail's length with the threshold, so
  a threshold that cannot be compared fails with the entry already in; a NaN or an infinite
  threshold never merges.

A built part searches its points (`Nearest.scan` over `Nearest.blockDistance`). It cannot hold
points of different lengths, points without coordinates, or a coordinate that is not finite:
such a build fails after the keys of the new part are taken but before its points are, so the
index keeps answering from the points of the previous build. This is how a failed merge or
rebuild leaves it.

A query asks for `k` entries. It answers nothing for `k` at most zero or an empty index. Else
the built part gives its `min k n` nearest (`n` its number of keys; a fractional count is
rounded up, and a search for more entries than its points fills up with infinite distances at
the position after the last point), every tail entry joins them (`Nearest.batchDistance`, a
point of one coordinate standing for that value on every axis), the candidates are sorted by
distance and then position in the live list (`Sorting.sortBy`, under which a NaN distance
stays where it is), and the first `k` are kept, which needs `k` to be an integer.
-/

namespace Exploration

/-- A k-nearest index with keys of type `α`. -/
structure SpatialIndex (α : Type) where
  dim : Value := .int 3
  threshold : Value := .int 32
  /-- The keys of the built part, in order. -/
  treeKeys : List α := []
  /-- The points the built part searches, from its last successful build. -/
  treeData : List (List Float) := []
  /-- Whether a built part exists. -/
  built : Bool := false
  /-- The tail: keys and points inserted since the last build. -/
  tail : List (α × List Float) := []
  deriving Inhabited

namespace SpatialIndex

variable {α : Type}

/-- An empty index. -/
def empty (dim : Value := .int 3) (threshold : Value := .int 32) : SpatialIndex α :=
  { dim, threshold }

/-- The number of live entries. -/
def size (s : SpatialIndex α) : Nat := s.treeKeys.length + s.tail.length

/-- The index with nothing in it (dimension and threshold kept). -/
def clear (s : SpatialIndex α) : SpatialIndex α :=
  { s with treeKeys := [], treeData := [], built := false, tail := [] }

/-- The entries of a point at a dimension given as an integer (see the module comment). -/
def shapeByCount (d : Int) (entries : List Float) : Except Error (List Float) :=
  if d = -1 then .ok entries
  else if d < -1 then .error .badValue
  else if (entries.length : Int) = d then .ok entries
  else .error .badValue

/-- The entries of a point at the index's dimension (see the module comment). -/
def shapePoint (dim : Value) (entries : List Float) : Except Error (List Float) :=
  match dim with
  | .int d | .list [.int d] => shapeByCount d entries
  | _ => .error .wrongType

/-- Whether every coordinate of a point is finite. -/
def finitePoint (p : List Float) : Bool := p.all Float.isFinite

/-- Why points cannot be searched: different lengths or a non-finite coordinate are bad values,
and points without coordinates have no axis to split. -/
def unsearchable : List (List Float) → Option Error
  | [] => none
  | p :: ps =>
    if !(ps.all (·.length == p.length)) then some .badValue
    else if p.isEmpty then some .badIndex
    else if !((p :: ps).all finitePoint) then some .badValue
    else none

/-- Makes a built part of the keys and points. The keys are taken first; points that cannot be
searched then make the build fail, and the previous points stay. -/
def build (s : SpatialIndex α) (keys : List α) (points : List (List Float)) :
    SpatialIndex α × Option Error :=
  let s := { s with treeKeys := keys }
  if keys.isEmpty then ({ s with treeData := [], built := false }, none)
  else match unsearchable points with
    | none => ({ s with treeData := points, built := true }, none)
    | some e => (s, some e)

/-- Merges the tail into the built part. -/
def mergeTail (s : SpatialIndex α) : SpatialIndex α × Option Error :=
  let points := (if s.built then s.treeData else []) ++ s.tail.map (·.2)
  let keys := s.treeKeys ++ s.tail.map (·.1)
  build { s with tail := [] } keys points

/-- Adds an entry to the tail, merging the tail into the built part when it grows past the
threshold. -/
def insert (s : SpatialIndex α) (key : α) (p : List Float) : SpatialIndex α × Option Error :=
  let s := { s with tail := s.tail ++ [(key, p)] }
  match Value.lessThan s.threshold (.int s.tail.length) with
  | .error e => (s, some e)
  | .ok false => (s, none)
  | .ok true => s.mergeTail

/-- Replaces all entries by the given ones. -/
def rebuild (s : SpatialIndex α) (items : List (α × List Float)) : SpatialIndex α × Option Error :=
  build s.clear (items.map (·.1)) (items.map (·.2))

/-- Whether a query for `k` entries answers nothing: `k` is at most zero or the index is empty. -/
def answersNothing (s : SpatialIndex α) (k : Value) : Except Error Bool := do
  let low ← k.atMost (.int 0)
  .ok (low || s.size == 0)

/-- How many entries a search of the built part takes for a count: a whole count as it is, a
fractional one rounded up; a NaN is no count. -/
def searchCount : Value → Except Error Nat
  | .int n => .ok n.toNat
  | .bool b => .ok (if b then 1 else 0)
  | .num x =>
    if x.isNaN then .error .badValue
    else .ok (Binary.ceil x).toUInt64.toNat
  | _ => .error .wrongType

/-- How many candidates a query keeps: `k` must be an integer. -/
def keepCount : Value → Except Error Nat
  | .int n => .ok n.toNat
  | .bool b => .ok (if b then 1 else 0)
  | _ => .error .wrongType

/-- A candidate of a query: distance, position in the live list, key. -/
abbrev Candidate (α : Type) := Float × Nat × α

/-- Whether a candidate comes before another: by distance, and at equal distance by position. -/
def candidateBefore (a b : Candidate α) : Bool :=
  if a.1 == b.1 then a.2.1 < b.2.1 else a.1 < b.1

/-- A search of the built part: given its points, a query point and a count, pairs of a distance
and a row of the points. -/
abbrev TreeSearch := List (List Float) → List Float → Nat → List (Float × Nat)

/-- The search of the built part: the bounded heap over the four-lane squared distances, each
answered with its square root. -/
def treeSearch : TreeSearch := fun data q count =>
  (Nearest.scan (data.map (Nearest.blockDistance · q)) count).map fun (sq, i) => (sq.sqrt, i)

/-- The nearest candidates of the built part, found by `search`. -/
def treeCandidatesWith (search : TreeSearch) (s : SpatialIndex α) (q : List Float) (k : Value) :
    Except Error (List (Candidate α)) := do
  if !s.built then return []
  let n := s.treeKeys.length
  let kk : Value := if ← Value.lessThan (.int n) k then .int n else k
  let count ← searchCount kk
  if s.treeData.any (·.length != q.length) || !(finitePoint q) then throw .badValue
  let found := search s.treeData q count
  let missing := (List.range (count - found.length)).map fun _ =>
    ((1.0 : Float) / 0.0, s.treeData.length)
  (found ++ missing).mapM fun (d, i) =>
    match s.treeKeys[i]? with
    | some key => .ok (d, i, key)
    | none => .error .badIndex

/-- The difference of a tail point and the query, a point of one coordinate standing for that
value on every axis of the other. -/
def offsetFrom (p q : List Float) : Except Error (List Float) :=
  if p.length == q.length then .ok (List.zipWith (· - ·) p q)
  else match p, q with
    | [a], _ => .ok (q.map (a - ·))
    | _, [b] => .ok (p.map (· - b))
    | _, _ => .error .badValue

/-- The candidates of the tail, all of them. -/
def tailCandidates (s : SpatialIndex α) (q : List Float) : Except Error (List (Candidate α)) := do
  match s.tail with
  | [] => return []
  | (_, first) :: rest =>
    if !(rest.all (·.2.length == first.length)) then throw .badValue
    let offset := s.treeKeys.length
    s.tail.zipIdx.mapM fun ((key, p), j) => do
      let diff ← offsetFrom p q
      .ok ((Nearest.pairwiseSum (diff.map fun x => x * x)).sqrt, offset + j, key)

/-- The `k` nearest live entries with their distances, the built part searched by `search`. -/
def nearestWith (search : TreeSearch) (s : SpatialIndex α) (q : List Float) (k : Value) :
    Except Error (List (α × Float)) := do
  if ← s.answersNothing k then return []
  let fromTree ← s.treeCandidatesWith search q k
  let fromTail ← s.tailCandidates q
  let sorted := Sorting.sortBy candidateBefore (fromTree ++ fromTail)
  let keep ← keepCount k
  return (sorted.take keep).map fun (d, _, key) => (key, d)

/-- The `k` nearest live entries with their distances (see the module comment). -/
def nearest (s : SpatialIndex α) (q : List Float) (k : Value) : Except Error (List (α × Float)) :=
  s.nearestWith treeSearch q k

end SpatialIndex

end Exploration
