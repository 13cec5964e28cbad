import Exploration.Geometry.Vec3
import Exploration.Json.Loose

/-!
# Points from values

A point may be given as any nesting of lists whose entries, flattened, are exactly three
numbers: `[1, 2, 3]`, `[[1, 2, 3]]` and `[[1], [2], [3]]` are all the point `(1, 2, 3)`.

`Value.toArray` reads a value as a rectangular array of doubles: its shape and its entries in
order. A scalar is an array with no axes and one entry; every list of an array holds arrays of
one shape, else the value is refused (`Error.badValue`). Entries are read as doubles the loose
way (`Value.toReal`), except that `null` is a NaN.

`Value.toPoint` flattens the array and demands exactly three entries; any other count is
`Error.pointShape` with the count.
-/

namespace Exploration

namespace Value

/-- An entry of an array. -/
def toEntry : Value → Except Error Float
  | .null => .ok (0.0 / 0.0)
  | .list _ => .error .badValue
  | v => v.toReal

mutual

/-- A value as a rectangular array: its shape and its entries in order. -/
def toArray : Value → Except Error (List Nat × List Float)
  | .list xs => do
    let parts ← toArrays xs
    match parts with
    | [] => .ok ([0], [])
    | (shape, _) :: _ =>
      if parts.all (·.1 == shape) then .ok (xs.length :: shape, (parts.map (·.2)).flatten)
      else .error .badValue
  | v => do
    let x ← toEntry v
    .ok ([], [x])

/-- The arrays of the items of a list. -/
def toArrays : List Value → Except Error (List (List Nat × List Float))
  | [] => .ok []
  | x :: xs => do
    let a ← toArray x
    let rest ← toArrays xs
    .ok (a :: rest)

end

/-- The entries of a value read as an array, flattened. -/
def toReals (v : Value) : Except Error (List Float) := do
  let (_, entries) ← v.toArray
  .ok entries

/-- A point: a value whose flattened entries are exactly three. -/
def toPoint (v : Value) : Except Error Vec3 := do
  let entries ← v.toReals
  match entries with
  | [x, y, z] => .ok ⟨x, y, z⟩
  | _ => .error (.pointShape entries.length)

end Value

end Exploration
