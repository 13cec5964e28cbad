import Exploration.Geometry.Point
import Exploration.Geometry.Transform

/-!
# Requests and answers

The planner is driven by requests, JSON objects that name an operation and carry its data. The
answer to a request is `{"ok": result}` or an error object `{"error": kind, "message": text}`,
the message present only for the failures this library words itself (`Error.message`).

This module holds the shared pieces: the encoding of answers, and the decoding of the pieces of
data that many requests carry (points, poses, transforms).
-/

namespace Exploration

namespace Command

/-- The answer of a step or request: a value, or the failure. -/
abbrev Reply := Except Error Value

/-- The error object of a failure. -/
def Error.toValue (e : Error) : Value :=
  match e.message with
  | some m => .dict [("error", .str e.kind), ("message", .str m)]
  | none => .dict [("error", .str e.kind)]

/-- The answer object of a reply. -/
def Reply.toValue : Reply → Value
  | .ok v => .dict [("ok", v)]
  | .error e => Error.toValue e

/-- A member of a request object, or a default when it is absent. -/
def field (req : Value) (key : String) (default : Value := .null) : Value :=
  (req.get? key).getD default

/-- A member that must be present: its absence is `Error.missingKey`. -/
def need (req : Value) (key : String) : Except Error Value :=
  match req.get? key with
  | some v => .ok v
  | none => .error .missingKey

/-- The name of a step's operation: a step is an object, and its operation is its "do" member. -/
def stepName (step : Value) : Except Error Value := step.member "do"

/-- The items of a list. -/
def items : Value → Except Error (List Value)
  | .list xs => .ok xs
  | _ => .error .wrongType

/-- A point as a list of three doubles. -/
def vec (p : Vec3) : Value := Value.nums p.toList

/-- A pose as `[x, y, z, yaw]`. -/
def pose (p : Pose) : Value := Value.nums p.toList

/-- A matrix as a list of rows. -/
def mat (m : Mat3) : Value := .list (m.toLists.map Value.nums)

/-- A pose given as up to four items `x, y, z, yaw` of anything that can be walked over (a list,
the characters of a text, the keys of an object): missing numbers are zero, every item is read
as a double, and more than four items are refused after all are read. -/
def poseOf (v : Value) : Except Error Pose := do
  let xs ← v.iter
  let ns ← xs.mapM Value.toReal
  if ns.length > 4 then .error .wrongType
  let g := fun (i : Nat) => ns.getD i 0.0
  .ok ⟨g 0, g 1, g 2, g 3⟩

/-- A heading: a number, or an array holding exactly one number at a depth of at most two.
`null` has no heading to read, and a text or an object is not a number. -/
def yawOf : Value → Except Error Float
  | .null => .error .missingPart
  | .str _ | .dict _ => .error .wrongType
  | .list xs => do
    let (shape, entries) ← (Value.list xs).toArray
    match shape, entries with
    | [1], [x] | [1, 1], [x] => .ok x
    | _, _ => .error .badValue
  | v => v.toReal

/-- The offset of a spec; an absent or `null` offset is zero. -/
def offsetOf (spec : Value) : Except Error Vec3 :=
  match spec.get? "translation" with
  | none | some .null => .ok Vec3.zero
  | some v => v.toPoint

/-- A transform given by a spec: `null` or `"identity"`; else a spec that mentions a `yaw`
(`Value.mentions`) turns by it, one that mentions a `quat` turns by that quaternion, and an
object with neither has an optional `rotation` (nine entries in any nesting). The heading or
quaternion is read before the offset, and only an object can be looked up. -/
def transformOf (spec : Value) : Except Error Transform := do
  match spec with
  | .null | .str "identity" => .ok Transform.identity
  | _ =>
    if (← spec.mentions "yaw") then
      let yaw ← yawOf (← spec.member "yaw")
      .ok (Transform.ofYaw (← offsetOf spec) yaw)
    else if (← spec.mentions "quat") then
      let q ← (← spec.member "quat").toReals
      match q with
      | [x, y, z, w] =>
        let t ← offsetOf spec
        match Transform.ofQuat? t ⟨x, y, z, w⟩ with
        | some T => .ok T
        | none => .error .badValue
      | _ => .error .badValue
    else match spec with
      | .dict _ =>
        let rot ← match field spec "rotation" with
          | .null => .ok Mat3.identity
          | r => do
            let e ← r.toReals
            if e.length == 9 then .ok (Mat3.ofEntries e) else .error .badValue
        .ok { rot, trans := ← offsetOf spec }
      | _ => .error .missingPart

/-- Rebuilds nested lists of a shape around a flat list of values. -/
def nest (shape : List Nat) (xs : List Value) : Value :=
  match shape with
  | [] => xs.headD .null
  | [_] => .list xs
  | _ :: rest =>
    let width := (rest.foldl (· * ·) 1)
    if width = 0 then .list []
    else .list ((List.range (xs.length / width)).map fun i => nest rest ((xs.drop (i * width)).take width))
termination_by shape.length

end Command

end Exploration
