import Exploration.Json.Loose

/-!
# Values as keys

Ids arrive as any value of a request and name the entries of tables: vertices, edges, submaps,
frozen regions, named graphs. Two ids name one entry when they are equal the loose way
(`Value.same`):

* numbers of either kind by exact value, so `1`, `1.0` and `true` are one id, and a NaN equals
  nothing, not even itself;
* texts by their characters, `null` only `null`;
* lists item by item, objects member by member in any order.

Only values without parts can name an entry (`Value.isKey`): asking a table about a list or an
object is `Error.wrongType` (`Value.toKey`). A table keeps the id it was first given, and shows
that one (`Value.describe`).

`Value.keyHash` agrees with `same`: equal numbers hash alike whatever their kind, so the hash
only sorts ids into buckets and `same` decides.
-/

namespace Exploration

namespace Value

mutual

/-- Whether two values are equal the loose way (see the module comment). -/
def same : Value → Value → Bool
  | .list xs, b => match b with
    | .list ys => sameItems xs ys
    | _ => false
  | .dict kvs, b => match b with
    | .dict lws => kvs.length == lws.length && sameMembers kvs lws
    | _ => false
  | .null, b => match b with
    | .null => true
    | _ => false
  | .str s, b => match b with
    | .str t => s == t
    | _ => false
  | a, b => match numeric? a, numeric? b with
    | some x, some y => x.compare? y == some .eq
    | _, _ => false

/-- Whether two lists have equal items in order. -/
def sameItems : List Value → List Value → Bool
  | [], [] => true
  | x :: xs, y :: ys => same x y && sameItems xs ys
  | _, _ => false

/-- Whether every member of the first object is in the second with an equal value. -/
def sameMembers : List (String × Value) → List (String × Value) → Bool
  | [], _ => true
  | kv :: kvs, lws =>
    (match lws.reverse.find? (·.1 == kv.1) with
      | some (_, w) => same kv.2 w
      | none => false) && sameMembers kvs lws

end

/-- Whether a value can name an entry of a table: it has no parts. -/
def isKey : Value → Bool
  | .list _ | .dict _ => false
  | _ => true

/-- A value as an id of a table; a list or an object cannot be one. -/
def toKey (v : Value) : Except Error Value :=
  if v.isKey then .ok v else .error .wrongType

/-- A hash of an id that agrees with `same`: an integral double hashes as its integer. -/
def keyHash : Value → UInt64
  | .null => 0
  | .bool b => hash (if b then (1 : Int) else 0)
  | .int n => hash n
  | .num x =>
    match truncate x with
    | .ok n => if x == Binary.floor x then hash n else hash x.toBits
    | .error _ => hash x.toBits
  | .str s => hash s
  | _ => 1

/-- A number plus one in its own kind, a truth value counting as an integer; other values have
no successor. -/
def succ : Value → Except Error Value
  | .int n => .ok (.int (n + 1))
  | .bool b => .ok (.int ((if b then 1 else 0) + 1))
  | .num x => .ok (.num (x + 1.0))
  | _ => .error .wrongType

/-- A number minus one in its own kind, a truth value counting as an integer; other values have
no predecessor. -/
def pred : Value → Except Error Value
  | .int n => .ok (.int (n - 1))
  | .bool b => .ok (.int ((if b then 1 else 0) - 1))
  | .num x => .ok (.num (x - 1.0))
  | _ => .error .wrongType

/-- The larger of two values: the second only when it is strictly above the first, so the first
stays on a tie or when a NaN takes part. -/
def larger (a b : Value) : Except Error Value := do
  if ← lessThan a b then .ok b else .ok a

/-- The smaller of two values: the second only when it is strictly below the first. -/
def smaller (a b : Value) : Except Error Value := do
  if ← lessThan b a then .ok b else .ok a

/-- The entry of the first id in a table equal to `key`. -/
def lookup? {α : Type} (table : List (Value × α)) (key : Value) : Option (Value × α) :=
  table.find? (·.1.same key)

end Value

end Exploration
