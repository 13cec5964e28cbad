import Exploration.Number.Text

/-!
# Values of the data format

`Value` is a JSON value in which whole numbers and fractions stay apart: `3` is `int 3`,
`3.0` is `num 3.0`. Settings are echoed in the kind they were given in, so the distinction is
part of what this library answers. Objects keep their members in order.
-/

namespace Exploration

/-- A JSON value; integers are unbounded and fractions are doubles. -/
inductive Value where
  | null
  | bool (b : Bool)
  | int (n : Int)
  | num (x : Float)
  | str (s : String)
  | list (xs : List Value)
  | dict (kvs : List (String × Value))
  deriving Inhabited

namespace Value

/-- The member of an object under a key (the last one, if the key repeats). -/
def get? (v : Value) (key : String) : Option Value :=
  match v with
  | dict kvs => (kvs.reverse.find? (·.1 == key)).map (·.2)
  | _ => none

/-- Whether an object has a member under the key. -/
def has (v : Value) (key : String) : Bool := (v.get? key).isSome

/-- The member under a key, or `null` when it is absent. -/
def getD (v : Value) (key : String) : Value := (v.get? key).getD null

/-- Sets a key in an association list: an existing key keeps its place and takes the new value,
a new key goes last. -/
def assocSet {β : Type} (kvs : List (String × β)) (key : String) (x : β) : List (String × β) :=
  if kvs.any (·.1 == key) then kvs.map fun (k, y) => if k == key then (k, x) else (k, y)
  else kvs ++ [(key, x)]

/-- Sets a member of an object (see `assocSet`). -/
def set (kvs : List (String × Value)) (key : String) (x : Value) : List (String × Value) :=
  assocSet kvs key x

/-- A list of doubles. -/
def nums (xs : List Float) : Value := list (xs.map num)

/-- A list of integers. -/
def ints (xs : List Int) : Value := list (xs.map int)

/-- A member of an object or `null`. -/
def ofOption {α : Type} (f : α → Value) : Option α → Value
  | some a => f a
  | none => null

end Value

end Exploration
