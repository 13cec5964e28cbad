import Exploration.Json.Loose

/-!
# Settings

Each part of the planner is tuned by a group of named settings with defaults. A group is read
from an object (`Settings.read`): members with known names replace the defaults, other members
are ignored, and then the group is checked and normalised (`Settings.check`). The values keep
the kind they were given in, so a group written back (`Settings.toValue`) shows `3` or `3.0` as
given; checking a checked group again changes nothing.

The checks, in order:

* local planner: `max_path_length`, `path_cropping_length`, `max_number_of_neighbors`,
  `maximum_rewiring_iterations`, `local_sampling_radius` and `global_sampling_radius` are
  positive; `min_local_points` is not negative; `min_path_length` is at most `max_path_length`;
* global search: `n_closest_start_vertices`, `n_closest_end_vertices`, `max_iterations`,
  `n_linking_neighbors` and `max_linking_distance` are positive;
* lidar: `ray_length`, `vertical_resolution` and `horizontal_resolution` are positive, and
  `downsampling_factor` is at least one;
* map: `voxel_size` and `traversability_radius` are positive; `origin` and `dimensions` have
  three entries each; the corner's entries are read as doubles and the sizes as integers, and
  every size is positive.

"Positive" is `value > 0` in the loose order of values (`Value.lessThan`): a NaN is not
positive, and a value with no order against numbers is `Error.wrongType`.
-/

namespace Exploration

/-- The four groups of settings. -/
inductive SettingsKind where
  | localPlanner
  | globalSearch
  | lidar
  | map
  deriving DecidableEq, Repr, Inhabited

/-- A checked group of settings: every known name with its value, in the group's order. -/
structure Settings where
  kind : SettingsKind
  entries : List (String × Value)
  deriving Inhabited

namespace SettingsKind

/-- The names of a group with their defaults, in order. -/
def defaults : SettingsKind → List (String × Value)
  | localPlanner =>
    [("local_sampling_radius", .num 1.5), ("global_sampling_radius", .num 50.0),
     ("min_local_points", .int 5), ("min_path_length", .num 0.5),
     ("min_sampling_distance", .num 1.0), ("max_path_length", .num 3.0),
     ("path_cropping_length", .num 0.2), ("max_number_of_neighbors", .int 20),
     ("maximum_rewiring_iterations", .int 100), ("seed", .int 0)]
  | globalSearch =>
    [("n_closest_start_vertices", .int 5), ("n_closest_end_vertices", .int 30),
     ("max_iterations", .int 5000), ("max_edges_for_linking", .int 3),
     ("n_linking_neighbors", .int 3), ("max_linking_distance", .num 2.0)]
  | lidar =>
    [("ray_length", .num 5.0), ("vertical_fov", .num 30.0), ("horizontal_fov", .num 90.0),
     ("vertical_resolution", .int 16), ("horizontal_resolution", .int 64),
     ("ray_step", .num 0.0), ("downsampling_factor", .num 1.0)]
  | map =>
    [("voxel_size", .num 0.1), ("traversability_radius", .num 0.3),
     ("clearing_radius", .num 0.5), ("origin", .list [.num 0.0, .num 0.0, .num 0.0]),
     ("dimensions", .list [.int 100, .int 100, .int 20])]

/-- The settings that must be positive, in the order they are checked. -/
def positive : SettingsKind → List String
  | localPlanner =>
    ["max_path_length", "path_cropping_length", "max_number_of_neighbors",
     "maximum_rewiring_iterations", "local_sampling_radius", "global_sampling_radius"]
  | globalSearch =>
    ["n_closest_start_vertices", "n_closest_end_vertices", "max_iterations",
     "n_linking_neighbors", "max_linking_distance"]
  | lidar => ["ray_length", "vertical_resolution", "horizontal_resolution"]
  | map => ["voxel_size", "traversability_radius"]

end SettingsKind

namespace Settings

/-- The value of a setting (`null` for a name the group does not have). -/
def get (s : Settings) (name : String) : Value :=
  ((s.entries.find? (·.1 == name)).map (·.2)).getD .null

/-- The value of a name in a list of entries. -/
def lookup (entries : List (String × Value)) (name : String) : Value :=
  ((entries.find? (·.1 == name)).map (·.2)).getD .null

/-- Refuses a value that is not above zero. -/
def requirePositive (entries : List (String × Value)) (name : String) : Except Error Unit := do
  let v := lookup entries name
  if ← Value.lessThan (.int 0) v then .ok () else .error (.notPositive name v.describe)

/-- The items a value yields when walked: a list's items, a text's characters, an object's
keys. -/
def walk : Value → Except Error (List Value)
  | .list xs => .ok xs
  | .str s => .ok (s.toList.map fun c => .str (String.singleton c))
  | .dict kvs => .ok (kvs.map fun (k, _) => .str k)
  | _ => .error .wrongType

/-- Checks and normalises the entries of a group (see the module comment). -/
def check (kind : SettingsKind) (entries : List (String × Value)) :
    Except Error (List (String × Value)) := do
  for name in kind.positive do
    requirePositive entries name
  match kind with
  | .localPlanner =>
    let least := lookup entries "min_local_points"
    if ← Value.lessThan least (.int 0) then .error (.negativeLocalPoints least.describe)
    let lo := lookup entries "min_path_length"
    let hi := lookup entries "max_path_length"
    if ← Value.lessThan hi lo then .error (.minAboveMax lo.describe hi.describe)
    .ok entries
  | .globalSearch => .ok entries
  | .lidar =>
    let f := lookup entries "downsampling_factor"
    if ← Value.lessThan f (.num 1.0) then .error (.thinningBelowOne f.describe)
    .ok entries
  | .map =>
    let origin := lookup entries "origin"
    let dims := lookup entries "dimensions"
    if (← origin.size) != 3 then .error .notThreeAxes
    if (← dims.size) != 3 then .error .notThreeAxes
    let corner ← (← walk origin).mapM Value.toReal
    let sizes ← (← walk dims).mapM Value.toInteger
    if sizes.any (· ≤ 0) then .error (.nonPositiveSize (Value.ints sizes).describe)
    .ok (entries.map fun (k, v) =>
      if k == "origin" then (k, Value.nums corner)
      else if k == "dimensions" then (k, Value.ints sizes)
      else (k, v))

/-- Reads a group from an object: known members replace the defaults, the rest are ignored;
the result is checked. Anything but an object has no members to read. -/
def read (kind : SettingsKind) (data : Value) : Except Error Settings := do
  match data with
  | .dict kvs =>
    let entries := kind.defaults.map fun (k, d) =>
      match (kvs.reverse.find? (·.1 == k)) with
      | some (_, v) => (k, v)
      | none => (k, d)
    let entries ← check kind entries
    .ok ⟨kind, entries⟩
  | _ => .error .missingPart

/-- The group as an object. -/
def toValue (s : Settings) : Value := .dict s.entries

/-- A setting read as a double. -/
def real (s : Settings) (name : String) : Except Error Float := (s.get name).toReal

/-- A setting read as an integer. -/
def integer (s : Settings) (name : String) : Except Error Int := (s.get name).toInteger

end Settings

end Exploration
