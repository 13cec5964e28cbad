import Exploration.Json.Loose

/-!
# Phase clock

`PhaseClock` keeps a duration in seconds for each named phase of the planner, in the order the
phases were first timed. Durations are numbers of either kind; the total is their sum from
left to right starting at the integer zero, so an empty clock totals `0` and a clock of doubles
totals a double.

`PhaseClock.summary unit` writes one line per phase and a `TOTAL` line: the name padded to
twenty characters, a colon, the duration in the unit (`ms` multiplies by a thousand, any other
unit by one) right-aligned in eight characters with one place, and the unit.
-/

namespace Exploration

/-- The sum of two numbers: integers add exactly, any double makes the sum a double;
`true` and `false` count as one and zero. -/
def Value.plus (a b : Value) : Except Error Value :=
  match Value.numeric? a, Value.numeric? b with
  | some (.whole m), some (.whole n) => .ok (.int (m + n))
  | some (.whole m), some (.real y) => do .ok (.num ((← (Value.int m).toReal) + y))
  | some (.real x), some (.whole n) => do .ok (.num (x + (← (Value.int n).toReal)))
  | some (.real x), some (.real y) => .ok (.num (x + y))
  | _, _ => .error .wrongType

/-- A number times a double, as a double: an integer too large for a double overflows, and a
value that is not a number cannot be scaled. -/
def Value.scaled (v : Value) (factor : Float) : Except Error Float :=
  match Value.numeric? v with
  | some _ => do .ok ((← v.toReal) * factor)
  | none => .error .wrongType

/-- A number as a double. -/
def Value.realOr (v : Value) : Float := (v.toReal).toOption.getD 0.0

/-- Durations of named phases, in the order first timed. -/
structure PhaseClock where
  records : List (String × Value) := []
  deriving Inhabited

namespace PhaseClock

/-- The sum of all durations, from the integer zero. -/
def total (c : PhaseClock) : Except Error Value :=
  c.records.foldlM (fun acc (_, v) => acc.plus v) (.int 0)

/-- The duration of a phase in milliseconds, zero for a phase never timed. -/
def ms (c : PhaseClock) (name : String) : Except Error Float :=
  match c.records.find? (·.1 == name) with
  | some (_, v) => v.scaled 1000.0
  | none => .ok 0.0

/-- The durations with the total under `total`. -/
def toValue (c : PhaseClock) : Except Error Value := do
  let t ← c.total
  .ok (.dict (Value.set c.records "total" t))

/-- One line of the summary. -/
def line (name : String) (seconds : Value) (factor : Float) (unit : String) :
    Except Error String := do
  .ok ("  " ++ String.padRight 20 name ++ ": " ++
    String.padLeft 8 (Float.toFixed 1 (← seconds.scaled factor)) ++ " " ++ unit)

/-- The summary lines, joined by line breaks (see the module comment); the unit is written as
its text, and only the text `ms` scales. -/
def summary (c : PhaseClock) (unit : Value := .str "ms") : Except Error String := do
  let factor := match unit with
    | .str "ms" => 1000.0
    | _ => 1.0
  let text := unit.describe
  let lines ← c.records.mapM fun (name, v) => line name v factor text
  let t ← c.total
  .ok ("\n".intercalate (lines ++ [← line "TOTAL" t factor text]))

/-- Adds time to a phase (a new phase goes last). -/
def add (c : PhaseClock) (name : String) (seconds : Float) : PhaseClock :=
  match c.records.find? (·.1 == name) with
  | some (_, v) => { records := Value.set c.records name (.num (v.realOr + seconds)) }
  | none => { records := c.records ++ [(name, .num seconds)] }

end PhaseClock

end Exploration
