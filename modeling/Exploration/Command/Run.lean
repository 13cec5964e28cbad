import Exploration.Command.Session
import Exploration.Command.Index
import Exploration.Json.Read
import Exploration.Json.Write

/-!
# Answering requests

`Command.answer` answers one request object by its `op`; `Command.answerLine` reads a request
from a line of JSON text and writes the answer on one line. A line that is not JSON, or a
request without a known `op`, is answered `{"error": "BadRequest", "message": …}`.
-/

namespace Exploration

namespace Command

/-- The answer object for a malformed request. -/
def badRequest (why : String) : Value :=
  .dict [("error", .str "BadRequest"), ("message", .str why)]

/-- The answer to a request object. -/
def answer (req : Value) : Value :=
  match field req "op" with
  | .str "as_point" => (asPoint req).toValue
  | .str "waypoint" => (waypoint req).toValue
  | .str "transform" => (transform req).toValue
  | .str "config" => (config req).toValue
  | .str "plan_result" => (planResult req).toValue
  | .str "timer" => (timer req).toValue
  | .str "seed" => (seed req).toValue
  | .str "frontier" => (frontier req).toValue
  | .str "spatial_index" => (spatialIndex req).toValue
  | .str "skeleton" => (skeleton req).toValue
  | .str "world" => (world req).toValue
  | .str op => badRequest ("unknown op " ++ op)
  | _ => badRequest "missing op"

/-- The answer line to a request line. -/
def answerLine (line : String) : String :=
  match Value.parse line with
  | .ok req => (answer req).render
  | .error why => (badRequest ("bad JSON: " ++ why)).render

end Command

end Exploration
