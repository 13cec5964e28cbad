import Exploration.Global.Result

/-!
# Report of a global search

`PlanResult.report` writes a Markdown report of a search: the outcome (state, failure, message,
iterations, seconds with four places, and for a success the path length with three places and
the number of submap changes), the size of the collection, and a table of the vertex path with
the waypoint of each vertex (two places). The lines are joined by line breaks and the report
ends with an empty line.
-/

namespace Exploration

namespace PlanResult

/-- One row of the vertex table: the submap and vertex ids as text, or the goal mark. -/
def reportRow (i : Nat) (v : VertexRef) (w : Pose) : String :=
  let (s, n) := if v == VertexRef.goal then ("目标", "-") else (v.submap.describe, v.vertex.describe)
  s!"| {i} | {s} | {n} | (" ++ Float.toFixed 2 w.x ++ ", " ++ Float.toFixed 2 w.y ++ ", " ++
    Float.toFixed 2 w.z ++ ") |"

/-- A number with a fixed count of places: an integer or a truth value as a double (too large
an integer overflows), a text has no such format, and other values none at all. -/
def fixedPlaces (places : Nat) : Value → Except Error String
  | .num x => .ok (Float.toFixed places x)
  | .str _ => .error .badValue
  | .null | .list _ | .dict _ => .error .wrongType
  | v => do .ok (Float.toFixed places (← v.toReal))

/-- The Markdown report of a search over a collection. -/
def report (r : PlanResult) (c : SubmapCollection) : Except Error String := do
  let head := ["# 全局规划报告", "", "生成时间: " ++ r.timestamp.describe, "", "## 搜索结果", "",
    "- **状态**: " ++ (if r.success then "成功" else "失败")]
  let failure := match r.failure with
    | some f => ["- **失败原因**: " ++ f.name]
    | none => []
  let message := if r.message.truthy then ["- **信息**: " ++ r.message.describe] else []
  let counts := ["- **迭代次数**: " ++ r.iterations.describe,
    "- **计算耗时**: " ++ (← fixedPlaces 4 r.seconds) ++ " 秒"]
  let success := if r.success then
      ["- **路径长度**: " ++ Float.toFixed 3 r.pathLength ++ " m", s!"- **跨子图次数**: {r.bridges}"]
    else []
  let collection := ["", "## 子图集合", "", s!"- **子图数**: {c.size}",
    s!"- **顶点总数**: {c.totalVertices}", ""]
  let table := if r.vertexPath.isEmpty then []
    else ["## 顶点路径", "", "| # | 子图 | 顶点 | 位置 |", "|---|------|------|------|"] ++
      ((r.vertexPath.zip r.waypoints).zipIdx.map fun ((v, w), i) => reportRow i v w) ++ [""]
  .ok ("\n".intercalate (head ++ failure ++ message ++ counts ++ success ++ collection ++ table))

end PlanResult

end Exploration
