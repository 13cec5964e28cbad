import Exploration.Local.Planner
import Exploration.Timing

/-!
# Report of the local planner

`LocalPlanner.report` writes a Markdown report of the local planner: a table of its settings as
given, the tree (size, connections, root with its position to three places, and the counts,
with a warning line when the root had no candidate), the candidates (the root's children with
position to two places, gain to one place and value to four, the best marked with a star), and
the timed phases when there are any. The clock line reads a fixed time and every phase reads
zero, so that the report depends on the planner alone.
-/

namespace Exploration

namespace LocalPlanner

/-- The row of a candidate. -/
def candidateRow (v : Viewpoint) (best : Float) : String :=
  let q := v.position
  s!"| {v.id} | (" ++ Float.toFixed 2 q.x ++ ", " ++ Float.toFixed 2 q.y ++ ", " ++
    Float.toFixed 2 q.z ++ ") | " ++ Float.toFixed 1 v.gain ++ " | " ++ Float.toFixed 4 v.value ++
    (if v.value == best then " ⭐" else "") ++ " |"

/-- The children of the root, each with its value. -/
def candidates : TreeM (List Viewpoint) := do
  ViewpointTree.children (← ViewpointTree.rootPoint)

/-- The Markdown report of the local planner. -/
def report (p : LocalPlanner) : Except Error String :=
  match (do
    let root ← ViewpointTree.rootPoint
    let n ← ViewpointTree.size
    let links ← ViewpointTree.linkCount
    let cands ← candidates
    return (root, n, links, cands) : TreeM _).run p.tree with
  | .error e _ => .error e
  | .ok (root, n, links, cands) _ => do
    let s := p.stats
    let q := root.position
    let settings := p.settings.shown.map fun (k, v) => s!"| {k} | " ++ v.describe ++ " |"
    let tree := ["## 视点树", "", s!"- **节点数**: {n}", s!"- **连接数**: {links}",
      s!"- **根节点**: {root.id} (" ++ Float.toFixed 3 q.x ++ ", " ++ Float.toFixed 3 q.y ++ ", " ++
        Float.toFixed 3 q.z ++ ")",
      s!"- **已发布航点**: {s.waypoints}", s!"- **采样失败**: {s.samplingFailures}",
      s!"- **连接失败**: {s.connectionFailures}", s!"- **剩余局部采样配额**: " ++ s.localQuota.describe,
      s!"- **上次重连轮数**: {s.rewiringRounds}"] ++
      (if s.noCandidate != 0 then [s!"- **无候选次数**: {s.noCandidate} ⚠"] else []) ++ [""]
    let table := match cands with
      | [] => ["（无候选）"]
      | c :: cs =>
        let best := cs.foldl (fun b v => if v.value > b then v.value else b) c.value
        ["| 节点 | 位置 | 增益 | 价值 |", "|------|------|------|------|"] ++
          (c :: cs).map (candidateRow · best)
    let clock : PhaseClock := { records := p.phases.map fun name => (name, .num 0.0) }
    let timing ← if p.phases.isEmpty then pure []
      else do pure ["## 耗时", "", "```", ← clock.summary, "```", ""]
    let lines := ["# 局部规划报告", "", "生成时间: 20000101_000000", "", "## 参数配置", "",
      "| 参数 | 值 |", "|------|----|"] ++ settings ++ [""] ++ tree ++
      ["## 根节点候选", ""] ++ table ++ [""] ++ timing
    .ok ("\n".intercalate lines)

end LocalPlanner

end Exploration
