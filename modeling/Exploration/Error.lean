/-!
# Failures

`Error` lists every cause for which an operation of this library refuses its input, with the
values the cause is about. `Error.kind` is the class of the failure as answers name it, and
`Error.message` its text, present only for the causes this library words itself; failures of
plain conversions and look-ups carry none.
-/

namespace Exploration

/-- Every cause of failure. -/
inductive Error where
  /-- A point has `size` coordinates after flattening, not three. -/
  | pointShape (size : Nat)
  /-- A setting that must be positive is not (`shown` is its text). -/
  | notPositive (name shown : String)
  /-- The least number of local samples is negative. -/
  | negativeLocalPoints (shown : String)
  /-- The least edge length exceeds the greatest. -/
  | minAboveMax (lo hi : String)
  /-- The ray thinning factor is below one. -/
  | thinningBelowOne (shown : String)
  /-- The map corner or the map size does not have three entries. -/
  | notThreeAxes
  /-- A map size is not positive on every axis. -/
  | nonPositiveSize (shown : String)
  /-- A region of the map was already frozen under this id. -/
  | regionFrozen (id : String)
  /-- A skeleton vertex of this id exists. -/
  | duplicateVertex (id : String)
  /-- An edge names a vertex that is not in the graph. -/
  | edgeEndMissing (a b : String)
  /-- An edge joins a vertex to itself. -/
  | selfLoop (a : String)
  /-- The collection already holds a submap of this id. -/
  | duplicateSubmap (id : String)
  /-- The collection holds no submap of this id. -/
  | unknownSubmap (id : String)
  /-- The viewpoint tree has no root yet. -/
  | noRoot
  /-- A node of this id is already in the tree. -/
  | nodeInTree (node : Int)
  /-- A node does not hold the connection it is asked to drop. -/
  | connectionNotHeld (node conn : Int)
  /-- An end of a connection is not in the tree. -/
  | connectionEndMissing (conn : Int)
  /-- Following active connections from a node comes back to a node already seen. -/
  | activeChainCycle (node : Int)
  /-- The tree has `count` nodes flagged as root, not one. -/
  | rootCount (count : Nat)
  /-- The node flagged as root is not the recorded root. -/
  | rootFlagMismatch
  /-- A node holds a connection with the wrong direction flag. -/
  | wrongDirection (node conn : Int)
  /-- A connection is not held by its other end. -/
  | asymmetric (conn : Int)
  /-- A node's active chain does not reach the root. -/
  | rootUnreachable (node : Int)
  /-- Following active connections from a node towards the root comes back to a node already seen. -/
  | parentLoop (node : Int)
  /-- Value propagation visits a node twice. -/
  | revisited (node : Int)
  /-- A value of the wrong kind for the operation. -/
  | wrongType
  /-- A value that cannot be converted, or is out of the operation's domain. -/
  | badValue
  /-- A number too large to convert. -/
  | overflow
  /-- A look-up of a key that is absent. -/
  | missingKey
  /-- A look-up past the end of a sequence. -/
  | badIndex
  /-- A part that does not exist yet. -/
  | missingPart
  /-- A matrix decomposition that does not converge (a matrix with a NaN entry). -/
  | noConvergence
  /-- An elementwise operation between arrays of kinds it has no rule for (numbers and texts). -/
  | noLoop
  deriving Inhabited, Repr

namespace Error

/-- The class of the failure, as answers name it. -/
def kind : Error → String
  | pointShape .. | notPositive .. | negativeLocalPoints .. | minAboveMax .. | thinningBelowOne ..
  | notThreeAxes | nonPositiveSize .. | regionFrozen .. | duplicateVertex .. | edgeEndMissing ..
  | selfLoop .. | badValue => "ValueError"
  | duplicateSubmap .. | unknownSubmap .. => "SubmapCollectionError"
  | noRoot | nodeInTree .. | connectionNotHeld .. | connectionEndMissing .. | activeChainCycle ..
  | rootCount .. | rootFlagMismatch | wrongDirection .. | asymmetric .. | rootUnreachable ..
  | parentLoop .. | revisited .. => "InvariantViolation"
  | wrongType => "TypeError"
  | overflow => "OverflowError"
  | missingKey => "KeyError"
  | badIndex => "IndexError"
  | missingPart => "AttributeError"
  | noConvergence => "LinAlgError"
  | noLoop => "UFuncTypeError"

/-- The text of the failure, for the causes this library words. -/
def message : Error → Option String
  | pointShape n => some s!"点坐标必须是 3 维，得到 shape=({n},)"
  | notPositive name shown => some s!"{name} 必须大于 0，得到 {shown}"
  | negativeLocalPoints shown => some s!"min_local_points 不能为负，得到 {shown}"
  | minAboveMax lo hi => some s!"min_path_length ({lo}) 不能大于 max_path_length ({hi})"
  | thinningBelowOne shown => some s!"downsampling_factor 必须 >= 1，得到 {shown}"
  | notThreeAxes => some "origin 和 dimensions 必须是 3 维"
  | nonPositiveSize shown => some s!"dimensions 必须为正，得到 {shown}"
  | regionFrozen id => some s!"子图 {id} 已冻结"
  | duplicateVertex id => some s!"顶点 {id} 已存在"
  | edgeEndMissing a b => some s!"边 ({a}, {b}) 的端点不在图中"
  | selfLoop a => some s!"不允许自环边 ({a})"
  | duplicateSubmap id => some s!"子图 {id} 已存在"
  | unknownSubmap id => some s!"未知子图 {id}"
  | noRoot => some "视点树尚未初始化根节点"
  | nodeInTree node => some s!"节点 {node} 已在树中"
  | connectionNotHeld node conn => some s!"节点 {node} 不持有连接 {conn}"
  | connectionEndMissing conn => some s!"连接 {conn} 的端点不在树中"
  | activeChainCycle node => some s!"节点 {node} 的 active connection 链存在环"
  | rootCount n => some s!"根节点数量为 {n}，应为 1"
  | rootFlagMismatch => some "根节点标志与记录的根节点不一致"
  | wrongDirection node conn => some s!"节点 {node} 的连接 {conn} 方向错误"
  | asymmetric conn => some s!"连接 {conn} 不对称"
  | rootUnreachable node => some s!"节点 {node} 无法经 active connection 到达根节点"
  | parentLoop node => some s!"节点 {node} 上游的 active connection 链存在环"
  | revisited node => some s!"价值传播时重复访问节点 {node}"
  | wrongType | badValue | overflow | missingKey | badIndex | missingPart | noConvergence
  | noLoop => none

end Error

end Exploration
