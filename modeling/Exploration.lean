import Exploration.Command.Basic
import Exploration.Command.Index
import Exploration.Command.Local
import Exploration.Command.Run
import Exploration.Command.Session
import Exploration.Command.Simple
import Exploration.Command.Skeleton
import Exploration.Command.World
import Exploration.Error
import Exploration.Geometry.Orthogonal
import Exploration.Geometry.Point
import Exploration.Geometry.Rotation
import Exploration.Geometry.Transform
import Exploration.Geometry.Vec3
import Exploration.Global.Planner
import Exploration.Global.Report
import Exploration.Global.Result
import Exploration.Global.Search
import Exploration.Json.Key
import Exploration.Json.Loose
import Exploration.Json.Read
import Exploration.Json.Value
import Exploration.Json.Write
import Exploration.Lidar
import Exploration.Local.Planner
import Exploration.Local.Report
import Exploration.Local.Tree
import Exploration.Map.Cell
import Exploration.Map.Distance
import Exploration.Map.VoxelMap
import Exploration.Mission
import Exploration.Nearest
import Exploration.Number.Binary
import Exploration.Number.Glyph
import Exploration.Number.Shortest
import Exploration.Number.Text
import Exploration.Proofs.Candidates
import Exploration.Proofs.Collision
import Exploration.Proofs.Distance
import Exploration.Proofs.EntryVertices
import Exploration.Proofs.ExactBox
import Exploration.Proofs.FieldValues
import Exploration.Proofs.FloatBits
import Exploration.Proofs.FloatOrder
import Exploration.Proofs.FrameAlgebra
import Exploration.Proofs.FrozenRegions
import Exploration.Proofs.FrozenSubmaps
import Exploration.Proofs.GraphCalls
import Exploration.Proofs.Ids
import Exploration.Proofs.IndexFailure
import Exploration.Proofs.IndexLive
import Exploration.Proofs.IndexQuery
import Exploration.Proofs.LinkRemoval
import Exploration.Proofs.Loops
import Exploration.Proofs.MapHistory
import Exploration.Proofs.MissionFrame
import Exploration.Proofs.NearestKeys
import Exploration.Proofs.NextWaypoint
import Exploration.Proofs.Obstacles
import Exploration.Proofs.Rewire
import Exploration.Proofs.SampleRay
import Exploration.Proofs.SearchPath
import Exploration.Proofs.Selection
import Exploration.Proofs.SettingsReload
import Exploration.Proofs.Sorting
import Exploration.Proofs.SubtreeValue
import Exploration.Proofs.TreeEdit
import Exploration.Proofs.TreeGrowth
import Exploration.Proofs.TreeInvariant
import Exploration.Proofs.TreePrune
import Exploration.Proofs.TreeRead
import Exploration.Proofs.TreeRepair
import Exploration.Proofs.TreeSearch
import Exploration.Proofs.Visibility
import Exploration.Proofs.WaypointFeed
import Exploration.Random.Pcg64
import Exploration.Settings
import Exploration.Skeleton.Graph
import Exploration.Skeleton.Submap
import Exploration.Sorting
import Exploration.SpatialIndex
import Exploration.Timing
import Exploration.Proofs.TreeCheck
import Exploration.Proofs.TreeGraft
import Exploration.Proofs.RoundPhases
import Exploration.Proofs.PlanningRuns
import Exploration.Proofs.FloatSymmetry
import Exploration.Proofs.SteadyRuns
import Exploration.Proofs.BestFirst
import Exploration.Proofs.ExactFederation
import Exploration.Proofs.SearchRounds
