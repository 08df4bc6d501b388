import InferUI.Layout
import InferUI.Generate
import InferUI.Merge
import InferUI.Cache
import InferUI.Formula
import InferUI.Candidates
import InferUI.Encoding
import InferUI.SingleQuery
import InferUI.Equisat
import InferUI.Selection
import InferUI.Uniqueness
import InferUI.Graph
import InferUI.Extraction
import InferUI.Anchored
import InferUI.Enumeration
import InferUI.Agreement
import InferUI.MultiDevice
import InferUI.RootAnchor
import InferUI.SingleScreen
import InferUI.Greedy
import InferUI.Written
import InferUI.Properties
import InferUI.Robustness
import InferUI.Json
import InferUI.MergeOrder
import InferUI.Request
import InferUI.RecordIO
import InferUI.Codec
import InferUI.ConstraintModel
import InferUI.Decimal
import InferUI.Document
import InferUI.Copy
import InferUI.Relayout
import InferUI.Render
import InferUI.Blocking
import InferUI.Iterative
import InferUI.Oracle
import InferUI.Screens
import InferUI.Targets
import InferUI.Filtering
import InferUI.AnchorCheck
import InferUI.LayoutSolver
import InferUI.Normalize
import InferUI.Repair
import InferUI.RepairRounds
import InferUI.DoWhile
import InferUI.UserFeedback
import InferUI.FeedbackSpec
import InferUI.Plane
import InferUI.Crossing
import InferUI.ConstraintNames
import InferUI.RankLookup
import InferUI.ProtoScreen
import InferUI.DatasetApp
import InferUI.GivenLayout
import InferUI.Smoothing
import InferUI.CycleTest
import InferUI.Pruning
import InferUI.NameRegex
import InferUI.DamagedFile
import InferUI.AppChecks
import InferUI.MultiDeviceRounds
import InferUI.MultiDeviceSynthesis
import InferUI.Widening
import InferUI.WorkQueue
import InferUI.ThreadPoolRuns
import InferUI.Placement
import InferUI.OracleCandidates
