import OlapCalc.Config.Basic
import OlapCalc.Config.Decode
import OlapCalc.Cube.Builder
import OlapCalc.Cube.Memory
import OlapCalc.Cube.Presets
import OlapCalc.Cube.Request
import OlapCalc.Error
import OlapCalc.Eval.Context
import OlapCalc.Eval.Core
import OlapCalc.Eval.Query
import OlapCalc.Eval.Savepoint
import OlapCalc.Eval.Scope
import OlapCalc.Eval.TupleSet
import OlapCalc.Format.Pattern
import OlapCalc.Function.Table
import OlapCalc.Json.Basic
import OlapCalc.Json.Parse
import OlapCalc.Model.Basic
import OlapCalc.Model.Render
import OlapCalc.Native.Formula
import OlapCalc.Native.Site
import OlapCalc.Node.Basic
import OlapCalc.Node.Compile
import OlapCalc.Numeric.Binary64
import OlapCalc.Numeric.FloatSyntax
import OlapCalc.Numeric.FloatText
import OlapCalc.Numeric.Stats
import OlapCalc.Service.Answer
import OlapCalc.Service.Dispatch
import OlapCalc.Service.Engine
import OlapCalc.Service.Inspect
import OlapCalc.Service.Request
import OlapCalc.Service.Session
import OlapCalc.Value.Basic
import OlapCalc.Value.Shape
import OlapCalc.Proofs.Savepoint
import OlapCalc.Proofs.Scope
import OlapCalc.Proofs.Traversal
import OlapCalc.Proofs.CutShort
import OlapCalc.Proofs.ResultLimit
import OlapCalc.Proofs.Pushdown
import OlapCalc.Proofs.Indifference
import OlapCalc.Proofs.Dependency
import OlapCalc.Proofs.ShapeInference
import OlapCalc.Proofs.NodeTyping
import OlapCalc.Proofs.CompileTyping
import OlapCalc.Proofs.NonEmptyMode
import OlapCalc.Proofs.TupleArity
import OlapCalc.Proofs.Conformance
import OlapCalc.Proofs.UniqueNames
import OlapCalc.Proofs.CubeBuilding
import OlapCalc.Proofs.MemberIndex
import OlapCalc.Proofs.CompileErrors
import OlapCalc.Proofs.EmptinessAnalysis
import OlapCalc.Proofs.Folding
import OlapCalc.Proofs.Representation
import OlapCalc.Proofs.Aggregates
import OlapCalc.Proofs.SortKeys
import OlapCalc.Proofs.Ranking
import OlapCalc.Proofs.Selection
import OlapCalc.Proofs.Overloads
import OlapCalc.Proofs.SolveOrder
import OlapCalc.Proofs.CellLayout
import OlapCalc.Proofs.SetOperators
import OlapCalc.Proofs.ProductOrder
import OlapCalc.Proofs.ExactKernels
import OlapCalc.Proofs.FloatModel
import OlapCalc.Proofs.NumberFormat
import OlapCalc.Proofs.FloatRounding
import OlapCalc.Proofs.Percentile
import OlapCalc.Proofs.CompileFuel
import OlapCalc.Proofs.MemberClosure
import OlapCalc.Proofs.Universe
import OlapCalc.Proofs.Settling
import OlapCalc.Proofs.Termination
import OlapCalc.Proofs.FormulaErrors
import OlapCalc.Proofs.NativeCrossJoin
