import DataCube.Domain
import DataCube.Number.Binary64
import DataCube.Number.Decimal
import DataCube.Number.Text
import DataCube.Number.Integer
import DataCube.Text.CaseData
import DataCube.Text.Lowercase
import DataCube.Scalar
import DataCube.Name
import DataCube.Schema
import DataCube.Error
import DataCube.Scalar.Cast
import DataCube.Schema.Projection
import DataCube.Lineage
import DataCube.Row
import DataCube.DataSet
import DataCube.Grouping
import DataCube.Reducer.Moments
import DataCube.Reducer.Split
import DataCube.Reducer.Accumulator
import DataCube.Reducer
import DataCube.Operator
import DataCube.Expr
import DataCube.Shape
import DataCube.Bindings
import DataCube.Workspace
import DataCube.Scope
import DataCube.Window
import DataCube.Aggregation
import DataCube.Typing
import DataCube.Evaluation
import DataCube.Lineage.Cache
import DataCube.Settings.Text
import DataCube.Settings.Setting
import DataCube.Settings.Quoted
import DataCube.Settings.DateTime
import DataCube.Settings.Word
import DataCube.Settings.Table
import DataCube.Settings.Document
import DataCube.Settings
import DataCube.Proofs.Correspondence
import DataCube.Proofs.Outcome
import DataCube.Proofs.Typing.Precision
import DataCube.Proofs.OperatorResults
import DataCube.Proofs.Rows
import DataCube.Proofs.Typing.Schemas
import DataCube.Proofs.Typing.Monotone
import DataCube.Proofs.Typing.Preservation
import DataCube.Proofs.RowStreams
import DataCube.Proofs.Rounding
import DataCube.Proofs.WholeSums
import DataCube.Proofs.ExactSums
import DataCube.Proofs.IntegerSums
import DataCube.Proofs.ScalarOrder
import DataCube.Proofs.NullExclusion
import DataCube.Proofs.Splits
import DataCube.Proofs.Moments
import DataCube.Proofs.Grouping
import DataCube.Proofs.Safety.Drafts
import DataCube.Proofs.Safety.Reductions
import DataCube.Proofs.Safety.Schemas
import DataCube.Proofs.Safety.DataSets
import DataCube.Proofs.Safety.Groups
import DataCube.Proofs.Safety.Scopes
import DataCube.Proofs.Safety.Evaluation
import DataCube.Proofs.Safety.Failures
import DataCube.Proofs.Windows
import DataCube.Proofs.Shifts
import DataCube.Proofs.Interchange.Scalars
import DataCube.Proofs.Interchange.Rows
import DataCube.Proofs.Interchange.Reductions
import DataCube.Proofs.Interchange.Groups
import DataCube.Proofs.Interchange.Expressions
import DataCube.Proofs.Interchange.Evaluation
import DataCube.Proofs.OrderBlind
import DataCube.Proofs.ReducedRows
import DataCube.Proofs.WholePartitions
import DataCube.Proofs.Frames
import DataCube.Proofs.Typing.Gradual
import DataCube.Proofs.Contributions
import DataCube.Proofs.Aggregates
import DataCube.Proofs.Identifiers
import DataCube.Proofs.DefinedMeasures
import DataCube.Proofs.ProjectedNames
import DataCube.Proofs.UniqueKeys
import DataCube.Proofs.Iterators
import DataCube.Proofs.Provenance
import DataCube.Proofs.RuleDepth
import DataCube.Proofs.Visibility
import DataCube.Proofs.ComputedRows
import DataCube.Proofs.Typing.Independence
import DataCube.Proofs.PullDepth
import DataCube.Proofs.Comparisons
import DataCube.Proofs.Narrowing
import DataCube.Proofs.RejectedDefaults
import DataCube.Proofs.Faults
import DataCube.Proofs.Arrivals
import DataCube.Proofs.Cache.Requests
import DataCube.Proofs.Cache.Runs
import DataCube.Proofs.Cache.Sharing
import DataCube.Proofs.Cache.Lifetimes
import DataCube.Proofs.ComposedShifts
import DataCube.Proofs.MirroredShifts
import DataCube.Proofs.FusedFilters
import DataCube.Proofs.Projections
import DataCube.Proofs.MemberOperators
import DataCube.Proofs.Rollups
import DataCube.Proofs.NamedRows
import DataCube.Proofs.DefaultWindows
import DataCube.Proofs.MergedGroups
import DataCube.Proofs.LayeredSettings
import DataCube.Proofs.SharedEvaluation
