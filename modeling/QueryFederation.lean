import QueryFederation.Http.Service
import QueryFederation.Source.Contents
import QueryFederation.Source.Documents
import QueryFederation.Source.Scripted
import QueryFederation.Proofs.Join.Buckets
import QueryFederation.Proofs.Row.Merge
import QueryFederation.Proofs.Join.Clock
import QueryFederation.Proofs.Join.HashJoin
import QueryFederation.Proofs.Join.Pushdown
import QueryFederation.Proofs.Federation.Partition
import QueryFederation.Proofs.Federation.Plan
import QueryFederation.Proofs.Federation.Pushdown
import QueryFederation.Proofs.Validation.Aggregates
import QueryFederation.Proofs.Validation.Consistency
import QueryFederation.Proofs.Federation.Filters
import QueryFederation.Proofs.Federation.Combination
import QueryFederation.Proofs.Federation.Transparency
import QueryFederation.Proofs.Join.Graph
import QueryFederation.Proofs.Join.Plan
import QueryFederation.Proofs.Federation.JoinGraph
import QueryFederation.Proofs.Expression.Dependencies
import QueryFederation.Proofs.Expression.Occurrence
import QueryFederation.Proofs.Expression.Inlining
import QueryFederation.Proofs.Expression.SelfContained
import QueryFederation.Proofs.Compilation.Aggregates
import QueryFederation.Proofs.Expression.Lookup
import QueryFederation.Proofs.Federation.Keys
import QueryFederation.Proofs.Federation.Answers
import QueryFederation.Proofs.Engine.Runs
import QueryFederation.Proofs.Result.Materialization
import QueryFederation.Proofs.Compilation.Sql
import QueryFederation.Proofs.Compilation.Pipeline
import QueryFederation.Proofs.Federation.SubDescriptions
import QueryFederation.Proofs.Federation.StandIns
import QueryFederation.Proofs.Join.Region
import QueryFederation.Proofs.Join.Tree
import QueryFederation.Proofs.Join.Uniform
import QueryFederation.Proofs.Federation.PartialCombination
import QueryFederation.Proofs.Federation.OuterSteps
import QueryFederation.Proofs.Federation.OuterRuns
import QueryFederation.Proofs.Federation.LikeRows
import QueryFederation.Proofs.Federation.OuterJoins
import QueryFederation.Proofs.Compilation.Folds
import QueryFederation.Proofs.Document.Field
import QueryFederation.Proofs.Filter.Agreement
import QueryFederation.Proofs.Document.Selection
import QueryFederation.Proofs.Document.Accumulation
import QueryFederation.Proofs.Document.Aggregation
import QueryFederation.Proofs.Sql.Quoting
import QueryFederation.Proofs.Sql.UniqueReading
import QueryFederation.Proofs.Expression.Lanes
import QueryFederation.Proofs.Join.Failures
import QueryFederation.Proofs.Federation.Failures
import QueryFederation.Proofs.Compilation.Labels
import QueryFederation.Proofs.Join.Mirror
import QueryFederation.Proofs.Federation.Mirror
import QueryFederation.Proofs.Result.Grouping
import QueryFederation.Proofs.Expression.Calls
import QueryFederation.Proofs.Result.Rearrangement
import QueryFederation.Proofs.Join.BuildSide
import QueryFederation.Proofs.Federation.RowOrder
import QueryFederation.Proofs.Federation.JoinableGroups
import QueryFederation.Proofs.Compilation.Cleanup
import QueryFederation.Proofs.Description.Reading
import QueryFederation.Proofs.Expression.Words
import QueryFederation.Proofs.Expression.Names
import QueryFederation.Proofs.Expression.SingleCalls
import QueryFederation.Proofs.Compilation.ColumnAggregates
import QueryFederation.Proofs.Value.Order
import QueryFederation.Proofs.Result.Sorting
import QueryFederation.Proofs.Expression.ColumnCalls
import QueryFederation.Proofs.Result.Extremes
import QueryFederation.Proofs.Result.Places
import QueryFederation.Proofs.Result.Conservation
import QueryFederation.Proofs.Result.DistinctCounts
import QueryFederation.Proofs.Expression.NullOperands
import QueryFederation.Proofs.Filter.Membership
import QueryFederation.Proofs.Text.Like
import QueryFederation.Proofs.Filter.Likes
import QueryFederation.Proofs.Value.Zero
import QueryFederation.Proofs.Expression.Negation
import QueryFederation.Proofs.Expression.ConditionalForms
import QueryFederation.Proofs.Expression.ZeroDivisors
import QueryFederation.Proofs.Document.GroupedFields
import QueryFederation.Proofs.Expression.Circles
import QueryFederation.Proofs.Expression.CleanedLiterals
import QueryFederation.Proofs.Compilation.Replacements
import QueryFederation.Proofs.Discovery.TableOrder
import QueryFederation.Proofs.Join.Deadline
import QueryFederation.Proofs.Discovery.Applicable
import QueryFederation.Proofs.Discovery.Hints
import QueryFederation.Proofs.Engine.Retries
import QueryFederation.Proofs.Join.IntegerKeys
