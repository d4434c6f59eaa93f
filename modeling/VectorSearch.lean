import VectorSearch.Change
import VectorSearch.Checked.Access
import VectorSearch.Checked.Code
import VectorSearch.Checked.Graph
import VectorSearch.Checked.Index
import VectorSearch.Checked.Partition
import VectorSearch.Count
import VectorSearch.Decimal.Binary
import VectorSearch.Decimal.Nearest
import VectorSearch.Decimal.Shortest
import VectorSearch.Decimal.Text
import VectorSearch.Embedding
import VectorSearch.Failure
import VectorSearch.Hit
import VectorSearch.Host
import VectorSearch.Index
import VectorSearch.Index.Code
import VectorSearch.Index.Flat
import VectorSearch.Index.Graph.Basic
import VectorSearch.Index.Graph.Beam
import VectorSearch.Index.Graph.Descent
import VectorSearch.Index.Graph.Links
import VectorSearch.Index.Graph.Steps
import VectorSearch.Index.InPlace
import VectorSearch.Index.Partition.Basic
import VectorSearch.Index.Partition.Centroids
import VectorSearch.Index.Partition.KMeans
import VectorSearch.IndexKind
import VectorSearch.Metric
import VectorSearch.Migration.Builder
import VectorSearch.Migration.Job
import VectorSearch.Migration.Owner
import VectorSearch.Migration.Record
import VectorSearch.Migration.Status
import VectorSearch.Migration.Worker
import VectorSearch.Plan.Feedback
import VectorSearch.Plan.Plan
import VectorSearch.Plan.Planner
import VectorSearch.Plan.Strategy
import VectorSearch.PriorityQueue
import VectorSearch.Proofs.Answers
import VectorSearch.Proofs.Best
import VectorSearch.Proofs.Blocks
import VectorSearch.Proofs.Breadth
import VectorSearch.Proofs.Checked.Access
import VectorSearch.Proofs.Checked.Centroids
import VectorSearch.Proofs.Checked.Code
import VectorSearch.Proofs.Checked.Graph
import VectorSearch.Proofs.Checked.Index
import VectorSearch.Proofs.Checked.Partition
import VectorSearch.Proofs.Code.Candidates
import VectorSearch.Proofs.Code.Contents
import VectorSearch.Proofs.Code.Slots
import VectorSearch.Proofs.Comparable
import VectorSearch.Proofs.Content
import VectorSearch.Proofs.Decimal.Nearest
import VectorSearch.Proofs.Decimal.Shortest
import VectorSearch.Proofs.Decimal.Word
import VectorSearch.Proofs.Double.Arithmetic
import VectorSearch.Proofs.Double.Growth
import VectorSearch.Proofs.Double.Model
import VectorSearch.Proofs.Double.Rounding
import VectorSearch.Proofs.Exact
import VectorSearch.Proofs.Families
import VectorSearch.Proofs.Flat
import VectorSearch.Proofs.Graph.BackLinks
import VectorSearch.Proofs.Graph.Beam
import VectorSearch.Proofs.Graph.Descent
import VectorSearch.Proofs.Graph.Exhaustion
import VectorSearch.Proofs.Graph.Frontier
import VectorSearch.Proofs.Graph.InPlace
import VectorSearch.Proofs.Graph.Layers
import VectorSearch.Proofs.Graph.Linking
import VectorSearch.Proofs.Graph.Links
import VectorSearch.Proofs.Graph.Pruning
import VectorSearch.Proofs.Graph.Search
import VectorSearch.Proofs.Graph.Steps
import VectorSearch.Proofs.Graph.Structure
import VectorSearch.Proofs.Graph.Tracking
import VectorSearch.Proofs.Graph.Unpruned
import VectorSearch.Proofs.Graph.Walk
import VectorSearch.Proofs.InPlace
import VectorSearch.Proofs.Messages
import VectorSearch.Proofs.Migration.Building
import VectorSearch.Proofs.Migration.Cancel
import VectorSearch.Proofs.Migration.History
import VectorSearch.Proofs.Migration.Progress
import VectorSearch.Proofs.Migration.Reason
import VectorSearch.Proofs.Migration.Rows
import VectorSearch.Proofs.Migration.Tally
import VectorSearch.Proofs.Migration.Turns
import VectorSearch.Proofs.Ordered
import VectorSearch.Proofs.Partition.Assignment
import VectorSearch.Proofs.Partition.Centroids
import VectorSearch.Proofs.Partition.Coverage
import VectorSearch.Proofs.Partition.Lists
import VectorSearch.Proofs.Partition.Placement
import VectorSearch.Proofs.Partition.Probes
import VectorSearch.Proofs.Partition.Training
import VectorSearch.Proofs.Plan.Feedback
import VectorSearch.Proofs.Plan.Growth
import VectorSearch.Proofs.Plan.Oversample
import VectorSearch.Proofs.Plan.Rules
import VectorSearch.Proofs.Query
import VectorSearch.Proofs.Queue
import VectorSearch.Proofs.Queue.Order
import VectorSearch.Proofs.Ranking
import VectorSearch.Proofs.Refusal
import VectorSearch.Proofs.Rows
import VectorSearch.Proofs.Run
import VectorSearch.Proofs.Score
import VectorSearch.Proofs.Settings.Document
import VectorSearch.Proofs.Settings.File
import VectorSearch.Proofs.Settings.Partial
import VectorSearch.Proofs.SignCode.Bits
import VectorSearch.Proofs.SignCode.Counting
import VectorSearch.Proofs.SignCode.Distance
import VectorSearch.Proofs.SignCode.RoundTrip
import VectorSearch.Proofs.SignCode.Wide
import VectorSearch.Proofs.Store
import VectorSearch.Proofs.Store.Contents
import VectorSearch.Proofs.Store.Hits
import VectorSearch.Proofs.Store.Layout
import VectorSearch.Proofs.Tags.Chains
import VectorSearch.Proofs.Tags.Edits
import VectorSearch.Proofs.Tags.Intersection
import VectorSearch.Proofs.Tags.Load
import VectorSearch.Proofs.Tags.Operations
import VectorSearch.Proofs.Tags.Table
import VectorSearch.Proofs.Tags.TagMap
import VectorSearch.Proofs.Tags.Updates
import VectorSearch.Proofs.Text.Truncate
import VectorSearch.Proofs.Toml.Block
import VectorSearch.Proofs.Toml.Digits
import VectorSearch.Proofs.Toml.Library
import VectorSearch.Proofs.Toml.Number
import VectorSearch.Proofs.Toml.Quoted
import VectorSearch.Proofs.Toml.Scalar
import VectorSearch.Proofs.Toml.Table
import VectorSearch.Query
import VectorSearch.Random.ChaCha
import VectorSearch.Random.Draws
import VectorSearch.Ranking
import VectorSearch.Settings.Basic
import VectorSearch.Settings.Check
import VectorSearch.Settings.Document
import VectorSearch.Settings.File
import VectorSearch.Settings.Text
import VectorSearch.SignCode.Basic
import VectorSearch.SignCode.Hamming
import VectorSearch.Similarity
import VectorSearch.Store
import VectorSearch.Tags.TagIndex
import VectorSearch.Tags.TagList
import VectorSearch.Text.Boundary
import VectorSearch.Text.Bounded
import VectorSearch.Toml.Block
import VectorSearch.Toml.Library
import VectorSearch.Toml.Moment
import VectorSearch.Toml.Number
import VectorSearch.Toml.Quoted
import VectorSearch.Toml.Reader
import VectorSearch.Toml.Section
import VectorSearch.Toml.Space
import VectorSearch.Toml.Table
import VectorSearch.Toml.Value
