import KnowledgeGraph.Service
import KnowledgeGraph.Proofs.Attempt
import KnowledgeGraph.Proofs.Except
import KnowledgeGraph.Proofs.Store.Numbers
import KnowledgeGraph.Proofs.Store.Refusal
import KnowledgeGraph.Proofs.Atom.Deep
import KnowledgeGraph.Proofs.Table
import KnowledgeGraph.Proofs.Atom.AsRead
import KnowledgeGraph.Proofs.Store.Attributes
import KnowledgeGraph.Proofs.Store.Calls
import KnowledgeGraph.Proofs.Store.Tidy
import KnowledgeGraph.Proofs.Store.Backup
import KnowledgeGraph.Proofs.Store.Maps
import KnowledgeGraph.Proofs.Store.Fresh
import KnowledgeGraph.Proofs.Store.Order
import KnowledgeGraph.Proofs.Store.WellFormed
import KnowledgeGraph.Proofs.Store.Query
import KnowledgeGraph.Proofs.Store.Update
import KnowledgeGraph.Proofs.Reasoning.Traversal
import KnowledgeGraph.Proofs.Reasoning.Knowledge
import KnowledgeGraph.Proofs.Reasoning.Deduction
import KnowledgeGraph.Proofs.Learning.History
import KnowledgeGraph.Proofs.Learning.Core
import KnowledgeGraph.Proofs.Learning.Mirror
import KnowledgeGraph.Proofs.Number.Order
import KnowledgeGraph.Proofs.Reasoning.Failure
import KnowledgeGraph.Proofs.Pattern.Selection
import KnowledgeGraph.Proofs.Coupling
import KnowledgeGraph.Proofs.Learning.View
import KnowledgeGraph.Proofs.Learning.Isolation
import KnowledgeGraph.Proofs.Learning.Feedback
import KnowledgeGraph.Proofs.Learning.Adapting
import KnowledgeGraph.Proofs.Engine.Trace
import KnowledgeGraph.Proofs.Json.Keys
import KnowledgeGraph.Proofs.Atom.Faults
import KnowledgeGraph.Proofs.Store.Import
import KnowledgeGraph.Proofs.Number.Rounding
import KnowledgeGraph.Proofs.Number.Value
import KnowledgeGraph.Proofs.Number.Arithmetic
import KnowledgeGraph.Proofs.Reasoning.Hybrid
import KnowledgeGraph.Proofs.Learning.Weights
import KnowledgeGraph.Proofs.Reasoning.Weighing
import KnowledgeGraph.Proofs.Engine.Steering
import KnowledgeGraph.Proofs.Number.Bounds
import KnowledgeGraph.Proofs.Learning.Replay
import KnowledgeGraph.Proofs.Learning.Models
import KnowledgeGraph.Proofs.Learning.Lifecycle
import KnowledgeGraph.Proofs.Learning.Ranges
import KnowledgeGraph.Proofs.Atom.Json
import KnowledgeGraph.Proofs.Pattern.Detection
import KnowledgeGraph.Proofs.Pattern.Recognition
import KnowledgeGraph.Proofs.Pattern.Alike
import KnowledgeGraph.Proofs.Learning.Retraining
import KnowledgeGraph.Proofs.Reasoning.Depth
import KnowledgeGraph.Proofs.Engine.Asking
import KnowledgeGraph.Proofs.Engine.Crediting
import KnowledgeGraph.Proofs.Reasoning.Growth
import KnowledgeGraph.Proofs.Reasoning.Unnamed
import KnowledgeGraph.Proofs.Engine.Ceilings
import KnowledgeGraph.Proofs.Number.Reading
import KnowledgeGraph.Proofs.Json.Encoding
import KnowledgeGraph.Proofs.Service.Path
import KnowledgeGraph.Proofs.Service.Forms
import KnowledgeGraph.Proofs.Service.Query
import KnowledgeGraph.Proofs.Sorting
import KnowledgeGraph.Proofs.Best
import KnowledgeGraph.Proofs.Reasoning.Abduction
import KnowledgeGraph.Proofs.Reasoning.Completion
import KnowledgeGraph.Proofs.Learning.Sightings
import KnowledgeGraph.Proofs.Learning.Prediction
import KnowledgeGraph.Proofs.Learning.Recommendation
import KnowledgeGraph.Proofs.Number.Exact
import KnowledgeGraph.Proofs.Number.Quotient
import KnowledgeGraph.Proofs.Number.Whole
import KnowledgeGraph.Proofs.Number.Decimal
import KnowledgeGraph.Proofs.Number.Numeral
import KnowledgeGraph.Proofs.Kinds
import KnowledgeGraph.Proofs.Value.Writable
import KnowledgeGraph.Proofs.Value.Canonical
import KnowledgeGraph.Proofs.Json.Reading
import KnowledgeGraph.Proofs.Json.Scalar
import KnowledgeGraph.Proofs.Json.RoundTrip
import KnowledgeGraph.Proofs.Value.Same
import KnowledgeGraph.Proofs.Learning.Writes
import KnowledgeGraph.Proofs.Learning.Merging
import KnowledgeGraph.Proofs.Pattern.Behavior
import KnowledgeGraph.Proofs.Pattern.Cluster
import KnowledgeGraph.Proofs.Pattern.Repetition
import KnowledgeGraph.Proofs.Pattern.Nesting
import KnowledgeGraph.Proofs.Pattern.Sequence
import KnowledgeGraph.Proofs.Pattern.Progression
import KnowledgeGraph.Proofs.Pattern.Flow
import KnowledgeGraph.Proofs.Text.Regex
import KnowledgeGraph.Proofs.Pattern.Code
import KnowledgeGraph.Proofs.Number.Sum
import KnowledgeGraph.Proofs.Reasoning.Induction
import KnowledgeGraph.Proofs.Reasoning.Maintainability
import KnowledgeGraph.Proofs.Reasoning.Quality
import KnowledgeGraph.Proofs.Reasoning.Naming
import KnowledgeGraph.Proofs.Learning.Inverse
import KnowledgeGraph.Proofs.Text.Name
