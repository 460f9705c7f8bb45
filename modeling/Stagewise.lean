import Stagewise.Analysis.Declarations
import Stagewise.Analysis.Infer
import Stagewise.Analysis.State
import Stagewise.Backend.Basic
import Stagewise.Backend.Buffer
import Stagewise.Backend.Peer
import Stagewise.Compile
import Stagewise.Data.Basic
import Stagewise.Data.Printer
import Stagewise.Data.Reader
import Stagewise.Data.Record
import Stagewise.Data.Tagged
import Stagewise.Decimal.Layout
import Stagewise.Decimal.Reading
import Stagewise.Decimal.Shortest
import Stagewise.Declaration.Builtin
import Stagewise.Declaration.Collect
import Stagewise.Dependency.Graph
import Stagewise.Dependency.Uses
import Stagewise.Expansion.Decode
import Stagewise.Failure.Diagnostic
import Stagewise.Failure.Fatal
import Stagewise.Integer
import Stagewise.Location
import Stagewise.Operator
import Stagewise.Proofs.Analysis.Acts
import Stagewise.Proofs.Analysis.Again
import Stagewise.Proofs.Analysis.Book
import Stagewise.Proofs.Analysis.Cache
import Stagewise.Proofs.Analysis.Cached
import Stagewise.Proofs.Analysis.Captures
import Stagewise.Proofs.Analysis.Congruence
import Stagewise.Proofs.Analysis.Expanded
import Stagewise.Proofs.Analysis.Follows
import Stagewise.Proofs.Analysis.Hints
import Stagewise.Proofs.Analysis.Inference
import Stagewise.Proofs.Analysis.Knowledge
import Stagewise.Proofs.Analysis.Ledger
import Stagewise.Proofs.Analysis.Lookups
import Stagewise.Proofs.Analysis.Moves
import Stagewise.Proofs.Analysis.Nesting
import Stagewise.Proofs.Analysis.Proceeds
import Stagewise.Proofs.Analysis.Record
import Stagewise.Proofs.Analysis.Recorded
import Stagewise.Proofs.Analysis.References
import Stagewise.Proofs.Analysis.Reordered
import Stagewise.Proofs.Analysis.Replay
import Stagewise.Proofs.Analysis.Reports
import Stagewise.Proofs.Analysis.Restored
import Stagewise.Proofs.Analysis.Retained
import Stagewise.Proofs.Analysis.Session
import Stagewise.Proofs.Analysis.Settle
import Stagewise.Proofs.Analysis.Soundness
import Stagewise.Proofs.Analysis.Sourced
import Stagewise.Proofs.Analysis.Steps
import Stagewise.Proofs.Analysis.Tally
import Stagewise.Proofs.Analysis.Tracks
import Stagewise.Proofs.Analysis.Transcript
import Stagewise.Proofs.Analysis.Trees
import Stagewise.Proofs.Analysis.Unfolded
import Stagewise.Proofs.Analysis.Wheel
import Stagewise.Proofs.Backend.Wire
import Stagewise.Proofs.Compile.Cached
import Stagewise.Proofs.Compile.Circuit
import Stagewise.Proofs.Compile.Closed
import Stagewise.Proofs.Compile.Emission
import Stagewise.Proofs.Compile.Folding
import Stagewise.Proofs.Compile.Knowledge
import Stagewise.Proofs.Compile.Lookups
import Stagewise.Proofs.Compile.Masking
import Stagewise.Proofs.Compile.Order
import Stagewise.Proofs.Compile.Permuted
import Stagewise.Proofs.Compile.Reachable
import Stagewise.Proofs.Compile.Run
import Stagewise.Proofs.Compile.Scoping
import Stagewise.Proofs.Compile.Settlement
import Stagewise.Proofs.Compile.Symbols
import Stagewise.Proofs.Compile.Termination
import Stagewise.Proofs.Data.Proper
import Stagewise.Proofs.Declaration.Collect
import Stagewise.Proofs.Declaration.Lookup
import Stagewise.Proofs.Dependency.Ascriptions
import Stagewise.Proofs.Dependency.Circuit
import Stagewise.Proofs.Dependency.Paths
import Stagewise.Proofs.Dependency.Permuted
import Stagewise.Proofs.Dependency.Search
import Stagewise.Proofs.Dependency.StageGraph
import Stagewise.Proofs.Environment
import Stagewise.Proofs.Expansion.FirstOrder
import Stagewise.Proofs.Expansion.Grammar
import Stagewise.Proofs.Expansion.Names
import Stagewise.Proofs.Reach
import Stagewise.Proofs.Scope
import Stagewise.Proofs.Scope.History
import Stagewise.Proofs.Scope.Twice
import Stagewise.Proofs.Scope.Visits
import Stagewise.Proofs.Skeleton
import Stagewise.Proofs.Source.Parts
import Stagewise.Proofs.Source.Plain
import Stagewise.Proofs.Stage.Depth
import Stagewise.Proofs.Stage.Levels
import Stagewise.Proofs.Stage.Members
import Stagewise.Proofs.Stage.Passes
import Stagewise.Proofs.Stage.Rounds
import Stagewise.Proofs.Stage.Soundness
import Stagewise.Proofs.Target.Literals
import Stagewise.Proofs.Target.Returns
import Stagewise.Proofs.Target.Skeleton
import Stagewise.Proofs.Term.Globals
import Stagewise.Proofs.Term.Loose
import Stagewise.Proofs.Term.Meaning
import Stagewise.Proofs.Term.Rules
import Stagewise.Proofs.Term.Typing
import Stagewise.Proofs.Ty.Descriptor
import Stagewise.Proofs.Ty.Grammar
import Stagewise.Proofs.Value.RoundTrip
import Stagewise.Reach
import Stagewise.Scope
import Stagewise.Source.Tree
import Stagewise.Stage.Graph
import Stagewise.Stage.Schedule
import Stagewise.Target.Lower
import Stagewise.Target.Printer
import Stagewise.Target.Tree
import Stagewise.Term.Basic
import Stagewise.Term.Fold
import Stagewise.Text.Invisible
import Stagewise.Text.Quoted
import Stagewise.Ty.Basic
import Stagewise.Ty.Pool
import Stagewise.Ty.Tagged
import Stagewise.Ty.Target
import Stagewise.Value.Basic
import Stagewise.Value.Listing
import Stagewise.Value.Tagged
