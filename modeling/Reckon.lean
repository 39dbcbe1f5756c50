import Reckon.Text
import Reckon.Text.Blank
import Reckon.Text.Case
import Reckon.Text.CaseTable
import Reckon.Text.Point
import Reckon.Text.Quoted
import Reckon.Double
import Reckon.Double.Decimal
import Reckon.Double.Printer
import Reckon.Double.Reader
import Reckon.Entries
import Reckon.Value
import Reckon.Value.Access
import Reckon.Value.Binding
import Reckon.Value.Host
import Reckon.Value.Operators
import Reckon.Value.Owned
import Reckon.Expr
import Reckon.Expr.Fold
import Reckon.Expr.Key
import Reckon.Expr.Source
import Reckon.Code.Compile
import Reckon.Code.Instruction
import Reckon.Code.Listing
import Reckon.Code.Opcode
import Reckon.Code.Pool
import Reckon.Code.Program
import Reckon.Code.Reach
import Reckon.Report
import Reckon.Machine
import Reckon.Machine.Builtin
import Reckon.Machine.Stack
import Reckon.Watch
import Reckon.Cache
import Reckon.Engine
import Reckon.Proofs.Elimination
import Reckon.Proofs.NumberText
import Reckon.Proofs.Assembly
import Reckon.Proofs.Encoding
import Reckon.Proofs.Evaluation
import Reckon.Proofs.Execution
import Reckon.Proofs.Heights
import Reckon.Proofs.Emission
import Reckon.Proofs.Compilation
import Reckon.Proofs.Simulation
import Reckon.Proofs.Folding
import Reckon.Proofs.Correctness
import Reckon.Proofs.StackNeed
import Reckon.Proofs.Safety
import Reckon.Proofs.Delimiting
import Reckon.Proofs.Keys
import Reckon.Proofs.Actions
import Reckon.Proofs.Agreement
import Reckon.Proofs.Sweeping
import Reckon.Proofs.Reachability
import Reckon.Proofs.Dependence
import Reckon.Proofs.Sharing
import Reckon.Proofs.Operations
import Reckon.Proofs.Configuration
import Reckon.Proofs.Coherence
import Reckon.Proofs.Memoization
import Reckon.Proofs.Recency
import Reckon.Proofs.Answers
import Reckon.Proofs.Reuse
import Reckon.Proofs.Staleness
import Reckon.Proofs.HostOrder
import Reckon.Proofs.WellFormed
import Reckon.Proofs.Limits
import Reckon.Proofs.Truncation
import Reckon.Proofs.Tightening
import Reckon.Proofs.Faults
import Reckon.Proofs.NormalForm
import Reckon.Proofs.Nesting
import Reckon.Proofs.Equality
import Reckon.Proofs.WholeNumbers
import Reckon.Proofs.Unfolding
import Reckon.Proofs.RoundTrip
import Reckon.Proofs.Arithmetic
import Reckon.Proofs.Ordering
import Reckon.Proofs.Lifetimes
import Reckon.Proofs.Nearest
import Reckon.Proofs.Shortest
import Reckon.Proofs.Declarations
import Reckon.Proofs.GeneralFormat
import Reckon.Proofs.Listings
import Reckon.Proofs.LargeNumbers
import Reckon.Proofs.Packing
import Reckon.Proofs.Positions
import Reckon.Proofs.Notification
