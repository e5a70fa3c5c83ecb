import Dataflow.Config.Document
import Dataflow.Program.Compile
import Dataflow.Program.Listing
import Dataflow.Proofs.Dependency.Recursion
import Dataflow.Proofs.Dependency.Run
import Dataflow.Proofs.Program.Liveness
import Dataflow.Proofs.Program.Accounting
import Dataflow.Proofs.Program.Listing
import Dataflow.Proofs.Runner.Stateless
import Dataflow.Runner.Basic
import Dataflow.Proofs.Slot.Renaming
import Dataflow.Proofs.Program.Matching
import Dataflow.Proofs.Program.Renaming
import Dataflow.Proofs.Graph.Removal
import Dataflow.Proofs.Program.DeadCode
import Dataflow.Proofs.Program.Validity
import Dataflow.Proofs.Runner.Requests
import Dataflow.Proofs.Runner.Safety
import Dataflow.Proofs.Program.Agreement
import Dataflow.Proofs.Program.Extension
import Dataflow.Proofs.Program.Attachment
import Dataflow.Proofs.Program.Unread
import Dataflow.Proofs.Runner.Noninterference
import Dataflow.Proofs.Slot.Run
import Dataflow.Proofs.Runner.Evaluations
import Dataflow.Proofs.Runner.Loading
import Dataflow.Proofs.Runner.Timing
import Dataflow.Proofs.Graph.Faults
import Dataflow.Proofs.Program.Rejection
import Dataflow.Proofs.Binary.Nearest
import Dataflow.Proofs.Binary.Reading
import Dataflow.Proofs.Binary.Rounding
import Dataflow.Proofs.Binary.Sums
import Dataflow.Proofs.Binary.Values
import Dataflow.Proofs.Config.Conservation
import Dataflow.Proofs.Config.RoundTrip
import Dataflow.Proofs.Config.Overflow
import Dataflow.Proofs.Runner.Conservation
import Dataflow.Proofs.Runner.Throttle
import Dataflow.Proofs.Slot.Lifetime
import Dataflow.Proofs.Runner.Declaration
import Dataflow.Proofs.Runner.Frame
import Dataflow.Proofs.Value.Coercion
