import StackTrace.Machine.Classes
import StackTrace.Machine.Describe
import StackTrace.Machine.Threads
import StackTrace.Machine.Throwables
import StackTrace.Memory.Activity
import StackTrace.Memory.Holdings
import StackTrace.Proofs.Capture.InPlace
import StackTrace.Proofs.Capture.Limits
import StackTrace.Proofs.Capture.Locations
import StackTrace.Proofs.Capture.Session
import StackTrace.Proofs.Capture.Worker
import StackTrace.Proofs.DebugInfo.Canonical
import StackTrace.Proofs.DebugInfo.Truncation
import StackTrace.Proofs.Machine.Exhaustion
import StackTrace.Proofs.Machine.TopFrame
import StackTrace.Proofs.Machine.Totals
import StackTrace.Proofs.Memory.Ledger
import StackTrace.Proofs.Memory.Verifiers
import StackTrace.Proofs.Program.Interning
import StackTrace.Proofs.Program.Lines
import StackTrace.Proofs.Program.OrdinalLimit
import StackTrace.Proofs.Program.Registry
import StackTrace.Proofs.Program.Saturation
import StackTrace.Proofs.Settings.HandBuilt
import StackTrace.Proofs.Settings.Loading
import StackTrace.Proofs.Settings.Merging
import StackTrace.Proofs.Settings.Search
import StackTrace.Proofs.Stack.Filter
import StackTrace.Proofs.Stack.RecordedStack
import StackTrace.Proofs.Store.Printed
import StackTrace.Proofs.Store.Refill
import StackTrace.Proofs.Store.Representation
import StackTrace.Proofs.Store.RoundTrip
import StackTrace.Trace.Element
import StackTrace.Trace.Workbench
