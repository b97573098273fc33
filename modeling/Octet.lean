import Octet.Assembler
import Octet.Cluster.Builder
import Octet.Cluster.File
import Octet.Command
import Octet.Disassembly
import Octet.Host.Channels
import Octet.Host.Console
import Octet.Machine.Report
import Octet.Main
import Octet.Settings
import Octet.Writer
import Octet.Proofs.Machine.Atomicity
import Octet.Proofs.Machine.Slicing
import Octet.Proofs.Assembler
import Octet.Proofs.Simulation
import Octet.Proofs.Machine.Invariant
import Octet.Proofs.Host.Input
import Octet.Proofs.Host.Readers
import Octet.Proofs.Host.Resumption
import Octet.Proofs.Host.Exhaustion
import Octet.Proofs.Source.TwoPass
import Octet.Proofs.Source.Scanning
import Octet.Proofs.Source.Wording
import Octet.Proofs.Disassembly
import Octet.Proofs.Cluster.Image
import Octet.Proofs.Listing
import Octet.Proofs.Machine.Tracing
import Octet.Proofs.Machine.Extension
import Octet.Proofs.Machine.Reset
import Octet.Proofs.Machine.Safety
import Octet.Proofs.Source.Reading
import Octet.Proofs.Reporting
import Octet.Proofs.Reuse
import Octet.Proofs.Relocation
import Octet.Proofs.Cluster.Queries
import Octet.Proofs.Text.Case
import Octet.Proofs.Text.Literal
import Octet.Proofs.Source.Literals
import Octet.Proofs.Source.Grammar
import Octet.Proofs.Cluster.Building
import Octet.Proofs.Truncation
import Octet.Proofs.Recognition
import Octet.Proofs.Formatting
import Octet.Proofs.Attribution
import Octet.Proofs.Machine.Termination
import Octet.Proofs.Requests
import Octet.Proofs.Command
