import OrderedJobs.CommandLine.Basic
import OrderedJobs.Main
import OrderedJobs.Proofs.Collecting
import OrderedJobs.Proofs.ExitCode
import OrderedJobs.Proofs.OutputOrder
import OrderedJobs.Proofs.Progress
import OrderedJobs.Proofs.RingAndCursors
import OrderedJobs.Proofs.JobLines
import OrderedJobs.Proofs.Calls
import OrderedJobs.Proofs.PlainCalls
import OrderedJobs.Proofs.Instants
import OrderedJobs.Proofs.ProcessBound
import OrderedJobs.Proofs.Accounting
import OrderedJobs.Proofs.Descriptors
import OrderedJobs.Proofs.Reporting
import OrderedJobs.Proofs.Admission
import OrderedJobs.Proofs.BoardExchange
import OrderedJobs.Proofs.HandlingOrder
import OrderedJobs.Proofs.BoardChanges
import OrderedJobs.Proofs.LifeCycle
import OrderedJobs.Proofs.LineGrammar
import OrderedJobs.Proofs.EchoRoundTrip
import OrderedJobs.Proofs.ChildProtocol
import OrderedJobs.Proofs.Spawning
import OrderedJobs.Proofs.ReapedBatch
import OrderedJobs.Proofs.Validation
import OrderedJobs.Proofs.ShortWrites
import OrderedJobs.Proofs.FlagGrammar
import OrderedJobs.Proofs.CommandLines
import OrderedJobs.Proofs.BadInput
