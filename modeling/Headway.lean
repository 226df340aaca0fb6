import Headway.Main
import Headway.Proofs.Binary64.Order
import Headway.Proofs.Estimator.Samples
import Headway.Proofs.Estimator.Tick
import Headway.Proofs.Transfer.Run
import Headway.Proofs.Transfer.Progress
import Headway.Proofs.Session.Flags
import Headway.Proofs.Session.Rounds
import Headway.Proofs.Session.Simulation
import Headway.Proofs.Session.Timetable
import Headway.Proofs.Session.Lifecycle
import Headway.Proofs.Transfer.Bytes
import Headway.Proofs.Simulation.Loop
import Headway.Proofs.Simulation.Volumes
import Headway.Proofs.Binary64.Quotient
import Headway.Proofs.Simulation.Faults
import Headway.Proofs.Transfer.Answers
import Headway.Proofs.Simulation.Script
import Headway.Proofs.Simulation.Display
import Headway.Proofs.Transfer.Stalls
import Headway.Proofs.Transfer.Span
import Headway.Proofs.Binary64.Product
import Headway.Proofs.Transfer.Trail
import Headway.Proofs.Transfer.Faults
import Headway.Proofs.Transfer.Frozen
import Headway.Proofs.Transfer.Speed
import Headway.Proofs.Transfer.Timeless
import Headway.Proofs.Session.Trail
import Headway.Proofs.Channel.Delivery
import Headway.Proofs.Channel.Independence
import Headway.Proofs.Toml.Written
import Headway.Proofs.Config.Written
import Headway.Proofs.FileTree.Growth
import Headway.Proofs.Program.Run
import Headway.Proofs.Program.Files
import Headway.Proofs.CommandLine.Options
import Headway.Proofs.CommandLine.Placement
import Headway.Proofs.Program.Resolution
import Headway.Proofs.Program.Settings
import Headway.Proofs.Binary64.Nearest
import Headway.Proofs.Report.Amounts
import Headway.Proofs.Report.Words
import Headway.Proofs.Toml.Building
import Headway.Proofs.Toml.Reading
import Headway.Proofs.Config.Documents
import Headway.Proofs.Binary64.Exact
import Headway.Proofs.Statistics.Moments
import Headway.Proofs.Statistics.Window
import Headway.Proofs.Transfer.Uniform
import Headway.Proofs.Binary64.Neighbours
import Headway.Proofs.Decimal.Numeral
import Headway.Proofs.Decimal.Shortest
import Headway.Proofs.Decimal.Notation
import Headway.Proofs.Report.Json
