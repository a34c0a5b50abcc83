import Repoint.Bytes
import Repoint.CommandLine
import Repoint.CommandLine.Help
import Repoint.Discovery
import Repoint.Error
import Repoint.Except
import Repoint.FileSystem.Basic
import Repoint.FileSystem.Change
import Repoint.FileSystem.Location
import Repoint.FileSystem.Operation
import Repoint.FileSystem.Resolve
import Repoint.FileSystem.Stage
import Repoint.Job
import Repoint.Json.Number
import Repoint.Json.Text
import Repoint.Json.Token
import Repoint.Log
import Repoint.Log.Filter
import Repoint.Log.Pattern
import Repoint.Main
import Repoint.OsError
import Repoint.Patch
import Repoint.Patch.Reader
import Repoint.Path
import Repoint.Program
import Repoint.Proofs.Discovery.Listing
import Repoint.Proofs.Discovery.Stability
import Repoint.Proofs.Discovery.Walk
import Repoint.Proofs.FileSystem.Following
import Repoint.Proofs.FileSystem.Naming
import Repoint.Proofs.FileSystem.Repointing
import Repoint.Proofs.FileSystem.Update
import Repoint.Proofs.Interruption
import Repoint.Proofs.Replace
import Repoint.Proofs.Rule.FixedPoint
import Repoint.Proofs.Rule.Insertion
import Repoint.Proofs.Rule.Scan
import Repoint.Proofs.Rule.Spec
import Repoint.Proofs.Run.Effect
import Repoint.Proofs.Run.Idempotence
import Repoint.Proofs.Run.Patching
import Repoint.Replace
import Repoint.Report.Writer
import Repoint.Rule
import Repoint.Run
import Repoint.Sink
import Repoint.Sorting
import Repoint.Terminal
import Repoint.Unicode.Alphabetic
import Repoint.Unicode.Numeric
import Repoint.Unicode.Range
import Repoint.Unicode.Space
import Repoint.Utf8
import Repoint.Proofs.Run.Crash
import Repoint.Proofs.Run.Frame
import Repoint.Proofs.Run.Resume
import Repoint.Proofs.Discovery.Blocks
import Repoint.Proofs.Run.DryRun
import Repoint.Proofs.Discovery.Followed
import Repoint.Proofs.CommandLine
import Repoint.Proofs.Program.Check
import Repoint.Proofs.Program.Counting
import Repoint.Proofs.Program.Listing
import Repoint.Proofs.Rule.Lines
import Repoint.Proofs.FileSystem.Passing
import Repoint.Proofs.Run.Order
import Repoint.Proofs.Json.Literal
import Repoint.Proofs.Json.Spelling
import Repoint.Proofs.Json.Value
import Repoint.Proofs.Report.Reader
import Repoint.Proofs.Report.RoundTrip
import Repoint.Proofs.Report.Shape
import Repoint.Proofs.Rule.Reversal
import Repoint.Proofs.Rule.Encoding
import Repoint.Proofs.Report.Buffer
import Repoint.Proofs.Run.Account
import Repoint.Proofs.Run.Bounds
import Repoint.Proofs.FileSystem.Parent
import Repoint.Proofs.Run.Beside
