import Backtrack.Main
import Backtrack.Marks.Command
import Backtrack.Session.Command
import Backtrack.Source.Command
import Backtrack.Proofs.Utf8.Sequence
import Backtrack.Proofs.Source.Runs
import Backtrack.Proofs.Stream.Positions
import Backtrack.Proofs.Stream.RoundTrip
import Backtrack.Proofs.Source.Ahead
import Backtrack.Proofs.Stream.Uses
import Backtrack.Proofs.Stream.Drift
import Backtrack.Proofs.Stream.Attempts
import Backtrack.Proofs.Stream.Programs
import Backtrack.Proofs.Stream.Beside
import Backtrack.Proofs.Stream.Windows
import Backtrack.Proofs.Stream.Refinement
import Backtrack.Proofs.Search.Matching
import Backtrack.Proofs.Search.Find
import Backtrack.Proofs.Marks.Pile
import Backtrack.Proofs.Json.Grammar
import Backtrack.Proofs.Json.Skipping
import Backtrack.Proofs.Json.Reading
import Backtrack.Proofs.Json.Records
import Backtrack.Proofs.Config.Spellings
import Backtrack.Proofs.Json.Writing
import Backtrack.Proofs.Config.RoundTrip
import Backtrack.Proofs.Text.Lines
import Backtrack.Proofs.Utf8.Lossy
import Backtrack.Proofs.Search.Lines
import Backtrack.Proofs.Report.Caret
import Backtrack.Proofs.Report.Positions
import Backtrack.Proofs.Report.Alignment
import Backtrack.Proofs.Report.Symbols
import Backtrack.Proofs.Report.LineNumbers
import Backtrack.Proofs.Source.Retention
import Backtrack.Proofs.Source.Rereading
import Backtrack.Proofs.Stream.Reached
import Backtrack.Proofs.Stream.Retention
import Backtrack.Proofs.Stream.Folding
import Backtrack.Proofs.Search.Comparing
import Backtrack.Proofs.Stream.Candid
import Backtrack.Proofs.Search.Scanning
import Backtrack.Proofs.Search.Inspecting
import Backtrack.Proofs.Search.Folded
import Backtrack.Proofs.Stream.Insertions
import Backtrack.Proofs.Stream.Course
import Backtrack.Proofs.Marks.Latest
import Backtrack.Proofs.Stream.Rewinding
import Backtrack.Proofs.Source.Warnings
import Backtrack.Proofs.Stream.Warnings
import Backtrack.Proofs.Stream.Seeking
import Backtrack.Proofs.Source.Resuming
import Backtrack.Proofs.Stream.Resuming
import Backtrack.Proofs.Log.Filter
import Backtrack.Proofs.Session.Calls
import Backtrack.Proofs.Source.Pulls
import Backtrack.Proofs.Source.Buffering
import Backtrack.Proofs.Json.Extending
import Backtrack.Proofs.Json.Steady
import Backtrack.Proofs.Json.Cutting
import Backtrack.Proofs.Config.Whole
