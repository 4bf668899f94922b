import LineCensus.Main
import LineCensus.Proofs.FirstSeen
import LineCensus.Proofs.Tally.Components
import LineCensus.Proofs.Scan.Schedule
import LineCensus.Proofs.Tally.Sums
import LineCensus.Proofs.Scan.FileLog
import LineCensus.Proofs.Tally.Bookkeeping
import LineCensus.Proofs.Scan.Tabulation
import LineCensus.Proofs.Line.Reading
import LineCensus.Proofs.Text.Decoding
import LineCensus.Proofs.Line.Counting
import LineCensus.Proofs.Scan.Sequence
import LineCensus.Proofs.Path.Below
import LineCensus.Proofs.FileTree.Below
import LineCensus.Proofs.Scan.Location
import LineCensus.Proofs.Report.Conservation
import LineCensus.Proofs.Text.Surrounded
import LineCensus.Proofs.Line.Resuming
import LineCensus.Proofs.Path.Stem
import LineCensus.Proofs.FileTree.Leads
import LineCensus.Proofs.FileTree.Order
import LineCensus.Proofs.Scan.Completeness
import LineCensus.Proofs.Scan.Respelling
import LineCensus.Proofs.Line.Openers
import LineCensus.Proofs.CommandLine.Items
import LineCensus.Proofs.CommandLine.Outcome
import LineCensus.Proofs.FileTree.Places
import LineCensus.Proofs.FileTree.Growth
import LineCensus.Proofs.Scan.Unseen
import LineCensus.Proofs.Report.Decoding
import LineCensus.Proofs.Tally.Mismatch
import LineCensus.Proofs.Tally.Agreement
import LineCensus.Proofs.Scan.Regrouping
import LineCensus.Proofs.Text.ByteOrder
import LineCensus.Proofs.Report.Ordering
import LineCensus.Proofs.Line.Spacing
import LineCensus.Proofs.Line.Joining
import LineCensus.Proofs.Line.Endings
import LineCensus.Proofs.Line.Shadowing
import LineCensus.Proofs.Registry.History
import LineCensus.Proofs.Registry.Places
import LineCensus.Proofs.Text.LowerCase
import LineCensus.Proofs.Registry.Extensions
import LineCensus.Proofs.Path.ReportName
import LineCensus.Proofs.Report.Colour
import LineCensus.Proofs.Report.Rows
import LineCensus.Proofs.Report.Ties
import LineCensus.Proofs.Decimal.Grouping
import LineCensus.Proofs.Text.Boundaries
import LineCensus.Proofs.Line.Slicing
