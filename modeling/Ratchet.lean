import Ratchet.Backup
import Ratchet.Backup.Archive
import Ratchet.Category
import Ratchet.Category.Classify
import Ratchet.Category.Grouping
import Ratchet.Category.Phrase
import Ratchet.CommandLine
import Ratchet.CommandLine.Request
import Ratchet.CommandLine.Shape
import Ratchet.Datum
import Ratchet.Datum.Shown
import Ratchet.Diagnostic
import Ratchet.Diagnostic.Line
import Ratchet.Diagnostic.Tally
import Ratchet.Digest
import Ratchet.Fault
import Ratchet.ImportLine
import Ratchet.Instant
import Ratchet.Instant.Reader
import Ratchet.Instant.Span
import Ratchet.Json.Reader
import Ratchet.Json.Writer
import Ratchet.Log
import Ratchet.Log.Template
import Ratchet.Main
import Ratchet.Number.Binary64
import Ratchet.Number.Numeral
import Ratchet.Number.Reading
import Ratchet.Number.Rounding
import Ratchet.Number.Scientific
import Ratchet.Path
import Ratchet.Proofs.Acts
import Ratchet.Proofs.Backup.Aged
import Ratchet.Proofs.Backup.Atomic
import Ratchet.Proofs.Backup.Confined
import Ratchet.Proofs.Backup.Creation
import Ratchet.Proofs.Backup.Granted
import Ratchet.Proofs.Backup.History
import Ratchet.Proofs.Backup.Intact
import Ratchet.Proofs.Backup.Listing
import Ratchet.Proofs.Backup.Manifest
import Ratchet.Proofs.Backup.Outcome
import Ratchet.Proofs.Backup.Restoring
import Ratchet.Proofs.Backup.Spared
import Ratchet.Proofs.Backup.Store
import Ratchet.Proofs.Backup.Tampering
import Ratchet.Proofs.Backup.Unreadable
import Ratchet.Proofs.Diagnostic.Concatenation
import Ratchet.Proofs.Diagnostic.Line
import Ratchet.Proofs.Diagnostic.Tally
import Ratchet.Proofs.Diagnostic.Tolerance
import Ratchet.Proofs.Grouping
import Ratchet.Proofs.Grouping.Partition
import Ratchet.Proofs.ImportLine.Clause
import Ratchet.Proofs.ImportLine.Entry
import Ratchet.Proofs.ImportLine.Reading
import Ratchet.Proofs.ImportLine.Remainder
import Ratchet.Proofs.ImportLine.Row
import Ratchet.Proofs.ImportLine.Statement
import Ratchet.Proofs.Instant
import Ratchet.Proofs.Json
import Ratchet.Proofs.Leading
import Ratchet.Proofs.Lines
import Ratchet.Proofs.Number
import Ratchet.Proofs.Number.Bits
import Ratchet.Proofs.Number.Nearest
import Ratchet.Proofs.Number.Order
import Ratchet.Proofs.Number.Shortest
import Ratchet.Proofs.Number.Spelling
import Ratchet.Proofs.Path
import Ratchet.Proofs.Path.Clean
import Ratchet.Proofs.Path.Within
import Ratchet.Proofs.Precedence
import Ratchet.Proofs.Processes
import Ratchet.Proofs.Report
import Ratchet.Proofs.Report.Outcome
import Ratchet.Proofs.Report.Reading
import Ratchet.Proofs.Report.Recommendation
import Ratchet.Proofs.Run.Calls
import Ratchet.Proofs.Run.Containment
import Ratchet.Proofs.Run.Course
import Ratchet.Proofs.Run.Current
import Ratchet.Proofs.Run.Excluded
import Ratchet.Proofs.Run.Exits
import Ratchet.Proofs.Run.Ledger
import Ratchet.Proofs.Run.Moves
import Ratchet.Proofs.Run.Planned
import Ratchet.Proofs.Run.Reach
import Ratchet.Proofs.Run.Setup
import Ratchet.Proofs.Run.Sparing
import Ratchet.Proofs.Run.Turns
import Ratchet.Proofs.Run.Undone
import Ratchet.Proofs.Run.Waits
import Ratchet.Proofs.Run.Wakeful
import Ratchet.Proofs.Run.Watch
import Ratchet.Proofs.Schema
import Ratchet.Proofs.Server.Exclusion
import Ratchet.Proofs.Settings.Contents
import Ratchet.Proofs.Settings.Surfaces
import Ratchet.Proofs.Snapshot
import Ratchet.Proofs.Snapshot.Exact
import Ratchet.Proofs.Snapshot.Protocol
import Ratchet.Proofs.Snapshot.Repository
import Ratchet.Proofs.Snapshot.Torn
import Ratchet.Proofs.Spared
import Ratchet.Proofs.Strategy.Overlay
import Ratchet.Proofs.Strategy.Reported
import Ratchet.Proofs.Toolchain.Kind
import Ratchet.Proofs.Tree
import Ratchet.Proofs.Tree.Children
import Ratchet.Proofs.Tree.Faults
import Ratchet.Proofs.Tree.Granted
import Ratchet.Proofs.UnusedImports.Again
import Ratchet.Proofs.UnusedImports.Aim
import Ratchet.Proofs.UnusedImports.Edit
import Ratchet.Proofs.UnusedImports.Plan
import Ratchet.Proofs.Workspace
import Ratchet.Proofs.Workspace.Walk
import Ratchet.Report
import Ratchet.Report.Analysis
import Ratchet.Report.Delivery
import Ratchet.Report.Metrics
import Ratchet.Report.Recommendation
import Ratchet.Run
import Ratchet.Run.Crew
import Ratchet.Run.Progress
import Ratchet.Schema
import Ratchet.Server
import Ratchet.Server.Address
import Ratchet.Server.Tracker
import Ratchet.Settings
import Ratchet.Settings.Environment
import Ratchet.Settings.Load
import Ratchet.Snapshot
import Ratchet.Snapshot.Files
import Ratchet.Snapshot.Git
import Ratchet.Snapshot.Guard
import Ratchet.Snapshot.Provider
import Ratchet.Strategy
import Ratchet.Strategy.Catalogue
import Ratchet.Strategy.Command
import Ratchet.Strategy.Reference
import Ratchet.Strategy.Registry
import Ratchet.Strategy.UnusedImports
import Ratchet.Text.Base64
import Ratchet.Text.Blank
import Ratchet.Text.Digit
import Ratchet.Text.HiddenTable
import Ratchet.Text.Letter
import Ratchet.Text.Lines
import Ratchet.Text.Quoted
import Ratchet.Text.Search
import Ratchet.Text.Similar
import Ratchet.Text.Utf8
import Ratchet.Text.Wildcard
import Ratchet.Text.WordTable
import Ratchet.Text.Words
import Ratchet.Toolchain
import Ratchet.Toolchain.Command
import Ratchet.Tree
import Ratchet.Workspace
import Ratchet.World
import Ratchet.World.Document
import Ratchet.Yaml.Cursor
import Ratchet.Yaml.Node
import Ratchet.Yaml.Plain
import Ratchet.Yaml.Reader
import Ratchet.Yaml.Scalar
import Ratchet.Yaml.Token
