import Spruce.Cleanup.Edit
import Spruce.Cleanup.Ledger
import Spruce.Cleanup.Outcome
import Spruce.Cleanup.Project
import Spruce.Cleanup.Report
import Spruce.Cleanup.Run
import Spruce.CommandLine.Arguments
import Spruce.CommandLine.Options
import Spruce.CommandLine.Program
import Spruce.Declaration.Pattern
import Spruce.Declaration.Rename
import Spruce.Declaration.Verdict
import Spruce.Disk.Basic
import Spruce.Fault
import Spruce.Ignore.Glob.Basic
import Spruce.Ignore.Glob.Reader
import Spruce.Ignore.Rules
import Spruce.Ignore.Walk
import Spruce.Json.Basic
import Spruce.Json.Double
import Spruce.Json.Number
import Spruce.Json.NumberReader
import Spruce.Json.Printer
import Spruce.Json.ReadError
import Spruce.Json.Reader
import Spruce.Json.Shortest
import Spruce.Lint.Finding
import Spruce.Lint.Output
import Spruce.Locale.Merge
import Spruce.Locale.Patch
import Spruce.Locale.Project
import Spruce.Locale.Report
import Spruce.Locale.Update
import Spruce.Main
import Spruce.Path.Basic
import Spruce.Path.Relative
import Spruce.Project
import Spruce.Proofs.Cleanup.Deletions
import Spruce.Proofs.Cleanup.Identity
import Spruce.Proofs.Cleanup.Ledger
import Spruce.Proofs.Cleanup.Order
import Spruce.Proofs.Cleanup.Plan
import Spruce.Proofs.Cleanup.Positions
import Spruce.Proofs.Cleanup.Preview
import Spruce.Proofs.Cleanup.Reported
import Spruce.Proofs.Cleanup.Rereading
import Spruce.Proofs.Cleanup.Tallies
import Spruce.Proofs.Cleanup.Tracking
import Spruce.Proofs.Cleanup.Treatment
import Spruce.Proofs.Declaration.Binding
import Spruce.Proofs.Declaration.Brackets
import Spruce.Proofs.Declaration.Declarators
import Spruce.Proofs.Declaration.Element
import Spruce.Proofs.Declaration.Eligible
import Spruce.Proofs.Declaration.Emptying
import Spruce.Proofs.Declaration.Flat
import Spruce.Proofs.Declaration.Hollow
import Spruce.Proofs.Declaration.ImportForm
import Spruce.Proofs.Declaration.Initializer
import Spruce.Proofs.Declaration.Joining
import Spruce.Proofs.Declaration.Nesting
import Spruce.Proofs.Declaration.OpenBrackets
import Spruce.Proofs.Declaration.Removal
import Spruce.Proofs.Declaration.Repeated
import Spruce.Proofs.Declaration.Signatures
import Spruce.Proofs.Declaration.Underscore
import Spruce.Proofs.Disk.Below
import Spruce.Proofs.Disk.Collected
import Spruce.Proofs.Disk.Files
import Spruce.Proofs.Disk.Replace
import Spruce.Proofs.Disk.Selected
import Spruce.Proofs.Json.Fits
import Spruce.Proofs.Json.Leaves
import Spruce.Proofs.Json.Members
import Spruce.Proofs.Json.Numbers
import Spruce.Proofs.Json.Numerals
import Spruce.Proofs.Json.Outline
import Spruce.Proofs.Json.RoundTrip
import Spruce.Proofs.Json.Same
import Spruce.Proofs.Lint.Colours
import Spruce.Proofs.Lint.Headers
import Spruce.Proofs.Lint.Recognition
import Spruce.Proofs.Lint.Stylish
import Spruce.Proofs.Lint.Warnings
import Spruce.Proofs.Locale.Added
import Spruce.Proofs.Locale.Changes
import Spruce.Proofs.Locale.Counts
import Spruce.Proofs.Locale.Idempotence
import Spruce.Proofs.Locale.Merge
import Spruce.Proofs.Locale.Paths
import Spruce.Proofs.Locale.Rewriting
import Spruce.Proofs.Locale.Schedule
import Spruce.Proofs.Locale.Sections
import Spruce.Proofs.Path.Clean
import Spruce.Proofs.Path.Join
import Spruce.Proofs.Path.Order
import Spruce.Proofs.Path.Parent
import Spruce.Proofs.Path.Relative
import Spruce.Proofs.Source.Editing
import Spruce.Proofs.Source.Splice
import Spruce.Proofs.Text.CharClass
import Spruce.Proofs.Text.Coloured
import Spruce.Proofs.Text.Pieces
import Spruce.Proofs.Text.Rows
import Spruce.Proofs.Text.Runs
import Spruce.Root
import Spruce.Selection
import Spruce.Source
import Spruce.Source.Stored
import Spruce.Text.Alphabetic
import Spruce.Text.Basic
import Spruce.Text.CharClass
import Spruce.Text.Colour
import Spruce.Text.Lines
import Spruce.Text.Mark
import Spruce.Text.Numeric
import Spruce.Text.Report
import Spruce.Text.Utf8
import Spruce.Tool.Command
import Spruce.Tool.Effect
import Spruce.Tool.Escape
import Spruce.Tool.Programs
import Spruce.Tool.Run
import Spruce.Tool.Shell.Lexeme
import Spruce.Tool.Shell.Run
import Spruce.Tool.Shell.Script
import Spruce.Tool.Shell.State
