import Restyle.Text
import Restyle.Text.Blank
import Restyle.Text.Order
import Restyle.Text.Utf8
import Restyle.Path
import Restyle.FileTree
import Restyle.FileTree.Address
import Restyle.Position
import Restyle.Json
import Restyle.Json.Number
import Restyle.Json.Outline
import Restyle.Json.Scan
import Restyle.Json.Decode
import Restyle.Json.Printer
import Restyle.Style
import Restyle.Failure
import Restyle.Settings.Scopes
import Restyle.Settings
import Restyle.Settings.Source
import Restyle.Manifest
import Restyle.Ignore.Brace
import Restyle.Ignore.Glob
import Restyle.Ignore.Pattern
import Restyle.Eligibility
import Restyle.Pipeline
import Restyle.Child.Script
import Restyle.Child
import Restyle.Editor
import Restyle.Formatter
import Restyle.Memory.Buffer
import Restyle.Memory.Session
import Restyle.Neovim.Script
import Restyle.Neovim.Value
import Restyle.Neovim.Refusal
import Restyle.Neovim.Request
import Restyle.Neovim.Selection
import Restyle.Neovim.Document
import Restyle.Neovim.Event
import Restyle.Neovim.Lines
import Restyle.Neovim.Instance
import Restyle.Neovim.Host
import Restyle.Neovim.Peer
import Restyle.CommandLine.Arguments
import Restyle.CommandLine.Fix
import Restyle.CommandLine.Help
import Restyle.CommandLine.Notice
import Restyle.CommandLine.Run
import Restyle.CommandLine.Survey
import Restyle.Main
import Restyle.Proofs.Effects
import Restyle.Proofs.Lifting
import Restyle.Proofs.Text.Boundary
import Restyle.Proofs.Position
import Restyle.Proofs.Settings.Overrides
import Restyle.Proofs.Memory.Place
import Restyle.Proofs.Memory.Formatting
import Restyle.Proofs.Memory.BeforeSave
import Restyle.Proofs.Recording
import Restyle.Proofs.Calls
import Restyle.Proofs.Discipline
import Restyle.Proofs.Text.Segments
import Restyle.Proofs.Neovim.Lines
import Restyle.Proofs.Neovim.Places
import Restyle.Proofs.Neovim.Service
import Restyle.Proofs.Neovim.Agreement
import Restyle.Proofs.Neovim.Requests
import Restyle.Proofs.Neovim.Windows
import Restyle.Proofs.Neovim.Cursor
import Restyle.Proofs.Neovim.Sessions
import Restyle.Proofs.Neovim.Lifecycle
import Restyle.Proofs.Neovim.Visits
import Restyle.Proofs.Neovim.Formatting
import Restyle.Proofs.Neovim.Writes
import Restyle.Proofs.Neovim.Opening
import Restyle.Proofs.Neovim.Confinement
import Restyle.Proofs.Path
import Restyle.Proofs.Project.Manifest
import Restyle.Proofs.Project.Eligibility
import Restyle.Proofs.Project.Locality
import Restyle.Proofs.Text.Utf8
import Restyle.Proofs.FileTree
import Restyle.Proofs.CommandLine.Fix
import Restyle.Proofs.CommandLine.Account
import Restyle.Proofs.CommandLine.Order
import Restyle.Proofs.Json.Strings
import Restyle.Proofs.Json.Numbers
import Restyle.Proofs.Json.Grammar
import Restyle.Proofs.Json.Spelling
import Restyle.Proofs.Json.Printing
import Restyle.Proofs.Settings.RoundTrip
import Restyle.Proofs.Json.Shape
import Restyle.Proofs.Child.Transport
import Restyle.Proofs.Child.Verdict
import Restyle.Proofs.Ignore.Cuts
import Restyle.Proofs.Ignore.Choices
import Restyle.Proofs.Ignore.Patterns
import Restyle.Proofs.Ignore.Wildcards
import Restyle.Proofs.Neovim.Marks
import Restyle.Proofs.Neovim.Fragments
import Restyle.Proofs.Pipeline.Trace
import Restyle.Proofs.Clamping
import Restyle.Proofs.Memory.Idempotence
import Restyle.Proofs.Project.Root
import Restyle.Proofs.Project.Beyond
import Restyle.Proofs.Settings.Merge
import Restyle.Proofs.FileTree.Writing
import Restyle.Proofs.Memory.History
import Restyle.Proofs.Text.Spans
import Restyle.Proofs.Text.Bytes
import Restyle.Proofs.Points
import Restyle.Proofs.Memory.Ranges
