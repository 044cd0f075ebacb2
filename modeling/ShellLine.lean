import ShellLine.Argument
import ShellLine.Bindings
import ShellLine.Config
import ShellLine.Config.FromJson
import ShellLine.Config.Format
import ShellLine.Config.FromToml
import ShellLine.Config.Toml
import ShellLine.Config.ToToml
import ShellLine.Context
import ShellLine.Diagnostic
import ShellLine.Expansion
import ShellLine.Json
import ShellLine.Json.Document
import ShellLine.Json.Literal
import ShellLine.Log
import ShellLine.Main
import ShellLine.Number.Binary64
import ShellLine.Number.Decimal
import ShellLine.Pipeline
import ShellLine.Pipeline.Dump
import ShellLine.Pipeline.Parser
import ShellLine.Program
import ShellLine.Program.FileStore
import ShellLine.Program.Options
import ShellLine.Program.Session
import ShellLine.Proofs.Pipeline.Concatenation
import ShellLine.Proofs.Pipeline.Placement
import ShellLine.Proofs.Pipeline.QuoteReports
import ShellLine.Proofs.Pipeline.Reports
import ShellLine.Proofs.Pipeline.StageCount
import ShellLine.Proofs.Pipeline.Stages
import ShellLine.Proofs.Surface.Arguments
import ShellLine.Proofs.Surface.Lexing
import ShellLine.Proofs.Surface.Meaning
import ShellLine.Proofs.Surface.Parsing
import ShellLine.Proofs.Surface.ReadingBack
import ShellLine.Proofs.Surface.Splitting
import ShellLine.Proofs.Surface.Syntax
import ShellLine.Proofs.Surface.Values
import ShellLine.Proofs.Token.Clauses
import ShellLine.Proofs.Token.Concatenation
import ShellLine.Proofs.Token.Cutting
import ShellLine.Proofs.Token.Slices
import ShellLine.Proofs.Token.Tiling
import ShellLine.Proofs.Word.Derivation
import ShellLine.Proofs.Word.Joining
import ShellLine.Proofs.Word.OpenQuotes
import ShellLine.Proofs.Word.Shifting
import ShellLine.Span
import ShellLine.Structured
import ShellLine.Text.Basic
import ShellLine.Text.Blank
import ShellLine.Text.CharRanges
import ShellLine.Text.Printable
import ShellLine.Text.Quoted
import ShellLine.Text.Utf8
import ShellLine.Token
import ShellLine.Token.Lexer
import ShellLine.Token.Quoting
import ShellLine.Toml
import ShellLine.Toml.Reader
import ShellLine.Toml.Scalar
import ShellLine.Toml.Strings
import ShellLine.Toml.Writer
import ShellLine.Value
import ShellLine.Word
import ShellLine.Word.Reading
import ShellLine.Word.Segment
import ShellLine.Proofs.Pipeline.Expansion
import ShellLine.Proofs.Pipeline.Nesting
import ShellLine.Proofs.Text.Endings
import ShellLine.Proofs.Pipeline.Readability
import ShellLine.Proofs.Toml.Grammar
import ShellLine.Proofs.Toml.Keys
import ShellLine.Proofs.Toml.Scalars
import ShellLine.Proofs.Toml.Lines
import ShellLine.Proofs.Toml.Writing
import ShellLine.Proofs.Config.Toml
import ShellLine.Proofs.Config.RoundTrip
import ShellLine.Proofs.Config.Reading
import ShellLine.Proofs.Word.Separators
import ShellLine.Proofs.Word.Accounting
import ShellLine.Proofs.Token.Excerpt
import ShellLine.Proofs.Pipeline.Excerpts
import ShellLine.Proofs.Program.Lines
import ShellLine.Proofs.Token.Numbers
import ShellLine.Proofs.Program.CommandLine
import ShellLine.Proofs.Context.Stacking
import ShellLine.Proofs.Program.Variables
import ShellLine.Proofs.Bytes.Slicing
import ShellLine.Proofs.Bytes.Lexing
import ShellLine.Proofs.Bytes.Splitting
import ShellLine.Proofs.Config.Overlaying
import ShellLine.Proofs.Pipeline.Boundaries
import ShellLine.Proofs.Program.BlankLines
import ShellLine.Proofs.Word.Building
import ShellLine.Proofs.Word.LeftOpen
import ShellLine.Proofs.Word.Offsets
import ShellLine.Proofs.Bytes.Progress
