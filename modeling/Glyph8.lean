import Glyph8.Text.Basic
import Glyph8.Text.Rune
import Glyph8.Text.Blank
import Glyph8.Text.Printable
import Glyph8.Text.Numeral
import Glyph8.Text.Based
import Glyph8.Text.Quoted
import Glyph8.Text.Column
import Glyph8.Text.Sink
import Glyph8.Instruction.Alphabet
import Glyph8.Instruction.Basic
import Glyph8.Instruction.Word
import Glyph8.Instruction.Printer
import Glyph8.Assembly.Diagnostic
import Glyph8.Assembly.Line
import Glyph8.Assembly.Section
import Glyph8.Assembly.Expansion
import Glyph8.Assembly.SymbolTable
import Glyph8.Assembly.Operand
import Glyph8.Assembly.Program
import Glyph8.Assembly.Journal
import Glyph8.Assembly.Dump
import Glyph8.Assembly.Artifact
import Glyph8.Machine.Console
import Glyph8.Machine.Basic
import Glyph8.Machine.Step
import Glyph8.Machine.Run
import Glyph8.Listing
import Glyph8.Duration.Precision
import Glyph8.Duration.Printer
import Glyph8.Duration.Parser
import Glyph8.Loader.Protocol
import Glyph8.Loader.Header
import Glyph8.Loader.Board
import Glyph8.Loader.Download
import Glyph8.Serial.Uart
import Glyph8.Serial.Link
import Glyph8.Toml.Basic
import Glyph8.Toml.Quoting
import Glyph8.Toml.Number
import Glyph8.Toml.Moment
import Glyph8.Toml.Parser
import Glyph8.Toml.Register
import Glyph8.Toml.Document
import Glyph8.FileTree.Basic
import Glyph8.FileTree.Resolve
import Glyph8.FileTree.Access
import Glyph8.Settings
import Glyph8.Command.Log
import Glyph8.Command.Flag
import Glyph8.Command.Request
import Glyph8.Command.Outcome
import Glyph8.Command.Execute
import Glyph8.Main
import Glyph8.Proofs.Attempt
import Glyph8.Proofs.Text.Numerals
import Glyph8.Proofs.Instruction.Codec
import Glyph8.Proofs.Assembly.Labels
import Glyph8.Proofs.Machine.Session
import Glyph8.Proofs.Assembly.Encoding
import Glyph8.Proofs.Assembly.LabelJumps
import Glyph8.Proofs.Machine.Alike
import Glyph8.Proofs.Machine.Unbounded
import Glyph8.Proofs.Machine.Budget
import Glyph8.Proofs.Text.Runes
import Glyph8.Proofs.Text.Words
import Glyph8.Proofs.Text.Separation
import Glyph8.Proofs.Instruction.Spelling
import Glyph8.Proofs.Listing.Reassembly
import Glyph8.Proofs.Listing.Execution
import Glyph8.Proofs.Instruction.Numbers
import Glyph8.Proofs.Assembly.Canonical
import Glyph8.Proofs.Loader.Completion
import Glyph8.Proofs.Loader.Agreement
import Glyph8.Proofs.Assembly.Sectioning
import Glyph8.Proofs.Assembly.Expanding
import Glyph8.Proofs.Assembly.MacroFree
import Glyph8.Proofs.Assembly.CleanLabels
import Glyph8.Proofs.Assembly.ErrorOrder
import Glyph8.Proofs.Assembly.Attribution
import Glyph8.Proofs.Assembly.Composition
import Glyph8.Proofs.Assembly.JumpTargets
import Glyph8.Proofs.Assembly.LineEndings
import Glyph8.Proofs.Assembly.Comments
import Glyph8.Proofs.Assembly.Renaming
import Glyph8.Proofs.Machine.Console
import Glyph8.Proofs.Machine.Semantics
import Glyph8.Proofs.Machine.Invariant
import Glyph8.Proofs.Machine.Resuming
import Glyph8.Proofs.Machine.Termination
import Glyph8.Proofs.Text.Decimals
import Glyph8.Proofs.Assembly.Grammar
import Glyph8.Proofs.Assembly.MacroUse
import Glyph8.Proofs.Assembly.Layout
import Glyph8.Proofs.Assembly.Partition
import Glyph8.Proofs.Assembly.MacroNames
import Glyph8.Proofs.Assembly.SymbolPositions
import Glyph8.Proofs.Machine.Framing
import Glyph8.Proofs.Machine.Printout
import Glyph8.Proofs.Listing.Recovery
import Glyph8.Proofs.Assembly.DumpRecovery
import Glyph8.Proofs.Duration.Fractions
import Glyph8.Proofs.Duration.RoundTrip
import Glyph8.Proofs.Loader.HeaderWriting
import Glyph8.Proofs.Serial.Transparency
import Glyph8.Proofs.FileTree.Writing
import Glyph8.Proofs.Command.Assembling
import Glyph8.Proofs.Toml.Places
import Glyph8.Proofs.Toml.Tables
import Glyph8.Proofs.Toml.Building
import Glyph8.Proofs.Settings.Overlay
import Glyph8.Proofs.Settings.Loading
