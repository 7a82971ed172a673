import StoredRoutine.CallModel
import StoredRoutine.Catalog.Basic
import StoredRoutine.Catalog.Encoding
import StoredRoutine.Catalog.Writer
import StoredRoutine.CommandLine.FileTree
import StoredRoutine.CommandLine.Machine
import StoredRoutine.CommandLine.Options
import StoredRoutine.CommandLine.Run
import StoredRoutine.Config
import StoredRoutine.Decimal.Binary64
import StoredRoutine.Decimal.Shortest
import StoredRoutine.Declaration.Basic
import StoredRoutine.Declaration.Parser
import StoredRoutine.Delimited
import StoredRoutine.Document.Basic
import StoredRoutine.Document.Json
import StoredRoutine.Document.MessagePack
import StoredRoutine.Driver.Basic
import StoredRoutine.Driver.Memory
import StoredRoutine.Driver.Rehearsal
import StoredRoutine.Driver.Rows
import StoredRoutine.Driver.Script
import StoredRoutine.Error
import StoredRoutine.Execution
import StoredRoutine.Main
import StoredRoutine.Package
import StoredRoutine.Passing
import StoredRoutine.Proofs.CallModel
import StoredRoutine.Proofs.Memory.Slots
import StoredRoutine.Proofs.Session.Dialogue
import StoredRoutine.Proofs.Session.Discipline
import StoredRoutine.Proofs.Session.Ownership
import StoredRoutine.Proofs.Session.Record
import StoredRoutine.Source.Fragment
import StoredRoutine.Source.Glyph
import StoredRoutine.Source.Header
import StoredRoutine.Source.Position
import StoredRoutine.Source.Statement
import StoredRoutine.Text.AsciiCase
import StoredRoutine.Text.Blank
import StoredRoutine.Text.CaseRun
import StoredRoutine.Text.Cased
import StoredRoutine.Text.LowerCase
import StoredRoutine.Text.Nesting
import StoredRoutine.Text.UpperCase
import StoredRoutine.Text.Word
import StoredRoutine.Toml.Basic
import StoredRoutine.Toml.Document
import StoredRoutine.Toml.Number
import StoredRoutine.Toml.Reader
import StoredRoutine.Toml.Text
import StoredRoutine.TypeTable
import StoredRoutine.Value
import StoredRoutine.Proofs.Memory.Application
import StoredRoutine.Proofs.Text.Blank
import StoredRoutine.Proofs.Text.Find
import StoredRoutine.Proofs.Text.OneLine
import StoredRoutine.Proofs.Declaration.Rendering
import StoredRoutine.Proofs.Declaration.Reading
import StoredRoutine.Proofs.Source.Gaps
import StoredRoutine.Proofs.Source.Cutting
import StoredRoutine.Proofs.Source.Fragment
import StoredRoutine.Proofs.Source.Layout
import StoredRoutine.Proofs.Source.Shifting
import StoredRoutine.Proofs.Source.Joining
import StoredRoutine.Proofs.Source.Isolation
import StoredRoutine.Proofs.Source.Recovery
import StoredRoutine.Proofs.Text.Cuts
import StoredRoutine.Proofs.Declaration.Accepted
import StoredRoutine.Proofs.Source.NormalForm
import StoredRoutine.Proofs.Source.Rereading
import StoredRoutine.Proofs.Session.FirstFailure
import StoredRoutine.Proofs.Package.Accounting
import StoredRoutine.Proofs.Source.Widening
import StoredRoutine.Proofs.Text.Letters
import StoredRoutine.Proofs.Source.Letters
import StoredRoutine.Proofs.Declaration.Letters
import StoredRoutine.Proofs.Package.Letters
import StoredRoutine.Proofs.Source.Words
import StoredRoutine.Proofs.Source.Places
import StoredRoutine.Proofs.Source.Spans
import StoredRoutine.Proofs.Declaration.Defects
import StoredRoutine.Proofs.Source.Keywords
import StoredRoutine.Proofs.Session.Invariant
import StoredRoutine.Proofs.Memory.Effects
import StoredRoutine.Proofs.Memory.Lifetimes
import StoredRoutine.Proofs.Package.KnownTypes
import StoredRoutine.Proofs.Catalog.Batches
import StoredRoutine.Proofs.Entries
import StoredRoutine.Proofs.CommandLine.FileTree
import StoredRoutine.Proofs.CommandLine.Parts
import StoredRoutine.Proofs.CommandLine.Steps
import StoredRoutine.Proofs.CommandLine.Contract
import StoredRoutine.Proofs.Toml.Reader
import StoredRoutine.Proofs.Document.Datum
import StoredRoutine.Proofs.Document.Json
import StoredRoutine.Proofs.Catalog.Listing
import StoredRoutine.Proofs.Bytewise.Declaration
import StoredRoutine.Proofs.Bytewise.Safety
import StoredRoutine.Proofs.Memory.Refusals
import StoredRoutine.Proofs.Source.Header
import StoredRoutine.Proofs.Declaration.Balance
import StoredRoutine.Proofs.Session.Shape
import StoredRoutine.Proofs.Rows
import StoredRoutine.Proofs.Text.Spaced
import StoredRoutine.Proofs.Package.TypeNames
import StoredRoutine.Proofs.Declaration.Parameters
import StoredRoutine.Proofs.Source.Rescanning
import StoredRoutine.Proofs.Package.Overrides
import StoredRoutine.Proofs.Text.Groups
import StoredRoutine.Proofs.Text.Pieces
import StoredRoutine.Proofs.Delimited
import StoredRoutine.Proofs.Text.Sections
import StoredRoutine.Proofs.Source.Sections
import StoredRoutine.Proofs.Source.SingleLine
import StoredRoutine.Proofs.Memory.LargeObjects
import StoredRoutine.Proofs.Declaration.Direction
import StoredRoutine.Proofs.CommandLine.Interleaving
import StoredRoutine.Proofs.Bytewise.Lexemes
import StoredRoutine.Proofs.Bytewise.Conservation
import StoredRoutine.Proofs.Bytewise.Rewinding
import StoredRoutine.Proofs.CommandLine.Verbosity
